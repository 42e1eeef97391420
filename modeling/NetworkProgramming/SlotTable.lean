import Mathlib.Data.Fintype.Card
import Mathlib.Order.Fin.Basic
import Mathlib.Logic.Function.Basic
import Mathlib.Tactic.Common

/-!
# A fixed array of slots used as a finite map

A table is an array of `n` slots.  Each slot has a key and a flag which tells
whether it is filled, and a slot which was never used is the slot `empty`.
Slots are filled from the front and never freed one by one, so a table stays
packed: the filled slots come first, no two of them have the same key, and
the others are `empty`.  A packed table is a finite map from keys to slots,
and `lookup_update` says that writing to the slot found by `scan` is the
update of that map.
-/

namespace SlotTable

/-- What the scans read of a slot, and the slot of a zeroed table. -/
class KeyedSlot (Slot : Type*) (Key : outParam Type*) where
  key : Slot → Key
  filled : Slot → Bool
  empty : Slot
  filled_empty : filled empty = false

open KeyedSlot

variable {Slot Key : Type*} [KeyedSlot Slot Key] [DecidableEq Key] {n : ℕ}

/-- The index at which a loop over the filled slots stops: at the first slot
which is not filled or has the key, and with `none` past the end. -/
@[irreducible]
def scan (table : Fin n → Slot) (k : Key) : Option (Fin n) :=
  Fin.find? fun i => !filled (table i) || decide (key (table i) = k)

/-- The first slot with the key, whether it is filled or not. -/
@[irreducible]
def scanAll (table : Fin n → Slot) (k : Key) : Option (Fin n) :=
  Fin.find? fun i => decide (key (table i) = k)

/-- The first slot which is not filled. -/
@[irreducible]
def firstFree (table : Fin n → Slot) : Option (Fin n) :=
  Fin.find? fun i => !filled (table i)

/-- The filled slot with the key, as the loop over the filled slots finds
it. -/
def lookup (table : Fin n → Slot) (k : Key) : Option Slot :=
  (scan table k).bind fun i =>
    if filled (table i) then some (table i) else none

structure Packed (table : Fin n → Slot) : Prop where
  filled_of_le : ∀ i j, i ≤ j → filled (table j) = true →
    filled (table i) = true
  eq_empty : ∀ i, filled (table i) = false → table i = empty
  inj : ∀ i j, filled (table i) = true → filled (table j) = true →
    key (table i) = key (table j) → i = j

omit [DecidableEq Key] in
theorem packed_empty :
    Packed (fun _ : Fin n => (empty : Slot)) := by
  refine ⟨?_, fun _ _ => rfl, ?_⟩
  · intro i j _ hj
    simp [filled_empty] at hj
  · intro i j hi
    simp [filled_empty] at hi

/-! ## What the scans find -/

theorem scan_eq_some_iff
    {table : Fin n → Slot} {k : Key} {i : Fin n} :
    scan table k = some i ↔
      (filled (table i) = false ∨ key (table i) = k) ∧
        ∀ j < i, filled (table j) = true ∧ key (table j) ≠ k := by
  simp [scan]

theorem scan_eq_none_iff
    {table : Fin n → Slot} {k : Key} :
    scan table k = none ↔
      ∀ i, filled (table i) = true ∧ key (table i) ≠ k := by
  simp [scan]

theorem scanAll_eq_some_iff
    {table : Fin n → Slot} {k : Key} {i : Fin n} :
    scanAll table k = some i ↔
      key (table i) = k ∧ ∀ j < i, key (table j) ≠ k := by
  simp [scanAll]

theorem scanAll_eq_none_iff
    {table : Fin n → Slot} {k : Key} :
    scanAll table k = none ↔ ∀ i, key (table i) ≠ k := by
  simp [scanAll]

theorem scanAll_congr
    {table other : Fin n → Slot}
    (hkeys : ∀ i, key (table i) = key (other i)) (k : Key) :
    scanAll table k = scanAll other k := by
  simp only [scanAll, hkeys]

omit [DecidableEq Key] in
theorem firstFree_eq_some_iff
    {table : Fin n → Slot} {i : Fin n} :
    firstFree table = some i ↔
      filled (table i) = false ∧ ∀ j < i, filled (table j) = true := by
  simp [firstFree]

omit [DecidableEq Key] in
theorem firstFree_eq_none_iff
    {table : Fin n → Slot} :
    firstFree table = none ↔ ∀ i, filled (table i) = true := by
  simp [firstFree]

theorem lookup_eq_some_iff
    {table : Fin n → Slot} (hpacked : Packed table)
    {k : Key} {slot : Slot} :
    lookup table k = some slot ↔
      ∃ i, table i = slot ∧ filled slot = true ∧ key slot = k := by
  constructor
  · intro hlookup
    obtain ⟨i, hscan, hslot⟩ := Option.bind_eq_some_iff.mp hlookup
    split at hslot
    next hfilled =>
      simp only [Option.some.injEq] at hslot
      subst hslot
      have hstop := (scan_eq_some_iff.mp hscan).1
      simp only [hfilled, Bool.true_eq_false, false_or] at hstop
      exact ⟨i, rfl, hfilled, hstop⟩
    next => contradiction
  · intro hslot
    obtain ⟨i, rfl, hfilled, hkey⟩ := hslot
    have hscan : scan table k = some i := by
      refine scan_eq_some_iff.mpr ⟨.inr hkey, ?_⟩
      intro j hj
      have hfilledj := hpacked.filled_of_le j i hj.le hfilled
      refine ⟨hfilledj, ?_⟩
      intro hkeyj
      have heq := hpacked.inj j i hfilledj hfilled (hkeyj.trans hkey.symm)
      exact hj.ne heq
    simp [lookup, hscan, hfilled]

theorem lookup_eq_none_iff
    {table : Fin n → Slot} (hpacked : Packed table) {k : Key} :
    lookup table k = none ↔
      ∀ i, filled (table i) = true → key (table i) ≠ k := by
  constructor
  · intro hlookup i hfilled hkey
    have hsome := (lookup_eq_some_iff hpacked).mpr ⟨i, rfl, hfilled, hkey⟩
    simp [hlookup] at hsome
  · intro hnone
    cases hlookup : lookup table k with
    | none => rfl
    | some slot =>
        obtain ⟨i, rfl, hfilled, hkey⟩ :=
          (lookup_eq_some_iff hpacked).mp hlookup
        exact absurd hkey (hnone i hfilled)

@[simp]
theorem lookup_empty (k : Key) :
    lookup (fun _ : Fin n => (empty : Slot)) k = none := by
  refine (lookup_eq_none_iff packed_empty).mpr ?_
  intro i hfilled
  simp [filled_empty] at hfilled

theorem lookup_key
    {table : Fin n → Slot} (hpacked : Packed table)
    {k : Key} {slot : Slot} (hlookup : lookup table k = some slot) :
    key slot = k := by
  obtain ⟨_, _, _, hkey⟩ := (lookup_eq_some_iff hpacked).mp hlookup
  exact hkey

theorem lookup_filled
    {table : Fin n → Slot} (hpacked : Packed table)
    {k : Key} {slot : Slot} (hlookup : lookup table k = some slot) :
    filled slot = true := by
  obtain ⟨_, _, hfilled, _⟩ := (lookup_eq_some_iff hpacked).mp hlookup
  exact hfilled

theorem lookup_of_filled
    {table : Fin n → Slot} (hpacked : Packed table)
    {i : Fin n} (hfilled : filled (table i) = true) :
    lookup table (key (table i)) = some (table i) :=
  (lookup_eq_some_iff hpacked).mpr ⟨i, rfl, hfilled, rfl⟩

/-- The slot at which the scan stops is the one with the key, or an unused
one when no filled slot has the key. -/
theorem lookup_of_scan
    {table : Fin n → Slot} (hpacked : Packed table)
    {k : Key} {i : Fin n} (hscan : scan table k = some i) :
    (lookup table k = some (table i) ∧ key (table i) = k) ∨
      (lookup table k = none ∧ table i = empty) := by
  obtain ⟨hstop, hbefore⟩ := scan_eq_some_iff.mp hscan
  cases hfilled : filled (table i) with
  | true =>
      simp only [hfilled, Bool.true_eq_false, false_or] at hstop
      refine .inl ⟨?_, hstop⟩
      simp [lookup, hscan, hfilled]
  | false =>
      refine .inr ⟨?_, hpacked.eq_empty i hfilled⟩
      simp [lookup, hscan, hfilled]

/-- On a packed table the scan of all slots stops where the scan of the
filled slots stops. -/
theorem scan_of_scanAll
    {table : Fin n → Slot} (hpacked : Packed table)
    {k : Key} {i : Fin n} (hscan : scanAll table k = some i) :
    scan table k = some i := by
  obtain ⟨hkey, hbefore⟩ := scanAll_eq_some_iff.mp hscan
  refine scan_eq_some_iff.mpr ⟨.inr hkey, ?_⟩
  intro j hj
  refine ⟨?_, hbefore j hj⟩
  by_contra hfree
  have hfreej : filled (table j) = false := by simpa using hfree
  cases hfilled : filled (table i) with
  | true => exact hfree (hpacked.filled_of_le j i hj.le hfilled)
  | false =>
      have hji : table j = table i := by
        rw [hpacked.eq_empty i hfilled, hpacked.eq_empty j hfreej]
      exact hbefore j hj (hji ▸ hkey)

theorem lookup_of_scanAll_none
    {table : Fin n → Slot} (hpacked : Packed table)
    {k : Key} (hscan : scanAll table k = none) :
    lookup table k = none :=
  (lookup_eq_none_iff hpacked).mpr fun i _ =>
    scanAll_eq_none_iff.mp hscan i

/-- For a key other than that of an unused slot, the scan of all slots finds
the entry of the map. -/
theorem lookup_of_scanAll
    {table : Fin n → Slot} (hpacked : Packed table)
    {k : Key} (hk : k ≠ key (empty : Slot))
    {i : Fin n} (hscan : scanAll table k = some i) :
    lookup table k = some (table i) := by
  rcases lookup_of_scan hpacked (scan_of_scanAll hpacked hscan) with
    hfound | hfree
  · exact hfound.1
  · have hkey := (scanAll_eq_some_iff.mp hscan).1
    rw [hfree.2] at hkey
    exact absurd hkey.symm hk

theorem scanAll_of_scan
    {table : Fin n → Slot} {k : Key} {i : Fin n}
    (hscan : scan table k = some i) (hfilled : filled (table i) = true) :
    scanAll table k = some i := by
  obtain ⟨hstop, hbefore⟩ := scan_eq_some_iff.mp hscan
  simp only [hfilled, Bool.true_eq_false, false_or] at hstop
  exact scanAll_eq_some_iff.mpr ⟨hstop, fun j hj => (hbefore j hj).2⟩

theorem scanAll_of_lookup_none
    {table : Fin n → Slot} (hpacked : Packed table)
    {k : Key} (hk : k ≠ key (empty : Slot))
    (hnone : lookup table k = none) :
    scanAll table k = none := by
  cases hscan : scanAll table k with
  | none => rfl
  | some i =>
      rw [lookup_of_scanAll hpacked hk hscan] at hnone
      cases hnone

/-- The scan for a key without an entry stops at the first unused slot. -/
theorem scan_of_firstFree
    {table : Fin n → Slot} (hpacked : Packed table)
    {k : Key} (hnone : lookup table k = none)
    {i : Fin n} (hfree : firstFree table = some i) :
    scan table k = some i := by
  obtain ⟨hi, hbefore⟩ := firstFree_eq_some_iff.mp hfree
  refine scan_eq_some_iff.mpr ⟨.inl hi, ?_⟩
  intro j hj
  exact ⟨hbefore j hj,
    (lookup_eq_none_iff hpacked).mp hnone j (hbefore j hj)⟩

omit [DecidableEq Key] in
/-- A packed table is not full when its keys come from a set with fewer
elements than it has slots. -/
theorem Packed.exists_free
    {table : Fin n → Slot} (hpacked : Packed table)
    (keys : Finset Key)
    (hkeys : ∀ i, filled (table i) = true → key (table i) ∈ keys)
    (hcard : keys.card < n) :
    ∃ i, filled (table i) = false := by
  by_contra hfull
  have hfilled : ∀ i, filled (table i) = true := by simpa using hfull
  have hinj : Function.Injective fun i : Fin n =>
      (⟨key (table i), hkeys i (hfilled i)⟩ : keys) := by
    intro i j hij
    exact hpacked.inj i j (hfilled i) (hfilled j) (Subtype.mk.inj hij)
  have hle := Fintype.card_le_of_injective _ hinj
  simp only [Fintype.card_fin, Fintype.card_coe] at hle
  omega

/-! ## Writing to the slot found -/

theorem Packed.update
    {table : Fin n → Slot} (hpacked : Packed table)
    {slot : Slot} {i : Fin n} (hscan : scan table (key slot) = some i)
    (hfilled : filled slot = true) :
    Packed (Function.update table i slot) := by
  obtain ⟨hstop, hbefore⟩ := scan_eq_some_iff.mp hscan
  have hother : ∀ j, j ≠ i → filled (table j) = true →
      key (table j) ≠ key slot := by
    intro j hne hfilledj hkey
    have hlookup := lookup_of_filled hpacked hfilledj
    rcases lookup_of_scan hpacked hscan with hfound | hfree
    · have hfilledi := lookup_filled hpacked hfound.1
      exact hne (hpacked.inj j i hfilledj hfilledi
        (hkey.trans hfound.2.symm))
    · rw [hkey, hfree.1] at hlookup
      contradiction
  refine ⟨?_, ?_, ?_⟩
  · intro j l hle hl
    by_cases hj : j = i
    · subst hj
      simpa using hfilled
    · rw [Function.update_of_ne hj]
      by_cases hl' : l = i
      · subst hl'
        exact (hbefore j (lt_of_le_of_ne hle hj)).1
      · rw [Function.update_of_ne hl'] at hl
        exact hpacked.filled_of_le j l hle hl
  · intro j hj
    by_cases hji : j = i
    · subst hji
      simp [hfilled] at hj
    · rw [Function.update_of_ne hji] at hj ⊢
      exact hpacked.eq_empty j hj
  · intro j l hj hl hkey
    by_cases hji : j = i
    · by_cases hli : l = i
      · rw [hji, hli]
      · rw [hji, Function.update_self, Function.update_of_ne hli] at hkey
        rw [Function.update_of_ne hli] at hl
        exact absurd hkey.symm (hother l hli hl)
    · rw [Function.update_of_ne hji] at hj hkey
      by_cases hli : l = i
      · rw [hli, Function.update_self] at hkey
        exact absurd hkey (hother j hji hj)
      · rw [Function.update_of_ne hli] at hl hkey
        exact hpacked.inj j l hj hl hkey

/-- Writing a filled slot where the scan for its key stops is the update of
the map at that key. -/
theorem lookup_update
    {table : Fin n → Slot} (hpacked : Packed table)
    {slot : Slot} {i : Fin n} (hscan : scan table (key slot) = some i)
    (hfilled : filled slot = true) (k : Key) :
    lookup (Function.update table i slot) k =
      if k = key slot then some slot else lookup table k := by
  have hnext := hpacked.update hscan hfilled
  split
  next hk =>
    subst hk
    exact (lookup_eq_some_iff hnext).mpr ⟨i, by simp, hfilled, rfl⟩
  next hk =>
    apply Option.ext
    intro other
    rw [lookup_eq_some_iff hnext, lookup_eq_some_iff hpacked]
    constructor
    · intro hother
      obtain ⟨j, hj, hfilledj, hkeyj⟩ := hother
      by_cases hji : j = i
      · rw [hji, Function.update_self] at hj
        subst hj
        exact absurd hkeyj.symm hk
      · rw [Function.update_of_ne hji] at hj
        exact ⟨j, hj, hfilledj, hkeyj⟩
    · intro hother
      obtain ⟨j, hj, hfilledj, hkeyj⟩ := hother
      refine ⟨j, ?_, hfilledj, hkeyj⟩
      by_cases hji : j = i
      · rcases lookup_of_scan hpacked hscan with hfound | hfree
        · have hkeyi : key (table i) = k := by rw [← hji, hj, hkeyj]
          exact absurd (hkeyi.symm.trans hfound.2) hk
        · rw [hji, hfree.2] at hj
          subst hj
          simp [filled_empty] at hfilledj
      · rw [Function.update_of_ne hji, hj]

/-! ## A table and what one operation makes of it -/

section Stores

variable {table middle next : Fin n → Slot} {k : Key}

/-- A table after at most one write for a key, of a filled slot and at the
place where the scan for the key stops. -/
inductive Stores (table : Fin n → Slot) (k : Key) :
    (Fin n → Slot) → Prop
  | keep : Stores table k table
  | put {i : Fin n} {slot : Slot} (hscan : scan table k = some i)
      (hkey : key slot = k) (hfilled : filled slot = true) :
      Stores table k (Function.update table i slot)

theorem Stores.packed
    (hstores : Stores table k next) (hpacked : Packed table) :
    Packed next := by
  cases hstores with
  | keep => exact hpacked
  | put hscan hkey hfilled =>
      subst hkey
      exact hpacked.update hscan hfilled

/-- A slot in use stays in use under its key. -/
theorem Stores.keeps
    (hstores : Stores table k next) {i : Fin n}
    (hfilled : filled (table i) = true) :
    filled (next i) = true ∧ key (next i) = key (table i) := by
  cases hstores with
  | keep => exact ⟨hfilled, rfl⟩
  | @put j slot hscan hkey hslot =>
      by_cases hij : i = j
      · subst hij
        have hstop := (scan_eq_some_iff.mp hscan).1
        simp only [hfilled, Bool.true_eq_false, false_or] at hstop
        rw [Function.update_self, hkey, hstop]
        exact ⟨hslot, rfl⟩
      · rw [Function.update_of_ne hij]
        exact ⟨hfilled, rfl⟩

/-- A slot is in use under the key which was stored or as before. -/
theorem Stores.key_of_filled
    (hstores : Stores table k next) {i : Fin n}
    (hfilled : filled (next i) = true) :
    key (next i) = k ∨
      filled (table i) = true ∧ key (next i) = key (table i) := by
  cases hstores with
  | keep => exact .inr ⟨hfilled, rfl⟩
  | @put j slot hscan hkey hslot =>
      by_cases hij : i = j
      · subst hij
        rw [Function.update_self]
        exact .inl hkey
      · rw [Function.update_of_ne hij] at hfilled ⊢
        exact .inr ⟨hfilled, rfl⟩

theorem Stores.elsewhere
    (hstores : Stores table k next) :
    next = table ∨ ∃ i, ∀ j, j ≠ i → next j = table j := by
  cases hstores with
  | keep => exact .inl rfl
  | @put i => exact .inr ⟨i, fun j hj => Function.update_of_ne hj _ _⟩

theorem Stores.trans
    (hpacked : Packed table)
    (hfirst : Stores table k middle) (hsecond : Stores middle k next) :
    Stores table k next := by
  cases hfirst with
  | keep => exact hsecond
  | @put i slot hscan hkey hfilled =>
      cases hsecond with
      | keep => exact .put hscan hkey hfilled
      | @put j slot' hscan' hkey' hfilled' =>
          -- the second scan stops at the slot just written
          subst hkey
          have hnext := hpacked.update hscan hfilled
          have hstop : j = i := by
            have hself := lookup_update hpacked hscan hfilled (key slot)
            rw [if_pos rfl] at hself
            rcases lookup_of_scan hnext hscan' with hfound | hfree
            · have hused := lookup_filled hnext hfound.1
              refine hnext.inj j i hused ?_ ?_
              · rw [Function.update_self]
                exact hfilled
              · rw [hfound.2, Function.update_self]
            · rw [hself] at hfree
              cases hfree.1
          subst hstop
          rw [Function.update_idem]
          exact .put hscan hkey' hfilled'

theorem scan_isSome_iff :
    (scan table k).isSome = true ↔
      ∃ i, filled (table i) = false ∨ key (table i) = k := by
  rw [← Option.ne_none_iff_isSome, ne_eq, scan_eq_none_iff]
  constructor
  · intro hroom
    by_contra hnone
    push Not at hnone
    exact hroom fun i => by simpa using hnone i
  · intro hroom hnone
    obtain ⟨i, hfree | hkey⟩ := hroom
    · rw [(hnone i).1] at hfree
      cases hfree
    · exact (hnone i).2 hkey

theorem Stores.scan_isSome
    (hstores : Stores table k next)
    (hroom : (scan table k).isSome = true) :
    (scan next k).isSome = true := by
  cases hstores with
  | keep => exact hroom
  | @put i slot hscan hkey hfilled =>
      refine scan_isSome_iff.mpr ⟨i, .inr ?_⟩
      rw [Function.update_self]
      exact hkey

/-- There is a slot for every key of a set with no more elements than the
table has slots. -/
theorem Packed.scan_isSome
    (hpacked : Packed table) {keys : Finset Key}
    (hkeys : ∀ i, filled (table i) = true → key (table i) ∈ keys)
    (hcard : keys.card ≤ n) (hk : k ∈ keys) :
    (scan table k).isSome = true := by
  rw [← Option.ne_none_iff_isSome]
  intro hnone
  have hother := scan_eq_none_iff.mp hnone
  have hless := Finset.card_erase_lt_of_mem hk
  obtain ⟨i, hfree⟩ := hpacked.exists_free (keys.erase k)
    (fun i hfilled => Finset.mem_erase.mpr
      ⟨(hother i).2, hkeys i hfilled⟩)
    (by omega)
  rw [(hother i).1] at hfree
  cases hfree

end Stores

/-! ## Filling the slots one by one -/

section Filling

variable {slot : ℕ → Slot}

/-- The first `count` slots are in use. -/
def filledUpTo (slot : ℕ → Slot) (count : ℕ) : Fin n → Slot :=
  fun i => if i.val < count then slot i else empty

omit [DecidableEq Key] in
theorem filledUpTo_zero :
    filledUpTo slot 0 = fun _ : Fin n => (empty : Slot) := by
  funext i
  simp [filledUpTo]

omit [DecidableEq Key] in
theorem update_filledUpTo {count : ℕ} (hcount : count < n) :
    Function.update (filledUpTo slot count) ⟨count, hcount⟩ (slot count) =
      (filledUpTo slot (count + 1) : Fin n → Slot) := by
  funext i
  by_cases hi : i = ⟨count, hcount⟩
  · subst hi
    simp [filledUpTo]
  · have hval : i.val ≠ count := fun hval => hi (Fin.ext hval)
    rw [Function.update_of_ne hi]
    unfold filledUpTo
    by_cases hlt : i.val < count
    · rw [if_pos hlt, if_pos (by omega)]
    · rw [if_neg hlt, if_neg (by omega)]

omit [DecidableEq Key] in
theorem firstFree_filledUpTo
    (hfilled : ∀ k, filled (slot k) = true) {count : ℕ}
    (hcount : count < n) :
    firstFree (filledUpTo slot count : Fin n → Slot) =
      some ⟨count, hcount⟩ := by
  refine firstFree_eq_some_iff.mpr ⟨?_, fun j hj => ?_⟩
  · simp [filledUpTo, filled_empty]
  · have hlt : j.val < count := hj
    simp [filledUpTo, hlt, hfilled]

omit [DecidableEq Key] in
theorem filled_filledUpTo
    (hfilled : ∀ k, filled (slot k) = true) (i : Fin n) :
    filled (filledUpTo slot n i) = true := by
  simp [filledUpTo, hfilled]

theorem scanAll_filledUpTo
    {k : Key} (hk : k ≠ key (empty : Slot)) {count : ℕ}
    (hnew : ∀ i < count, key (slot i) ≠ k) :
    scanAll (filledUpTo slot count : Fin n → Slot) k = none := by
  refine scanAll_eq_none_iff.mpr fun i => ?_
  unfold filledUpTo
  split
  next hlt => exact hnew i hlt
  next => exact hk.symm

theorem scan_filledUpTo
    (hfilled : ∀ k, filled (slot k) = true) {k : Key} {count : ℕ}
    (hcount : count < n) (hnew : ∀ i < count, key (slot i) ≠ k) :
    scan (filledUpTo slot count : Fin n → Slot) k =
      some ⟨count, hcount⟩ := by
  refine scan_eq_some_iff.mpr ⟨.inl ?_, fun j hj => ?_⟩
  · simp [filledUpTo, filled_empty]
  · have hlt : j.val < count := hj
    simp only [filledUpTo, hlt, if_true]
    exact ⟨hfilled j, hnew j hlt⟩

end Filling

end SlotTable

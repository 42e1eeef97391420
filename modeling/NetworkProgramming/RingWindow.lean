import Mathlib.Data.Fintype.Fin
import Mathlib.Data.List.FinRange
import Mathlib.Data.List.Range
import Mathlib.Order.Interval.Finset.Nat
import Mathlib.Tactic.Common

/-!
# A ring of slots holding a window of a numbered sequence

A ring of `n` slots stores the entries of a growing sequence `log`.  Entry
number `s` goes to slot `s % n` and is stored together with its number.  The
ring represents the window of the sequence from `first` to its end when its
full slots are exactly the entries of that window.  The sequence is extended
by writing the next entry, and the window is shortened by emptying the slots
from the position of its first entry to the end of the array.
-/

namespace RingWindow

variable {α : Type*} {n : ℕ}

/-- The full slots of `ring` are exactly the entries `first, first + 1, ...`
of `log`, each at its own position and with its own number. -/
structure Represents (ring : Fin n → Option (α × ℕ)) (log : List α)
    (first : ℕ) : Prop where
  first_le : first ≤ log.length
  size_le : log.length - first ≤ n
  slot_iff : ∀ (i : Fin n) (entry : α × ℕ), ring i = some entry ↔
    first ≤ entry.2 ∧ entry.2 % n = i.val ∧ log[entry.2]? = some entry.1

/-- The end of the part of the window stored without wrapping around. -/
def cut (n : ℕ) (log : List α) (first : ℕ) : ℕ :=
  min log.length (first + (n - first % n))

theorem first_le_cut
    {log : List α} {first : ℕ} (hfirst : first ≤ log.length) :
    first ≤ cut n log first := by
  unfold cut
  omega

theorem mod_add_of_lt
    {first k : ℕ} (hk : k < n - first % n) :
    (first + k) % n = first % n + k := by
  have hsum : first + k = (first % n + k) + n * (first / n) := by
    have hdiv := Nat.mod_add_div first n
    omega
  rw [hsum, Nat.add_mul_mod_self_left]
  exact Nat.mod_eq_of_lt (by omega)

theorem eq_of_mod_eq
    {s t : ℕ} (hmod : s % n = t % n) (hle : s ≤ t) (hlt : t < s + n) :
    s = t := by
  have hzero : (t - s) % n = 0 := Nat.sub_mod_eq_zero_of_mod_eq hmod.symm
  rw [Nat.mod_eq_of_lt (by omega)] at hzero
  omega

/-- A number of the window lies at or behind the position of the first one
exactly when it is before the end of the array. -/
theorem mod_le_mod_iff
    {first s : ℕ} (hle : first ≤ s) (hlt : s < first + n) :
    first % n ≤ s % n ↔ s < first + (n - first % n) := by
  have hmod : first % n < n := Nat.mod_lt first (by omega)
  obtain ⟨k, rfl⟩ := Nat.exists_eq_add_of_le hle
  by_cases hk : k < n - first % n
  · rw [mod_add_of_lt hk]
    constructor <;> intro <;> omega
  · have hwrap : first + k =
        (first % n + k - n) + n * (first / n + 1) := by
      have hdiv := Nat.mod_add_div first n
      rw [Nat.mul_add]
      omega
    have hvalue : (first + k) % n = first % n + k - n := by
      rw [hwrap, Nat.add_mul_mod_self_left]
      exact Nat.mod_eq_of_lt (by omega)
    constructor <;> intro <;> omega

theorem represents_empty
    {ring : Fin n → Option (α × ℕ)} (hempty : ∀ i, ring i = none) :
    Represents ring [] 0 := by
  refine ⟨by simp, by simp, ?_⟩
  intro i entry
  simp [hempty i]

/-! ## Extending the sequence -/

theorem Represents.lt_of_slot_none
    {ring : Fin n → Option (α × ℕ)} {log : List α} {first : ℕ}
    (hrep : Represents ring log first) {i : Fin n}
    (hi : log.length % n = i.val) (hnone : ring i = none) :
    log.length - first < n := by
  have hsize := hrep.size_le
  have hle := hrep.first_le
  by_contra hfull
  have hpos : 0 < n := i.pos
  have hlt : first < log.length := by omega
  have hmod : first % n = i.val := by
    rw [← hi, show log.length = first + n by omega, Nat.add_mod_right]
  have hfilled : ring i = some (log[first], first) := by
    rw [hrep.slot_iff]
    exact ⟨le_rfl, hmod, List.getElem?_eq_getElem hlt⟩
  rw [hnone] at hfilled
  contradiction

theorem Represents.push
    {ring : Fin n → Option (α × ℕ)} {log : List α} {first : ℕ}
    (hrep : Represents ring log first) {i : Fin n}
    (hi : log.length % n = i.val) (hnone : ring i = none) (x : α) :
    Represents (Function.update ring i (some (x, log.length)))
      (log ++ [x]) first := by
  have hroom := hrep.lt_of_slot_none hi hnone
  have hle := hrep.first_le
  refine ⟨by simp; omega, by simp; omega, ?_⟩
  intro j entry
  rcases entry with ⟨y, s⟩
  by_cases hj : j = i
  · subst hj
    simp only [Function.update_self, Option.some.injEq, Prod.mk.injEq]
    constructor
    · rintro ⟨rfl, rfl⟩
      exact ⟨hle, hi, by simp⟩
    · rintro ⟨hs, hmod, hget⟩
      have hbound : s < log.length + 1 := by
        simpa using (List.getElem?_eq_some_iff.mp hget).1
      have heq : s = log.length := by
        apply eq_of_mod_eq (n := n) (hmod.trans hi.symm) <;> omega
      subst heq
      simpa using hget
  · rw [Function.update_of_ne hj, hrep.slot_iff]
    have hne : s % n = j.val → s ≠ log.length := by
      rintro hmod rfl
      exact hj (Fin.ext (hmod.symm.trans hi))
    constructor
    · rintro ⟨hs, hmod, hget⟩
      have hbound := (List.getElem?_eq_some_iff.mp hget).1
      refine ⟨hs, hmod, ?_⟩
      rw [List.getElem?_append_left hbound]
      exact hget
    · rintro ⟨hs, hmod, hget⟩
      have hbound : s < log.length + 1 := by
        simpa using (List.getElem?_eq_some_iff.mp hget).1
      have hlt : s < log.length := by
        have := hne hmod
        omega
      rw [List.getElem?_append_left hlt] at hget
      exact ⟨hs, hmod, hget⟩

/-! ## Emptying the slots from the first entry on -/

theorem Represents.slot_from_first
    {ring : Fin n → Option (α × ℕ)} {log : List α} {first k : ℕ}
    (hrep : Represents ring log first) (hk : first % n + k < n) :
    ring ⟨first % n + k, hk⟩ = log.zipIdx[first + k]? := by
  have hmod : (first + k) % n = first % n + k := mod_add_of_lt (by omega)
  cases hget : log.zipIdx[first + k]? with
  | some entry =>
      obtain ⟨hlt, hentry⟩ := List.getElem?_eq_some_iff.mp hget
      rw [hrep.slot_iff]
      subst hentry
      simp only [List.length_zipIdx] at hlt
      simp [hmod, List.getElem?_eq_getElem hlt]
  | none =>
      rw [Option.eq_none_iff_forall_not_mem]
      intro entry hentry
      obtain ⟨hs, hslot, hlog⟩ := (hrep.slot_iff _ _).mp hentry
      have hbound := (List.getElem?_eq_some_iff.mp hlog).1
      have hend : log.length ≤ first + k := by
        simpa using List.getElem?_eq_none_iff.mp hget
      have hsize := hrep.size_le
      have heq : entry.2 = first + k := by
        apply eq_of_mod_eq (n := n)
        · rw [hslot, hmod]
        · omega
        · have := Nat.mod_lt first (show 0 < n by omega)
          omega
      omega

theorem filterMap_getElem?_range
    (l : List α) (d : ℕ) :
    (List.range d).filterMap (fun k => l[k]?) = l.take d := by
  induction d with
  | zero => simp
  | succ d ih =>
      rw [List.range_succ, List.filterMap_append, ih, List.take_add_one]
      cases hd : l[d]? <;> simp [hd]

theorem finRange_drop
    {m : ℕ} (hm : m ≤ n) :
    (List.finRange n).drop m =
      (List.finRange (n - m)).map fun k => ⟨m + k.val, by omega⟩ := by
  apply List.ext_getElem
  · simp
  · intro k hk hk'
    simp

theorem mem_finRange_drop
    {m : ℕ} (hm : m ≤ n) {i : Fin n} :
    i ∈ (List.finRange n).drop m ↔ m ≤ i.val := by
  rw [finRange_drop hm]
  simp only [List.mem_map, List.mem_finRange, true_and]
  constructor
  · rintro ⟨k, rfl⟩
    simp
  · intro hle
    exact ⟨⟨i.val - m, by omega⟩, Fin.ext (by simp; omega)⟩

/-- The entries read from the position of the first entry to the end of the
array are the part of the window before the cut, in order. -/
theorem Represents.filterMap_drop
    {ring : Fin n → Option (α × ℕ)} {log : List α} {first : ℕ}
    (hrep : Represents ring log first) (hn : 0 < n) :
    ((List.finRange n).drop (first % n)).filterMap ring =
      (log.zipIdx.drop first).take (cut n log first - first) := by
  have hm : first % n ≤ n := (Nat.mod_lt first hn).le
  have hrange :
      ((List.finRange n).drop (first % n)).filterMap ring =
        (List.range (n - first % n)).filterMap
          (fun k => (log.zipIdx.drop first)[k]?) := by
    rw [finRange_drop hm, List.filterMap_map, ← List.map_coe_finRange_eq_range,
      List.filterMap_map]
    apply List.filterMap_congr
    intro k _
    simp only [Function.comp_apply]
    rw [hrep.slot_from_first (k := k.val) (by omega), List.getElem?_drop]
  rw [hrange, filterMap_getElem?_range]
  have hle := hrep.first_le
  have hcut : cut n log first - first =
      min (n - first % n) (log.zipIdx.drop first).length := by
    unfold cut
    simp
    omega
  rw [hcut, ← List.take_eq_take_min]

/-- Emptying those slots leaves the window which starts at the cut. -/
theorem Represents.clear
    {ring : Fin n → Option (α × ℕ)} {log : List α} {first : ℕ}
    (hrep : Represents ring log first) :
    Represents (fun i => if first % n ≤ i.val then none else ring i)
      log (cut n log first) := by
  have hle := hrep.first_le
  have hsize := hrep.size_le
  refine ⟨by unfold cut; omega, by unfold cut; omega, ?_⟩
  intro i entry
  have hmod : first % n < n := Nat.mod_lt first i.pos
  by_cases hi : first % n ≤ i.val
  · simp only [if_pos hi]
    constructor
    · intro h
      contradiction
    · rintro ⟨hs, hslot, hlog⟩
      have hbound := (List.getElem?_eq_some_iff.mp hlog).1
      have hafter : first + (n - first % n) ≤ entry.2 := by
        unfold cut at hs
        omega
      have hback : entry.2 = first + (i.val - first % n) := by
        have hwrap : (first + (i.val - first % n)) % n = i.val := by
          rw [mod_add_of_lt (by omega)]
          omega
        have := eq_of_mod_eq (n := n) (hwrap.trans hslot.symm) (by omega) (by omega)
        exact this.symm
      omega
  · simp only [if_neg hi]
    rw [hrep.slot_iff]
    constructor
    · rintro ⟨hs, hslot, hlog⟩
      refine ⟨?_, hslot, hlog⟩
      by_contra hbefore
      have hk : entry.2 - first < n - first % n := by
        unfold cut at hbefore
        have hbound := (List.getElem?_eq_some_iff.mp hlog).1
        omega
      have := mod_add_of_lt hk
      rw [show first + (entry.2 - first) = entry.2 by omega] at this
      omega
    · rintro ⟨hs, hslot, hlog⟩
      have := first_le_cut (n := n) hle
      exact ⟨by omega, hslot, hlog⟩

/-! ## Empty slots -/

theorem Represents.isSome_iff
    {ring : Fin n → Option (α × ℕ)} {log : List α} {first : ℕ}
    (hrep : Represents ring log first) (i : Fin n) :
    (ring i).isSome = true ↔
      ∃ s, first ≤ s ∧ s < log.length ∧ s % n = i.val := by
  rw [Option.isSome_iff_exists]
  constructor
  · rintro ⟨entry, hentry⟩
    obtain ⟨hs, hmod, hlog⟩ := (hrep.slot_iff _ _).mp hentry
    exact ⟨entry.2, hs, (List.getElem?_eq_some_iff.mp hlog).1, hmod⟩
  · rintro ⟨s, hs, hlt, hmod⟩
    exact ⟨(log[s], s), (hrep.slot_iff _ _).mpr
      ⟨hs, hmod, List.getElem?_eq_getElem hlt⟩⟩

/-- The slot after the window is empty as long as not all slots are full. -/
theorem Represents.next_none
    {ring : Fin n → Option (α × ℕ)} {log : List α} {first : ℕ}
    (hrep : Represents ring log first) (hroom : log.length < first + n)
    {i : Fin n} (hi : log.length % n = i.val) :
    ring i = none := by
  rw [← Option.not_isSome_iff_eq_none, hrep.isSome_iff]
  rintro ⟨s, hs, hlt, hmod⟩
  have heq := eq_of_mod_eq (n := n) (hmod.trans hi.symm) (by omega)
    (by omega)
  omega

theorem Represents.card_full
    {ring : Fin n → Option (α × ℕ)} {log : List α} {first : ℕ}
    (hrep : Represents ring log first) :
    (Finset.univ.filter fun i => (ring i).isSome = true).card =
      log.length - first := by
  have hle := hrep.first_le
  have hsize := hrep.size_le
  rw [← Nat.card_Ico, eq_comm]
  refine Finset.card_bij
    (fun s hs => ⟨s % n, Nat.mod_lt s (by
      rw [Finset.mem_Ico] at hs
      omega)⟩) ?_ ?_ ?_
  · intro s hs
    rw [Finset.mem_Ico] at hs
    rw [Finset.mem_filter, hrep.isSome_iff]
    exact ⟨Finset.mem_univ _, s, hs.1, hs.2, rfl⟩
  · intro s hs t ht heq
    rw [Finset.mem_Ico] at hs ht
    have hmod : s % n = t % n := Fin.mk.inj heq
    rcases Nat.le_total s t with hst | hts
    · exact eq_of_mod_eq hmod hst (by omega)
    · exact (eq_of_mod_eq hmod.symm hts (by omega)).symm
  · intro i hi
    rw [Finset.mem_filter, hrep.isSome_iff] at hi
    obtain ⟨-, s, hs, hlt, hmod⟩ := hi
    exact ⟨s, Finset.mem_Ico.mpr ⟨hs, hlt⟩, Fin.ext hmod⟩

/-- The number of empty slots. -/
theorem Represents.countP_none
    {ring : Fin n → Option (α × ℕ)} {log : List α} {first : ℕ}
    (hrep : Represents ring log first) :
    (List.finRange n).countP (fun i => (ring i).isNone) +
      (log.length - first) = n := by
  have hfull : (List.finRange n).countP (fun i => (ring i).isSome) =
      log.length - first := by
    rw [← hrep.card_full, List.countP_eq_length_filter,
      ← List.toFinset_card_of_nodup ((List.nodup_finRange n).filter _)]
    congr 1
    ext i
    simp
  have hsplit := List.length_eq_countP_add_countP
    (fun i => (ring i).isNone) (l := List.finRange n)
  rw [List.length_finRange] at hsplit
  have hsame : (List.finRange n).countP
      (fun i => decide ¬(ring i).isNone = true) =
      (List.finRange n).countP (fun i => (ring i).isSome) := by
    apply List.countP_congr
    intro i _
    cases ring i <;> simp
  omega

/-- A window which ends where it starts has only empty slots. -/
theorem Represents.slot_none_of_full_range
    {ring : Fin n → Option (α × ℕ)} {log : List α}
    (hrep : Represents ring log log.length) (i : Fin n) :
    ring i = none := by
  rw [Option.eq_none_iff_forall_not_mem]
  intro entry hentry
  obtain ⟨hs, -, hlog⟩ := (hrep.slot_iff _ _).mp hentry
  have hbound := (List.getElem?_eq_some_iff.mp hlog).1
  omega

end RingWindow

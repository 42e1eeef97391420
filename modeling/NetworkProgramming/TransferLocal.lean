import Mathlib.Data.List.Basic
import Mathlib.Data.BitVec

/-!
# Local addresses

`check_addr_local` of `hw2/common.c` looks for the interface whose subnet
contains an address and has the longest mask.  Addresses and masks are text
in the source; here they are the four numbers which `Inet_pton` reads from
it, the word of which has the first number in its lowest byte.

The answer 0 stands for no interface as well as for the first one.  While
`local` is 0 the next interface which contains the address replaces it, also
when its mask is shorter.
-/

namespace NetworkProgramming.Transfer

structure DottedQuad where
  a : UInt8
  b : UInt8
  c : UInt8
  d : UInt8
  deriving DecidableEq

/-- The `s_addr` of an address on a little-endian machine. -/
def DottedQuad.sAddr (quad : DottedQuad) : BitVec 32 :=
  quad.d.toBitVec ++ quad.c.toBitVec ++ quad.b.toBitVec ++ quad.a.toBitVec

def DottedQuad.localhost : DottedQuad :=
  ⟨127, 0, 0, 1⟩

structure IAddr where
  ipAddr : DottedQuad
  mask : DottedQuad
  deriving DecidableEq

/-- The address lies in the subnet of the interface. -/
def IAddr.contains (entry : IAddr) (address : DottedQuad) : Bool :=
  (address.sAddr &&& entry.mask.sAddr) ==
    (entry.ipAddr.sAddr &&& entry.mask.sAddr)

/-- `local` and `maxMask`. -/
structure Candidate where
  localIndex : ℕ
  maxMask : BitVec 32

/-- The body of the loop. -/
def Candidate.visit (address : DottedQuad) (i : ℕ) (entry : IAddr)
    (candidate : Candidate) : Candidate :=
  if entry.contains address then
    let first := if candidate.localIndex = 0 then i else candidate.localIndex
    if candidate.maxMask < entry.mask.sAddr then ⟨i, entry.mask.sAddr⟩
    else ⟨first, candidate.maxMask⟩
  else candidate

def Candidate.scan (address : DottedQuad) :
    ℕ → List IAddr → Candidate → Candidate
  | _, [], candidate => candidate
  | i, entry :: rest, candidate =>
      scan address (i + 1) rest (candidate.visit address i entry)

def checkAddrLocal (address : DottedQuad) (addr : List IAddr) : ℕ :=
  if address = .localhost then 1
  else (Candidate.scan address 0 addr ⟨0, 0⟩).localIndex

/-! ## Masks -/

def leadingOnes (count : ℕ) : UInt8 :=
  UInt8.ofNat (256 - 2 ^ (8 - count))

def netmask (length : ℕ) : DottedQuad :=
  ⟨leadingOnes length, leadingOnes (length - 8), leadingOnes (length - 16),
    leadingOnes (length - 24)⟩

theorem netmask_sAddr_lt_iff
    {length other : ℕ} (hlength : length ≤ 32) (hother : other ≤ 32) :
    (netmask length).sAddr < (netmask other).sAddr ↔ length < other := by
  have hall : ∀ p q : Fin 33,
      (netmask p).sAddr < (netmask q).sAddr ↔ p < q := by
    decide +kernel
  have hpair := hall ⟨length, by omega⟩ ⟨other, by omega⟩
  simpa using hpair

def DottedQuad.ones (quad : DottedQuad) : ℕ :=
  (List.range 32).countP fun i => quad.sAddr.getLsbD i

def DottedQuad.Contiguous (quad : DottedQuad) : Prop :=
  ∃ length ≤ 32, quad = netmask length

theorem netmask_ones {length : ℕ} (hlength : length ≤ 32) :
    (netmask length).ones = length := by
  have hall : ∀ p : Fin 33, (netmask p).ones = p := by
    decide +kernel
  exact hall ⟨length, by omega⟩

/-- Words of masks are ordered as their prefix lengths, although the order
of the bytes is reversed. -/
theorem DottedQuad.Contiguous.sAddr_lt_iff
    {mask other : DottedQuad} (hmask : mask.Contiguous)
    (hother : other.Contiguous) :
    mask.sAddr < other.sAddr ↔ mask.ones < other.ones := by
  obtain ⟨length, hlength, rfl⟩ := hmask
  obtain ⟨length', hlength', rfl⟩ := hother
  rw [netmask_sAddr_lt_iff hlength hlength', netmask_ones hlength,
    netmask_ones hlength']

/-! ## The loop -/

def MaskBound (address : DottedQuad) (addr : List IAddr)
    (mask : BitVec 32) : Prop :=
  ∀ entry ∈ addr, entry.contains address = true → entry.mask.sAddr ≤ mask

section Scan

variable {address : DottedQuad} {i found : ℕ} {mask : BitVec 32}
variable {entry : IAddr} {rest : List IAddr}

theorem Candidate.visit_longer
    (hcontains : entry.contains address = true)
    (hlonger : mask < entry.mask.sAddr) :
    Candidate.visit address i entry ⟨found, mask⟩ =
      ⟨i, entry.mask.sAddr⟩ := by
  simp only [Candidate.visit, if_pos hcontains, if_pos hlonger]

/-- Without a longer mask only an index 0 is replaced. -/
theorem Candidate.visit_not_longer
    (hshorter : entry.contains address = true → entry.mask.sAddr ≤ mask) :
    Candidate.visit address i entry ⟨found, mask⟩ =
      ⟨if entry.contains address = true ∧ found = 0 then i else found,
        mask⟩ := by
  by_cases hcontains : entry.contains address = true
  · have hnot : ¬ mask < entry.mask.sAddr :=
      BitVec.not_lt.mpr (hshorter hcontains)
    simp only [Candidate.visit, if_neg hnot, hcontains, true_and,
      if_true]
  · simp [Candidate.visit, hcontains]

theorem Candidate.scan_settled
    (hfound : found ≠ 0) (hbound : MaskBound address rest mask) :
    Candidate.scan address i rest ⟨found, mask⟩ = ⟨found, mask⟩ := by
  induction rest generalizing i with
  | nil => rfl
  | cons entry rest ih =>
      obtain ⟨hentry, hrest⟩ := List.forall_mem_cons.mp hbound
      rw [Candidate.scan, Candidate.visit_not_longer hentry,
        if_neg fun hzero => hfound hzero.2]
      exact ih hrest

/-- Without a longer mask the index 0 gives way to the first interface which
contains the address. -/
theorem Candidate.scan_unsettled
    (hi : i ≠ 0) (hbound : MaskBound address rest mask) :
    rest.find? (fun entry => entry.contains address) = none ∧
        (Candidate.scan address i rest ⟨0, mask⟩).localIndex = 0 ∨
      ∃ k second,
        rest.find? (fun entry => entry.contains address) = some second ∧
        rest[k]? = some second ∧
        (Candidate.scan address i rest ⟨0, mask⟩).localIndex = i + k := by
  induction rest generalizing i with
  | nil => exact .inl ⟨rfl, rfl⟩
  | cons entry rest ih =>
      obtain ⟨hentry, hrest⟩ := List.forall_mem_cons.mp hbound
      rw [Candidate.scan, Candidate.visit_not_longer hentry,
        List.find?_cons]
      cases hcontains : entry.contains address with
      | true =>
          right
          refine ⟨0, entry, rfl, rfl, ?_⟩
          rw [if_pos ⟨rfl, rfl⟩, Candidate.scan_settled hi hrest]
          rfl
      | false =>
          rw [if_neg fun hboth => Bool.false_ne_true hboth.1]
          rcases ih (i := i + 1) (Nat.succ_ne_zero i) hrest with
            hnone | ⟨k, second, hfind, hget, hindex⟩
          · exact .inl hnone
          · exact .inr ⟨k + 1, second, hfind, hget, by omega⟩

theorem Candidate.scan_longer
    (found : ℕ) (hi : i ≠ 0) (hlonger : ¬ MaskBound address rest mask) :
    ∃ k best, rest[k]? = some best ∧ best.contains address = true ∧
      (Candidate.scan address i rest ⟨found, mask⟩).localIndex = i + k ∧
      mask < best.mask.sAddr ∧
      MaskBound address rest best.mask.sAddr := by
  induction rest generalizing i found mask with
  | nil => exact absurd (fun entry hmem => by cases hmem) hlonger
  | cons entry rest ih =>
      rw [Candidate.scan]
      by_cases hwins : entry.contains address = true ∧
          mask < entry.mask.sAddr
      · obtain ⟨hcontains, hmask⟩ := hwins
        rw [Candidate.visit_longer hcontains hmask]
        by_cases hlater : MaskBound address rest entry.mask.sAddr
        · refine ⟨0, entry, rfl, hcontains, ?_, hmask, ?_⟩
          · rw [Candidate.scan_settled hi hlater]
            rfl
          · exact List.forall_mem_cons.mpr
              ⟨fun _ => BitVec.le_refl _, hlater⟩
        · obtain ⟨k, best, hget, hbest, hindex, hless, hbound⟩ :=
            ih (i := i + 1) i (Nat.succ_ne_zero i) hlater
          refine ⟨k + 1, best, hget, hbest, ?_,
            BitVec.lt_trans hmask hless, ?_⟩
          · rw [hindex]
            omega
          · exact List.forall_mem_cons.mpr
              ⟨fun _ => BitVec.le_of_lt hless, hbound⟩
      · -- the head changes at most the index of the candidate
        have hentry : entry.contains address = true →
            entry.mask.sAddr ≤ mask := by
          intro hcontains
          apply BitVec.not_lt.mp
          exact fun hmask => hwins ⟨hcontains, hmask⟩
        have hrest : ¬ MaskBound address rest mask := by
          intro hrest
          exact hlonger (List.forall_mem_cons.mpr ⟨hentry, hrest⟩)
        rw [Candidate.visit_not_longer hentry]
        obtain ⟨k, best, hget, hbest, hindex, hless, hbound⟩ :=
          ih (i := i + 1) _ (Nat.succ_ne_zero i) hrest
        refine ⟨k + 1, best, hget, hbest, ?_, hless, ?_⟩
        · rw [hindex]
          omega
        · refine List.forall_mem_cons.mpr ⟨?_, hbound⟩
          intro hcontains
          exact BitVec.le_trans (hentry hcontains) (BitVec.le_of_lt hless)

end Scan

/-! ## The answer -/

structure IAddr.Longest (entry : IAddr) (address : DottedQuad)
    (addr : List IAddr) : Prop where
  contains : entry.contains address = true
  longest : ∀ other ∈ addr, other.contains address = true →
    other.mask.ones ≤ entry.mask.ones

/-- The answer is a longest match, and 0 only if there is no match. -/
structure LongestPrefix (address : DottedQuad) (addr : List IAddr)
    (answer : ℕ) : Prop where
  found : answer ≠ 0 →
    ∃ entry, addr[answer]? = some entry ∧ entry.Longest address addr
  missing : answer = 0 →
    ∀ entry ∈ addr, ¬ entry.contains address = true

/-- Where the answer can be trusted: the first interface does not contain the
address, or another one has a longer mask, or the next one which contains it
has a mask not shorter.  For the own host it is interface 1 whose mask has to
be a longest one. -/
def Distinguished (address : DottedQuad) (addr : List IAddr) : Prop :=
  if address = .localhost then
    ∃ entry, addr[1]? = some entry ∧ entry.Longest address addr
  else
    ∀ first rest, addr = first :: rest → first.contains address = true →
      (∃ other ∈ rest, other.contains address = true ∧
        first.mask.ones < other.mask.ones) ∨
      ∃ second,
        rest.find? (fun entry => entry.contains address) = some second ∧
        first.mask.ones ≤ second.mask.ones

section Answer

variable {address : DottedQuad} {first : IAddr} {addr rest : List IAddr}

theorem longestPrefix_succ_iff {k : ℕ} :
    LongestPrefix address addr (k + 1) ↔
      ∃ entry, addr[k + 1]? = some entry ∧ entry.Longest address addr := by
  constructor
  · intro hprefix'
    exact hprefix'.found (Nat.succ_ne_zero k)
  · intro hlongest
    exact ⟨fun _ => hlongest, fun hzero => absurd hzero (Nat.succ_ne_zero k)⟩

theorem maskBound_iff
    (hcontiguous : ∀ entry ∈ addr, entry.mask.Contiguous)
    {best : IAddr} (hbest : best.mask.Contiguous) :
    MaskBound address addr best.mask.sAddr ↔
      ∀ other ∈ addr, other.contains address = true →
        other.mask.ones ≤ best.mask.ones := by
  refine forall₂_congr fun other hmem => imp_congr_right fun _ => ?_
  rw [← BitVec.not_lt, ← not_lt,
    hbest.sAddr_lt_iff (hcontiguous other hmem)]

def headMask (address : DottedQuad) (first : IAddr) : BitVec 32 :=
  if first.contains address = true then first.mask.sAddr else 0

theorem Candidate.scan_zero_cons :
    Candidate.scan address 0 (first :: rest) ⟨0, 0⟩ =
      Candidate.scan address 1 rest ⟨0, headMask address first⟩ := by
  have hvisit : Candidate.visit address 0 first ⟨0, 0⟩ =
      ⟨0, headMask address first⟩ := by
    by_cases hcontains : first.contains address = true
    · rw [headMask, if_pos hcontains]
      by_cases hmask : (0 : BitVec 32) < first.mask.sAddr
      · exact Candidate.visit_longer hcontains hmask
      · have hzero := BitVec.not_lt.mp hmask
        rw [Candidate.visit_not_longer fun _ => hzero, ite_self,
          BitVec.le_zero_iff.mp hzero]
        rfl
    · rw [headMask, if_neg hcontains]
      simp [Candidate.visit, hcontains]
  rw [Candidate.scan, hvisit]

theorem distinguished_cons (hother : address ≠ .localhost) :
    Distinguished address (first :: rest) ↔
      (first.contains address = true →
        (∃ other ∈ rest, other.contains address = true ∧
          first.mask.ones < other.mask.ones) ∨
        ∃ second,
          rest.find? (fun entry => entry.contains address) = some second ∧
          first.mask.ones ≤ second.mask.ones) := by
  rw [Distinguished, if_neg hother]
  constructor
  · intro hall
    exact hall first rest rfl
  · intro hhead first' rest' hcons
    obtain ⟨rfl, rfl⟩ := List.cons.inj hcons
    exact hhead

theorem longest_of_bounds
    (hcontiguous : ∀ entry ∈ first :: rest, entry.mask.Contiguous)
    {best : IAddr} (hmem : best ∈ rest)
    (hcontains : best.contains address = true)
    (hfirst : first.contains address = true →
      first.mask.sAddr ≤ best.mask.sAddr)
    (hrest : MaskBound address rest best.mask.sAddr) :
    best.Longest address (first :: rest) := by
  have hbest := hcontiguous best (List.mem_cons_of_mem first hmem)
  exact ⟨hcontains, (maskBound_iff hcontiguous hbest).mp
    (List.forall_mem_cons.mpr ⟨hfirst, hrest⟩)⟩

theorem checkAddrLocal_longer
    (hcontiguous : ∀ entry ∈ first :: rest, entry.mask.Contiguous)
    (hother : address ≠ .localhost)
    (hlonger : ¬ MaskBound address rest (headMask address first)) :
    LongestPrefix address (first :: rest)
        (checkAddrLocal address (first :: rest)) ∧
      Distinguished address (first :: rest) := by
  obtain ⟨k, best, hget, hbest, hindex, hless, hbound⟩ :=
    Candidate.scan_longer 0 Nat.one_ne_zero hlonger
  have hmem := List.mem_of_getElem? hget
  have hfirst : first.contains address = true →
      first.mask.sAddr < best.mask.sAddr := by
    intro hcontains
    rwa [headMask, if_pos hcontains] at hless
  constructor
  · rw [checkAddrLocal, if_neg hother, Candidate.scan_zero_cons, hindex,
      Nat.add_comm, longestPrefix_succ_iff]
    exact ⟨best, hget, longest_of_bounds hcontiguous hmem hbest
      (fun hcontains => BitVec.le_of_lt (hfirst hcontains)) hbound⟩
  · rw [distinguished_cons hother]
    intro hcontains
    left
    refine ⟨best, hmem, hbest, ?_⟩
    have hcontFirst := hcontiguous first List.mem_cons_self
    have hcontBest := hcontiguous best (List.mem_cons_of_mem first hmem)
    exact (hcontFirst.sAddr_lt_iff hcontBest).mp (hfirst hcontains)

theorem headMask_le_iff
    (hcontiguous : ∀ entry ∈ first :: rest, entry.mask.Contiguous)
    {other : IAddr} (hmem : other ∈ rest) :
    headMask address first ≤ other.mask.sAddr ↔
      (first.contains address = true →
        first.mask.ones ≤ other.mask.ones) := by
  have hfirst := hcontiguous first List.mem_cons_self
  have hother := hcontiguous other (List.mem_cons_of_mem first hmem)
  rw [headMask]
  split
  next hcontains =>
    rw [← BitVec.not_lt, hother.sAddr_lt_iff hfirst, not_lt]
    exact ⟨fun hle _ => hle, fun hle => hle hcontains⟩
  next hcontains =>
    exact iff_of_true (by bv_omega) fun h => absurd h hcontains

/-- Nothing behind the first interface contains the address. -/
theorem longestPrefix_zero_iff
    (hother : address ≠ .localhost)
    (hnone : rest.find? (fun entry => entry.contains address) = none) :
    LongestPrefix address (first :: rest) 0 ↔
      Distinguished address (first :: rest) := by
  have hrest := List.find?_eq_none.mp hnone
  rw [distinguished_cons hother]
  constructor
  · intro hlongest hcontains
    exact absurd hcontains (hlongest.missing rfl first List.mem_cons_self)
  · intro hdistinguished
    refine ⟨fun hzero => absurd rfl hzero, fun _ => ?_⟩
    refine List.forall_mem_cons.mpr ⟨?_, hrest⟩
    intro hcontains
    rcases hdistinguished hcontains with
      ⟨other, hmem, hmatch, _⟩ | ⟨second, hsome, _⟩
    · exact hrest other hmem hmatch
    · rw [hnone] at hsome
      cases hsome

/-- The next interface which contains the address is a longest match exactly
if it is not shorter than the first. -/
theorem longestPrefix_second_iff
    (hcontiguous : ∀ entry ∈ first :: rest, entry.mask.Contiguous)
    (hother : address ≠ .localhost)
    (hbound : MaskBound address rest (headMask address first))
    {k : ℕ} {second : IAddr} (hget : rest[k]? = some second)
    (hfind : rest.find? (fun entry => entry.contains address) =
      some second) :
    LongestPrefix address (first :: rest) (k + 1) ↔
      Distinguished address (first :: rest) := by
  have hmem := List.mem_of_getElem? hget
  have hsecond := List.find?_some hfind
  rw [longestPrefix_succ_iff, distinguished_cons hother]
  constructor
  · rintro ⟨entry, hentry, hlongest⟩ hcontains
    obtain rfl : second = entry := by
      rw [List.getElem?_cons_succ, hget] at hentry
      exact Option.some.inj hentry
    exact .inr ⟨second, hfind,
      hlongest.longest first List.mem_cons_self hcontains⟩
  · intro hdistinguished
    have hhead : headMask address first ≤ second.mask.sAddr := by
      rw [headMask_le_iff hcontiguous hmem]
      intro hcontains
      rcases hdistinguished hcontains with
        ⟨other, hlater, hmatch, hlonger⟩ | ⟨second', hfind', hle⟩
      · -- the bound leaves no longer mask
        have hfirst := hcontiguous first List.mem_cons_self
        have hcontOther := hcontiguous other
          (List.mem_cons_of_mem first hlater)
        have hle := hbound other hlater hmatch
        rw [headMask, if_pos hcontains, ← BitVec.not_lt,
          hfirst.sAddr_lt_iff hcontOther] at hle
        exact absurd hlonger hle
      · rw [hfind] at hfind'
        cases hfind'
        exact hle
    refine ⟨second, hget, longest_of_bounds hcontiguous hmem hsecond
      ?_ ?_⟩
    · intro hcontains
      rwa [headMask, if_pos hcontains] at hhead
    · intro entry hentry hcontains
      exact BitVec.le_trans (hbound entry hentry hcontains) hhead

theorem checkAddrLocal_not_longer
    (hcontiguous : ∀ entry ∈ first :: rest, entry.mask.Contiguous)
    (hother : address ≠ .localhost)
    (hbound : MaskBound address rest (headMask address first)) :
    LongestPrefix address (first :: rest)
        (checkAddrLocal address (first :: rest)) ↔
      Distinguished address (first :: rest) := by
  rw [checkAddrLocal, if_neg hother, Candidate.scan_zero_cons]
  rcases Candidate.scan_unsettled Nat.one_ne_zero hbound with
    ⟨hnone, hindex⟩ | ⟨k, second, hfind, hget, hindex⟩
  · rw [hindex]
    exact longestPrefix_zero_iff hother hnone
  · rw [hindex, Nat.add_comm]
    exact longestPrefix_second_iff hcontiguous hother hbound hget hfind

end Answer

/-- `check_addr_local` is a longest prefix match exactly for the tables and
addresses which are distinguished. -/
theorem checkAddrLocal_longestPrefix_iff
    {addr : List IAddr}
    (hcontiguous : ∀ entry ∈ addr, entry.mask.Contiguous)
    (address : DottedQuad) :
    LongestPrefix address addr (checkAddrLocal address addr) ↔
      Distinguished address addr := by
  by_cases hlocalhost : address = .localhost
  · rw [checkAddrLocal, if_pos hlocalhost, longestPrefix_succ_iff,
      Distinguished, if_pos hlocalhost]
  · cases addr with
    | nil =>
        rw [checkAddrLocal, if_neg hlocalhost, Distinguished,
          if_neg hlocalhost]
        refine iff_of_true ⟨fun hzero => absurd rfl hzero, ?_⟩ ?_
        · intro _ entry hmem
          cases hmem
        · intro first rest hcons
          cases hcons
    | cons first rest =>
        by_cases hbound :
            MaskBound address rest (headMask address first)
        · exact checkAddrLocal_not_longer hcontiguous hlocalhost hbound
        · obtain ⟨hlongest, hdistinguished⟩ :=
            checkAddrLocal_longer hcontiguous hlocalhost hbound
          exact iff_of_true hlongest hdistinguished

def threeInterfaces : List IAddr :=
  [⟨.localhost, netmask 8⟩, ⟨⟨10, 1, 7, 1⟩, netmask 16⟩,
    ⟨⟨10, 1, 2, 1⟩, netmask 24⟩]

theorem checkAddrLocal_threeInterfaces :
    checkAddrLocal ⟨10, 1, 2, 9⟩ threeInterfaces = 2 ∧
      LongestPrefix ⟨10, 1, 2, 9⟩ threeInterfaces
        (checkAddrLocal ⟨10, 1, 2, 9⟩ threeInterfaces) := by
  have hcontiguous :
      ∀ entry ∈ threeInterfaces, entry.mask.Contiguous := by
    simp only [threeInterfaces, List.forall_mem_cons]
    exact ⟨⟨8, by decide, rfl⟩, ⟨16, by decide, rfl⟩,
      ⟨24, by decide, rfl⟩, fun entry hmem => by cases hmem⟩
  have houtside : ¬ IAddr.contains ⟨.localhost, netmask 8⟩
      ⟨10, 1, 2, 9⟩ = true := by
    decide +kernel
  refine ⟨by decide +kernel, ?_⟩
  rw [checkAddrLocal_longestPrefix_iff hcontiguous, Distinguished,
    if_neg (by decide)]
  intro first rest hcons hcontains
  cases hcons
  exact absurd hcontains houtside

/-- Interface 0 contains the address with a mask of 24 bits and the answer is
interface 1, which has 16; and the loopback interface contains an address for
which the answer is that there is none. -/
theorem checkAddrLocal_not_longestPrefix :
    ¬ LongestPrefix ⟨10, 1, 2, 9⟩
        [⟨⟨10, 1, 2, 1⟩, netmask 24⟩, ⟨⟨10, 1, 7, 1⟩, netmask 16⟩]
        (checkAddrLocal ⟨10, 1, 2, 9⟩
          [⟨⟨10, 1, 2, 1⟩, netmask 24⟩, ⟨⟨10, 1, 7, 1⟩, netmask 16⟩]) ∧
      ¬ LongestPrefix ⟨127, 0, 0, 2⟩ [⟨.localhost, netmask 8⟩]
        (checkAddrLocal ⟨127, 0, 0, 2⟩ [⟨.localhost, netmask 8⟩]) := by
  constructor
  · intro hlongest
    obtain ⟨entry, hentry, hbest⟩ := hlongest.found (by decide +kernel)
    have hanswer : checkAddrLocal ⟨10, 1, 2, 9⟩
        [⟨⟨10, 1, 2, 1⟩, netmask 24⟩, ⟨⟨10, 1, 7, 1⟩, netmask 16⟩] =
          1 := by
      decide +kernel
    rw [hanswer] at hentry
    cases hentry
    have hle := hbest.longest _ List.mem_cons_self (by decide +kernel)
    revert hle
    decide +kernel
  · intro hlongest
    have hnone := hlongest.missing (by decide +kernel)
      ⟨.localhost, netmask 8⟩ List.mem_cons_self
    revert hnone
    decide +kernel

end NetworkProgramming.Transfer

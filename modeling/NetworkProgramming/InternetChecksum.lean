import NetworkProgramming.MemoryImage

/-!
# The internet checksum

The one's complement sum of the 16-bit words of a message, as a machine reads
them which keeps the lowest byte first.  The usual program adds the words to
an accumulator of 32 bits, folds the carries back at the end and returns the
complement; that this is the complement of the one's complement sum is proved
for every message which cannot overflow the accumulator.

A message with its checksum inside is accepted by its receiver when the sum
over all of it is `0xffff`.
-/

namespace InternetChecksum

open MemoryImage

/-- The plain sum of the words; an odd byte at the end counts alone. -/
def wordSum : List UInt8 → ℕ
  | [] => 0
  | [b] => b.toNat
  | b :: c :: rest => b.toNat + 256 * c.toNat + wordSum rest

def endAround (left right : ℕ) : ℕ :=
  (left + right) % 65536 + (left + right) / 65536

def onesSum : List UInt8 → ℕ
  | [] => 0
  | [b] => b.toNat
  | b :: c :: rest => endAround (b.toNat + 256 * c.toNat) (onesSum rest)

/-- The program: an accumulator of 32 bits, two folds and the complement. -/
def inCksum (bytes : List UInt8) : ℕ :=
  let sum := wordSum bytes % 2 ^ 32
  let once := sum / 65536 + sum % 65536
  let twice := once + once / 65536
  65535 - twice % 65536

def Verifies (bytes : List UInt8) : Prop :=
  onesSum bytes = 65535

instance (bytes : List UInt8) : Decidable (Verifies bytes) :=
  inferInstanceAs (Decidable (_ = _))

/-- The number from 1 to 65535 which is congruent to a sum; 0 for 0. -/
def reduced (sum : ℕ) : ℕ :=
  if sum = 0 then 0 else (sum - 1) % 65535 + 1

theorem eq_reduced
    {sum k r : ℕ} (hsum : sum = 65535 * k + r) (hr : r ≤ 65535)
    (hzero : r = 0 → sum = 0) :
    r = reduced sum := by
  unfold reduced
  split <;> omega

theorem endAround_reduced
    {word : ℕ} (hword : word ≤ 65535) (sum : ℕ) :
    endAround word (reduced sum) = reduced (word + sum) := by
  unfold endAround reduced
  split
  next hzero =>
    split <;> omega
  next hpos =>
    rw [if_neg (by omega)]
    omega

theorem halfword_le (b c : UInt8) : b.toNat + 256 * c.toNat ≤ 65535 := by
  have hb := b.toNat_lt
  have hc := c.toNat_lt
  omega

theorem onesSum_eq (bytes : List UInt8) :
    onesSum bytes = reduced (wordSum bytes) := by
  fun_induction onesSum bytes with
  | case1 => rfl
  | case2 b =>
      have hb := b.toNat_lt
      unfold wordSum reduced
      split <;> omega
  | case3 b c rest ih =>
      rw [ih, wordSum, endAround_reduced (halfword_le b c)]

theorem inCksum_eq
    {bytes : List UInt8} (hfits : wordSum bytes < 2 ^ 32) :
    inCksum bytes = 65535 - onesSum bytes := by
  simp only [inCksum, Nat.mod_eq_of_lt hfits]
  rw [onesSum_eq]
  generalize wordSum bytes = sum at hfits ⊢
  -- a word moved from the high half to the low one changes the sum by a
  -- multiple of 65535
  obtain ⟨high, low, hlow, rfl⟩ :
      ∃ high low, low < 65536 ∧ sum = 65536 * high + low :=
    ⟨sum / 65536, sum % 65536, by omega, by omega⟩
  have honce : (65536 * high + low) / 65536 +
      (65536 * high + low) % 65536 = high + low := by
    omega
  rw [honce]
  by_cases hcarry : high + low < 65536
  · have hfold : high + low = reduced (65536 * high + low) :=
      eq_reduced (k := high) (by omega) (by omega) (by omega)
    omega
  · have hfold : high + low - 65535 = reduced (65536 * high + low) :=
      eq_reduced (k := high + 1) (by omega) (by omega) (by omega)
    omega

theorem verifies_iff (bytes : List UInt8) :
    Verifies bytes ↔ wordSum bytes ≠ 0 ∧ 65535 ∣ wordSum bytes := by
  unfold Verifies
  rw [onesSum_eq, reduced]
  split <;> omega

theorem wordSum_append
    {front : List UInt8} (heven : 2 ∣ front.length) (rest : List UInt8) :
    wordSum (front ++ rest) = wordSum front + wordSum rest := by
  fun_induction wordSum front with
  | case1 => simp
  | case2 b => simp at heven
  | case3 b c tail ih =>
      have htail : 2 ∣ tail.length := by
        simp only [List.length_cons] at heven
        omega
      rw [List.cons_append, List.cons_append, wordSum, ih htail]
      omega

theorem wordSum_le (bytes : List UInt8) :
    wordSum bytes ≤ 65535 * bytes.length := by
  fun_induction wordSum bytes with
  | case1 => simp
  | case2 b =>
      have hb := b.toNat_lt
      simp only [List.length_singleton]
      omega
  | case3 b c rest ih =>
      have hword := halfword_le b c
      simp only [List.length_cons]
      omega

theorem wordSum_word {n : ℕ} (hn : n < 2 ^ 16) : wordSum (word 2 n) = n := by
  simp only [word, wordSum, UInt8.toNat_ofNat']
  omega

/-- A message with its checksum written into a zeroed field is accepted. -/
theorem verifies_place
    {front back : List UInt8} (heven : 2 ∣ front.length)
    (hshort : front.length + back.length < 2 ^ 15) :
    Verifies (front ++
      (word 2 (inCksum (front ++ (word 2 0 ++ back))) ++ back)) := by
  have hsum : ∀ n < 2 ^ 16, wordSum (front ++ (word 2 n ++ back)) =
      wordSum front + (n + wordSum back) := by
    intro n hn
    have hfield : 2 ∣ (word 2 n).length := by rw [length_word]
    rw [wordSum_append heven, wordSum_append hfield, wordSum_word hn]
  have hfront := wordSum_le front
  have hback := wordSum_le back
  have hzero := hsum 0 (by norm_num)
  have hfits : wordSum (front ++ (word 2 0 ++ back)) < 2 ^ 32 := by
    omega
  have hcksum := inCksum_eq hfits
  rw [onesSum_eq, hzero] at hcksum
  rw [verifies_iff, hsum _ (by omega), hcksum]
  unfold reduced
  split <;> omega

end InternetChecksum

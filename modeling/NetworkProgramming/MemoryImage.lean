import Mathlib.Data.List.SplitLengths
import Mathlib.Data.Nat.Digits.Defs
import Mathlib.Tactic.NormNum
import Mathlib.Tactic.Positivity

/-!
# The bytes of a record in memory

A number of a fixed width lies in memory as a list of bytes, the lowest byte
first, and a signed one in two's complement.  A packed record is the list of
its fields without gaps.  Numbers which fit their width are read back
unchanged, and so is every field of a record.
-/

namespace MemoryImage

/-- The lowest `width` bytes of a number. -/
def word : ℕ → ℕ → List UInt8
  | 0, _ => []
  | width + 1, n => UInt8.ofNat n :: word width (n / 256)

def ofWord (bytes : List UInt8) : ℕ :=
  Nat.ofDigits 256 (bytes.map UInt8.toNat)

@[simp]
theorem length_word (width n : ℕ) : (word width n).length = width := by
  induction width generalizing n with
  | zero => rfl
  | succ width ih => rw [word, List.length_cons, ih]

theorem ofWord_cons (b : UInt8) (bytes : List UInt8) :
    ofWord (b :: bytes) = b.toNat + 256 * ofWord bytes := by
  rw [ofWord, List.map_cons, Nat.ofDigits_cons]
  rfl

theorem ofWord_word (width n : ℕ) :
    ofWord (word width n) = n % 256 ^ width := by
  induction width generalizing n with
  | zero =>
      rw [pow_zero, Nat.mod_one]
      rfl
  | succ width ih =>
      have hbyte : (UInt8.ofNat n).toNat = n % 256 := UInt8.toNat_ofNat'
      rw [word, ofWord_cons, ih, hbyte, pow_succ', Nat.mod_mul]

theorem ofWord_word_of_lt {width n : ℕ} (hn : n < 256 ^ width) :
    ofWord (word width n) = n := by
  rw [ofWord_word, Nat.mod_eq_of_lt hn]

def signedWord (width : ℕ) (n : ℤ) : List UInt8 :=
  word width (n % (256 ^ width : ℕ)).toNat

def ofSignedWord (bytes : List UInt8) : ℤ :=
  Int.bmod (ofWord bytes) (256 ^ bytes.length)

@[simp]
theorem length_signedWord (width : ℕ) (n : ℤ) :
    (signedWord width n).length = width :=
  length_word width _

theorem ofSignedWord_signedWord (width : ℕ) (n : ℤ) :
    ofSignedWord (signedWord width n) = Int.bmod n (256 ^ width) := by
  have hpos : (0 : ℤ) < (256 ^ width : ℕ) := by positivity
  have hnonneg := Int.emod_nonneg n hpos.ne'
  have hlt : (n % (256 ^ width : ℕ)).toNat < 256 ^ width := by
    have hmod := Int.emod_lt_of_pos n hpos
    omega
  rw [ofSignedWord, length_signedWord, signedWord, ofWord_word_of_lt hlt,
    Int.toNat_of_nonneg hnonneg, Int.emod_bmod]

theorem ofSignedWord_signedWord_of_le
    {width : ℕ} {n : ℤ} (hmin : -((256 ^ width : ℕ) / 2) ≤ n)
    (hmax : n < ((256 ^ width : ℕ) + 1) / 2) :
    ofSignedWord (signedWord width n) = n := by
  rw [ofSignedWord_signedWord, Int.bmod_eq_of_le hmin hmax]

theorem splitLengths_flatten (fields : List (List UInt8)) :
    (fields.map List.length).splitLengths fields.flatten = fields := by
  induction fields with
  | nil => rfl
  | cons field rest ih =>
      rw [List.map_cons, List.splitLengths_cons, List.flatten_cons,
        List.take_left, List.drop_left, ih]

/-- What lies behind the fields is not read. -/
theorem splitLengths_flatten_append
    (fields : List (List UInt8)) (rest : List UInt8) :
    (fields.map List.length).splitLengths (fields.flatten ++ rest) =
      fields := by
  induction fields with
  | nil => rfl
  | cons field fields ih =>
      rw [List.map_cons, List.splitLengths_cons, List.flatten_cons,
        List.append_assoc, List.take_left, List.drop_left, ih]

/-- `memcpy` of the bytes to an offset of a memory. -/
def copyTo (offset : ℕ) (bytes memory : List UInt8) : List UInt8 :=
  memory.take offset ++ bytes ++ memory.drop (offset + bytes.length)

theorem copyTo_append
    {offset : ℕ} {front : List UInt8} (hoffset : front.length = offset)
    (bytes rest : List UInt8) :
    copyTo offset bytes (front ++ rest) =
      (front ++ bytes) ++ rest.drop bytes.length := by
  rw [copyTo, List.take_left' hoffset, List.drop_append,
    List.drop_of_length_le (by omega), List.nil_append, hoffset,
    Nat.add_sub_cancel_left]

/-- The byte at an offset; zero behind the end. -/
def byteAt (memory : List UInt8) (offset : ℕ) : UInt8 :=
  memory.getD offset 0

/-- The 16-bit number at an offset. -/
def halfwordAt (memory : List UInt8) (offset : ℕ) : ℕ :=
  (byteAt memory offset).toNat + 256 * (byteAt memory (offset + 1)).toNat

theorem byteAt_copyTo_zero
    {bytes : List UInt8} {offset : ℕ} (hoffset : offset < bytes.length)
    (memory : List UInt8) :
    byteAt (copyTo 0 bytes memory) offset = byteAt bytes offset := by
  rw [copyTo, List.take_zero, List.nil_append, byteAt, byteAt,
    List.getD_eq_getElem?_getD, List.getD_eq_getElem?_getD,
    List.getElem?_append_left hoffset]

theorem byteAt_take
    {bytes : List UInt8} {offset size : ℕ} (hoffset : offset < size) :
    byteAt (bytes.take size) offset = byteAt bytes offset := by
  rw [byteAt, byteAt, List.getD_eq_getElem?_getD,
    List.getD_eq_getElem?_getD, List.getElem?_take_of_lt hoffset]

theorem ofWord_signedWord (width : ℕ) (n : ℤ) :
    ofWord (signedWord width n) = (n % (256 ^ width : ℕ)).toNat := by
  have hpos : (0 : ℤ) < (256 ^ width : ℕ) := by positivity
  have hlt := Int.emod_lt_of_pos n hpos
  exact ofWord_word_of_lt (by omega)

theorem byteAt_of_drop
    {memory rest : List UInt8} {offset : ℕ} {b : UInt8}
    (hmemory : memory.drop offset = b :: rest) :
    byteAt memory offset = b := by
  have hget : memory[offset]? = some b := by
    rw [← List.head?_drop, hmemory, List.head?_cons]
  rw [byteAt, List.getD_eq_getElem?_getD, hget, Option.getD_some]

/-- A halfword is the number in its two bytes. -/
theorem halfwordAt_of_drop
    {memory field rest : List UInt8} {offset : ℕ}
    (hfield : field.length = 2)
    (hmemory : memory.drop offset = field ++ rest) :
    halfwordAt memory offset = ofWord field := by
  obtain ⟨low, high, rfl⟩ := List.length_eq_two.mp hfield
  have hhigh : memory.drop (offset + 1) = high :: rest := by
    rw [← List.drop_drop, hmemory]
    rfl
  rw [halfwordAt, byteAt_of_drop hmemory, byteAt_of_drop hhigh, ofWord_cons,
    ofWord_cons]
  rfl

end MemoryImage

import Mathlib.Data.List.TakeWhile
import Mathlib.Data.Nat.Digits.Defs
import Mathlib.Data.Nat.Digits.Lemmas
import Mathlib.Tactic.NormNum

/-!
# Strings in memory

A string of C is the part of a memory in front of its first zero byte.  The
copying functions are given the memory at their destination, of which they
leave what lies behind the new terminator.  Numbers are printed and read in
decimal notation as `%d` and `atoi` do it, and a number of 32 bits is read
back unchanged.
-/

namespace CText

/-! ## Copying -/

def literal (constant : String) : List UInt8 :=
  constant.toList.map (fun c => UInt8.ofNat c.toNat) ++ [0]

def text (memory : List UInt8) : List UInt8 :=
  memory.takeWhile fun b => decide (b ≠ 0)

def strcpy (dst src : List UInt8) : List UInt8 :=
  text src ++ 0 :: dst.drop ((text src).length + 1)

def strcat (dst src : List UInt8) : List UInt8 :=
  text dst ++ strcpy (dst.drop (text dst).length) src

/-- The first `n` bytes which `strncpy` writes: the string without its
terminator if it is too long, padded with zeros if it is short. -/
def strncpy (n : ℕ) (src : List UInt8) : List UInt8 :=
  (text src ++ List.replicate n 0).take n

theorem text_nonzero {memory : List UInt8} : ∀ b ∈ text memory, b ≠ 0 := by
  intro b hb
  have hkept := List.mem_takeWhile_imp hb
  exact of_decide_eq_true hkept

theorem text_eq_self
    {string : List UInt8} (hnonzero : ∀ b ∈ string, b ≠ 0) :
    text string = string :=
  List.takeWhile_eq_self_iff.mpr
    fun b hb => decide_eq_true (hnonzero b hb)

theorem text_append_zero
    {string : List UInt8} (hnonzero : ∀ b ∈ string, b ≠ 0)
    (rest : List UInt8) :
    text (string ++ 0 :: rest) = string := by
  have hall : ∀ b ∈ string, decide (b ≠ 0) = true :=
    fun b hb => decide_eq_true (hnonzero b hb)
  rw [text, List.takeWhile_append_of_pos hall,
    List.takeWhile_cons_of_neg (by decide), List.append_nil]

theorem text_strcpy_append (dst src rest : List UInt8) :
    text (strcpy dst src ++ rest) = text src := by
  rw [strcpy, List.append_assoc, List.cons_append]
  exact text_append_zero text_nonzero _

theorem text_strcpy (dst src : List UInt8) :
    text (strcpy dst src) = text src :=
  text_append_zero text_nonzero _

theorem text_strcat (dst src : List UInt8) :
    text (strcat dst src) = text dst ++ text src := by
  have hnonzero : ∀ b ∈ text dst ++ text src, b ≠ 0 := by
    intro b hb
    rcases List.mem_append.mp hb with hleft | hright
    · exact text_nonzero b hleft
    · exact text_nonzero b hright
  rw [strcat, strcpy, ← List.append_assoc]
  exact text_append_zero hnonzero _

theorem length_strcpy
    {dst src : List UInt8} (hfits : (text src).length < dst.length) :
    (strcpy dst src).length = dst.length := by
  rw [strcpy, List.length_append, List.length_cons, List.length_drop]
  omega

theorem length_strncpy (n : ℕ) (src : List UInt8) :
    (strncpy n src).length = n := by
  rw [strncpy, List.length_take, List.length_append, List.length_replicate]
  omega

/-! ## Decimal numbers -/

def digitByte (digit : ℕ) : UInt8 :=
  UInt8.ofNat (48 + digit)

def natDecimal (n : ℕ) : List UInt8 :=
  if n = 0 then [48] else (Nat.digits 10 n).reverse.map digitByte

def decimal (n : ℤ) : List UInt8 :=
  if n < 0 then 45 :: natDecimal n.natAbs else natDecimal n.natAbs

def isSpace (b : UInt8) : Bool :=
  decide (b = 32) || decide (9 ≤ b.toNat ∧ b.toNat ≤ 13)

/-- The number in front of the first byte which is no digit. -/
def readDigits : ℕ → List UInt8 → ℕ
  | acc, [] => acc
  | acc, b :: rest =>
      if 48 ≤ b.toNat ∧ b.toNat ≤ 57 then
        readDigits (10 * acc + (b.toNat - 48)) rest
      else acc

/-- `strtol` in base 10 with a `long` of 64 bits. -/
def strtol (string : List UInt8) : ℤ :=
  let body := string.dropWhile isSpace
  let value : ℤ :=
    if body.head? = some 45 then -(readDigits 0 body.tail : ℤ)
    else if body.head? = some 43 then readDigits 0 body.tail
    else readDigits 0 body
  max (-2 ^ 63) (min value (2 ^ 63 - 1))

/-- `atoi` casts the `long` to an `int`. -/
def atoi (string : List UInt8) : ℤ :=
  (strtol string).bmod (2 ^ 32)

theorem digitByte_toNat {digit : ℕ} (hdigit : digit < 10) :
    (digitByte digit).toNat = 48 + digit := by
  rw [digitByte, UInt8.toNat_ofNat']
  omega

theorem readDigits_map
    {digits : List ℕ} (hdigits : ∀ digit ∈ digits, digit < 10) (acc : ℕ) :
    readDigits acc (digits.map digitByte) =
      digits.foldl (fun value digit => 10 * value + digit) acc := by
  induction digits generalizing acc with
  | nil => rfl
  | cons digit rest ih =>
      obtain ⟨hdigit, hrest⟩ := List.forall_mem_cons.mp hdigits
      rw [List.map_cons, readDigits, digitByte_toNat hdigit,
        if_pos (by omega), ih hrest, List.foldl_cons,
        Nat.add_sub_cancel_left]

theorem digits_reverse_lt (n : ℕ) :
    ∀ digit ∈ (Nat.digits 10 n).reverse, digit < 10 := by
  intro digit hmem
  rw [List.mem_reverse] at hmem
  exact Nat.digits_lt_base (by norm_num) hmem

theorem readDigits_natDecimal (n : ℕ) : readDigits 0 (natDecimal n) = n := by
  rw [natDecimal]
  split
  next hzero =>
    rw [hzero]
    rfl
  next =>
    have hfold := Nat.ofDigits_eq_foldr 10 (Nat.digits 10 n)
    rw [Nat.ofDigits_digits] at hfold
    simp only [Nat.cast_id] at hfold
    rw [readDigits_map (digits_reverse_lt n), List.foldl_reverse]
    simp only [Nat.add_comm]
    exact hfold.symm

theorem natDecimal_ne_nil (n : ℕ) : natDecimal n ≠ [] := by
  rw [natDecimal]
  split
  next => exact List.cons_ne_nil _ _
  next hpos =>
    simp only [ne_eq, List.map_eq_nil_iff, List.reverse_eq_nil_iff]
    exact Nat.digits_ne_nil_iff_ne_zero.mpr hpos

theorem natDecimal_range (n : ℕ) :
    ∀ b ∈ natDecimal n, 48 ≤ b.toNat ∧ b.toNat ≤ 57 := by
  intro b hb
  rw [natDecimal] at hb
  split at hb
  next =>
    rw [List.mem_singleton] at hb
    subst hb
    decide
  next =>
    obtain ⟨digit, hmem, rfl⟩ := List.mem_map.mp hb
    have hdigit := digits_reverse_lt n digit hmem
    rw [digitByte_toNat hdigit]
    omega

theorem decimal_range (n : ℤ) :
    ∀ b ∈ decimal n, b = 45 ∨ 48 ≤ b.toNat ∧ b.toNat ≤ 57 := by
  intro b hb
  rw [decimal] at hb
  split at hb
  next =>
    rcases List.mem_cons.mp hb with hsign | hdigit
    · exact .inl hsign
    · exact .inr (natDecimal_range _ b hdigit)
  next => exact .inr (natDecimal_range _ b hb)

theorem decimal_ne
    {c : UInt8} (hminus : c ≠ 45) (hsmall : c.toNat < 48) (n : ℤ) :
    ∀ b ∈ decimal n, b ≠ c := by
  intro b hb hbc
  rw [hbc] at hb
  rcases decimal_range n c hb with hsign | hdigit
  · exact hminus hsign
  · omega

theorem text_decimal (n : ℤ) : text (decimal n) = decimal n :=
  text_eq_self (decimal_ne (by decide) (by decide) n)

theorem strtol_natDecimal {n : ℕ} (hn : n < 2 ^ 63) :
    strtol (natDecimal n) = n := by
  have hread := readDigits_natDecimal n
  have hrange := natDecimal_range n
  cases hdecimal : natDecimal n with
  | nil => exact absurd hdecimal (natDecimal_ne_nil n)
  | cons b rest =>
      rw [hdecimal] at hread hrange
      have hb := hrange b List.mem_cons_self
      have hother : ∀ c : UInt8, c.toNat < 48 → b ≠ c := by
        intro c hc hbc
        rw [hbc] at hb
        omega
      have hspace : ¬ isSpace b = true := by
        simp only [isSpace, Bool.or_eq_true, decide_eq_true_eq, not_or]
        exact ⟨hother 32 (by decide), by omega⟩
      have hminus : ¬ (b :: rest).head? = some 45 :=
        fun hhead => hother 45 (by decide) (Option.some.inj hhead)
      have hplus : ¬ (b :: rest).head? = some 43 :=
        fun hhead => hother 43 (by decide) (Option.some.inj hhead)
      simp only [strtol, List.dropWhile_cons_of_neg hspace, if_neg hminus,
        if_neg hplus, hread]
      omega

theorem strtol_neg_natDecimal {n : ℕ} (hn : n ≤ 2 ^ 63) :
    strtol (45 :: natDecimal n) = -n := by
  have hspace : (45 :: natDecimal n).dropWhile isSpace =
      45 :: natDecimal n :=
    List.dropWhile_cons_of_neg (by decide)
  simp only [strtol, hspace, List.head?_cons, List.tail_cons, if_pos,
    readDigits_natDecimal]
  omega

theorem atoi_decimal
    {n : ℤ} (hmin : -2 ^ 31 ≤ n) (hmax : n < 2 ^ 31) :
    atoi (decimal n) = n := by
  have hread : strtol (decimal n) = n := by
    rw [decimal]
    split
    next hneg =>
      rw [strtol_neg_natDecimal (by omega)]
      omega
    next hnonneg =>
      rw [strtol_natDecimal (by omega)]
      omega
  rw [atoi, hread]
  exact Int.bmod_eq_of_le (by omega) (by omega)

end CText

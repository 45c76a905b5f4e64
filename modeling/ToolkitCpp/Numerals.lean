import ToolkitCpp.Text
import Mathlib.Data.List.TakeWhile

/-!
# Numbers in texts

What `sscanf`, `std::stoi` and the streams have in common when they read a decimal number: blanks
are skipped, a sign may follow, and then the digits. They differ in what they do with a number that
is too large. And the numbers that `sprintf` fills up with zeros.
-/
namespace ToolkitCpp

/-- `isspace`. -/
def isSpace (c : Char) : Bool := c = ' ' || '\t'.toNat ≤ c.toNat && c.toNat ≤ '\r'.toNat

/-- The value of a sequence of decimal digits. -/
def decimal (digits : Str) : ℕ := Nat.ofDigitChars 10 digits 0

def scanSign : Str → ℤ × Str
  | '-' :: rest => (-1, rest)
  | '+' :: rest => (1, rest)
  | s => (1, s)

/-- The number that the text begins with, and the rest of the text. -/
def scanNumber (s : Str) : Option (ℤ × Str) :=
  let (sign, s) := scanSign (s.dropWhile isSpace)
  let digits := s.takeWhile Char.isDigit
  if digits = [] then none else some (sign * decimal digits, s.dropWhile Char.isDigit)

/-- The conversion `%02d` of `sprintf`. -/
def format02 (n : ℕ) : Str := (toString n).leftpad 2 '0'

def IsNumber (digits : Str) : Prop := digits ≠ [] ∧ ∀ c ∈ digits, c.isDigit = true

lemma IsNumber.ne_of_mem {digits : Str} (hd : IsNumber digits) {c d : Char} (hc : c ∈ digits)
    (h : d.isDigit = false) : c ≠ d := by
  rintro rfl
  rw [hd.2 c hc] at h
  exact Bool.noConfusion h

lemma IsNumber.append {a b : Str} (ha : IsNumber a) (hb : IsNumber b) : IsNumber (a ++ b) := by
  refine ⟨List.append_ne_nil_of_left_ne_nil ha.1 b, ?_⟩
  intro c hc
  rcases List.mem_append.mp hc with hc | hc
  · exact ha.2 c hc
  · exact hb.2 c hc

lemma isDigit_toNat {c : Char} (h : c.isDigit = true) : 48 ≤ c.toNat ∧ c.toNat ≤ 57 := by
  simpa [Char.isDigit, UInt32.le_iff_toNat_le] using h

lemma isSpace_of_isDigit {c : Char} (h : c.isDigit = true) : isSpace c = false := by
  have hc := isDigit_toNat h
  have hne : c ≠ ' ' := by
    rintro rfl
    simp at hc
  simp [isSpace, hne]
  omega

lemma IsNumber.dropWhile_isSpace {digits : Str} (hd : IsNumber digits) (rest : Str) :
    (digits ++ rest).dropWhile isSpace = digits ++ rest := by
  obtain ⟨c, cs, rfl⟩ := List.exists_cons_of_ne_nil hd.1
  have hc := isSpace_of_isDigit (hd.2 c List.mem_cons_self)
  rw [List.cons_append, List.dropWhile_cons_of_neg (by simp [hc])]

lemma scanSign_of_isDigit {c : Char} (h : c.isDigit = true) (s : Str) :
    scanSign (c :: s) = (1, c :: s) := by
  unfold scanSign
  split
  · simp_all
  · simp_all
  · rfl

/-- After the blanks and the sign, the number ends with its last digit. -/
lemma scanNumber_of_sign {s digits rest : Str} {sign : ℤ}
    (hsign : scanSign (s.dropWhile isSpace) = (sign, digits ++ rest)) (hd : IsNumber digits)
    (hrest : rest.takeWhile Char.isDigit = []) :
    scanNumber s = some (sign * decimal digits, rest) := by
  obtain ⟨hne, hall⟩ := hd
  have htake : (digits ++ rest).takeWhile Char.isDigit = digits := by
    rw [List.takeWhile_append_of_pos hall, hrest, List.append_nil]
  have hdrop : (digits ++ rest).dropWhile Char.isDigit = rest := by
    have hsplit := (digits ++ rest).takeWhile_append_dropWhile (p := Char.isDigit)
    rw [htake] at hsplit
    exact List.append_cancel_left hsplit
  simp only [scanNumber, hsign, htake, hdrop, if_neg hne]

lemma scanNumber_number {digits : Str} (hd : IsNumber digits) {rest : Str}
    (hrest : rest.takeWhile Char.isDigit = []) :
    scanNumber (digits ++ rest) = some ((decimal digits : ℤ), rest) := by
  have hsign : scanSign ((digits ++ rest).dropWhile isSpace) = (1, digits ++ rest) := by
    rw [hd.dropWhile_isSpace]
    obtain ⟨c, cs, rfl⟩ := List.exists_cons_of_ne_nil hd.1
    exact scanSign_of_isDigit (hd.2 c List.mem_cons_self) _
  have hscan := scanNumber_of_sign hsign hd hrest
  rwa [Int.one_mul] at hscan

lemma decimal_append (a b : Str) : decimal (a ++ b) = 10 ^ b.length * decimal a + decimal b := by
  rw [decimal, Nat.ofDigitChars_append, Nat.ofDigitChars_eq_ofDigitChars_zero]
  rfl

/-- Zeros in front of a number do not change it. -/
lemma decimal_leftpad (k n : ℕ) : decimal ((toString n).leftpad k '0') = n := by
  rw [List.leftpad, decimal_append, decimal, Nat.ofDigitChars_replicate_zero, Nat.mul_zero,
    Nat.mul_zero, Nat.zero_add]
  exact Nat.ofDigitChars_ten_toDigits

lemma isNumber_leftpad {k : ℕ} (hk : 0 < k) (n : ℕ) : IsNumber ((toString n).leftpad k '0') := by
  constructor
  · intro hnil
    have hlen := congrArg List.length hnil
    rw [List.length_leftpad, List.length_nil] at hlen
    omega
  · intro c hc
    rw [List.leftpad, List.mem_append] at hc
    rcases hc with hc | hc
    · rw [List.eq_of_mem_replicate hc]
      decide
    · exact Nat.isDigit_of_mem_toDigits (by decide) (by decide) hc

/-- A number with at most as many digits is filled up to the width. -/
lemma length_leftpad_of_lt {k n : ℕ} (hk : 0 < k) (h : n < 10 ^ k) :
    ((toString n).leftpad k '0').length = k := by
  have hle : (toString n).length ≤ k := (Nat.length_toDigits_le_iff (by decide) hk).mpr h
  rw [List.length_leftpad]
  omega

lemma decimal_format02 (n : ℕ) : decimal (format02 n) = n := decimal_leftpad 2 n

lemma length_format02 {n : ℕ} (h : n < 60) : (format02 n).length = 2 :=
  length_leftpad_of_lt (by decide) (by omega)

lemma isNumber_format02 (n : ℕ) : IsNumber (format02 n) := isNumber_leftpad (by decide) n

end ToolkitCpp

import Mathlib.Data.List.Lex
import Mathlib.Data.Rat.Floor
import Mathlib.Order.Compare
import Mathlib.Tactic.Common
import ToolkitCpp.Machine
import ToolkitCpp.Text

/-!
# JSON values

The value type of the JSON library the configuration code is written against: its three
number kinds, the order and equality its operators compute, the typed accessors and the
exceptions they raise. A floating-point number is taken as an exact rational.
-/
namespace ToolkitCpp.Json

inductive JSON
  | null
  | boolean (b : Bool)
  | integer (i : Int64)
  | unsigned (n : UInt64)
  | float (q : ℚ)
  | string (s : Str)
  | array (xs : List JSON)
  | object (kvs : List (Str × JSON))

abbrev Members := List (Str × JSON)

/-- What a call can end in besides a value: a `config_error` with its text, an exception of
the JSON library with its number, or a conversion C++ leaves undefined. -/
inductive Exc
  | config (what : Str)
  | json (id : ℕ)
  | undefined
  deriving DecidableEq

namespace JSON

mutual

def beq : JSON → JSON → Bool
  | null, null => true
  | boolean a, boolean b => a == b
  | integer a, integer b => a == b
  | unsigned a, unsigned b => a == b
  | float a, float b => a == b
  | string a, string b => a == b
  | array xs, array ys => beqElems xs ys
  | object xs, object ys => beqMembers xs ys
  | _, _ => false

def beqElems : List JSON → List JSON → Bool
  | [], [] => true
  | x :: xs, y :: ys => beq x y && beqElems xs ys
  | _, _ => false

def beqMembers : Members → Members → Bool
  | [], [] => true
  | (k, x) :: xs, (l, y) :: ys => k == l && beq x y && beqMembers xs ys
  | _, _ => false

end

mutual

theorem beq_iff : ∀ a b : JSON, beq a b = true ↔ a = b
  | null, b => by cases b <;> simp [beq]
  | boolean _, b => by cases b <;> simp [beq]
  | integer _, b => by cases b <;> simp [beq]
  | unsigned _, b => by cases b <;> simp [beq]
  | float _, b => by cases b <;> simp [beq]
  | string _, b => by cases b <;> simp [beq]
  | array xs, b => by
      cases b with
      | array ys => simp [beq, beqElems_iff xs ys]
      | _ => simp [beq]
  | object xs, b => by
      cases b with
      | object ys => simp [beq, beqMembers_iff xs ys]
      | _ => simp [beq]

theorem beqElems_iff : ∀ xs ys : List JSON, beqElems xs ys = true ↔ xs = ys
  | [], ys => by cases ys <;> simp [beqElems]
  | x :: xs, ys => by
      cases ys with
      | nil => simp [beqElems]
      | cons y ys => simp [beqElems, beq_iff x y, beqElems_iff xs ys]

theorem beqMembers_iff : ∀ xs ys : Members, beqMembers xs ys = true ↔ xs = ys
  | [], ys => by cases ys <;> simp [beqMembers]
  | (k, x) :: xs, ys => by
      cases ys with
      | nil => simp [beqMembers]
      | cons y ys =>
        obtain ⟨l, y⟩ := y
        simp [beqMembers, beq_iff x y, beqMembers_iff xs ys]

end

instance : DecidableEq JSON := fun a b => decidable_of_iff _ (beq_iff a b)

def isNumber : JSON → Bool
  | integer _ | unsigned _ | float _ => true
  | _ => false

def isNumberFloat : JSON → Bool
  | float _ => true
  | _ => false

def isString : JSON → Bool
  | string _ => true
  | _ => false

def isBoolean : JSON → Bool
  | boolean _ => true
  | _ => false

def isNull : JSON → Bool
  | null => true
  | _ => false

def isObject : JSON → Bool
  | object _ => true
  | _ => false

def isArray : JSON → Bool
  | array _ => true
  | _ => false

def isPrimitive : JSON → Bool
  | array _ | object _ => false
  | _ => true

def size : JSON → ℕ
  | null => 0
  | array xs => xs.length
  | object kvs => kvs.length
  | _ => 1

def empty (j : JSON) : Bool := j.size == 0

/-- `operator[]` on an object together with `count` or `contains`. -/
def member? : JSON → Str → Option JSON
  | object kvs, k => kvs.lookup k
  | _, _ => none

/-- The number a value denotes. -/
def number? : JSON → Option ℚ
  | integer i => some i.toInt
  | unsigned n => some n.toNat
  | float q => some q
  | _ => none

/-- `static_cast<number_integer_t>` of an unsigned number. -/
def toSigned (n : UInt64) : ℤ := if n.toNat < 2 ^ 63 then n.toNat else n.toNat - 2 ^ 64

/-- The `double` nearest to an integer: of its binary digits the first 53 are kept, and a tie goes
to the even neighbour. -/
def nearestDouble (n : ℕ) : ℕ :=
  let unit := 2 ^ (n.log2 - 52)
  let kept := n / unit
  let cut := n % unit
  (if unit < 2 * cut ∨ unit = 2 * cut ∧ kept % 2 = 1 then kept + 1 else kept) * unit

/-- `static_cast<number_float_t>` of an integer. -/
def toDouble (i : ℤ) : ℤ := i.sign * nearestDouble i.natAbs

/-- The two numbers a comparison operator really compares: beside a signed number an unsigned one
is converted to the signed kind, beside a floating-point number an integer to that kind. -/
def operands : JSON → JSON → Option (ℚ × ℚ)
  | integer a, unsigned b => some (a.toInt, toSigned b)
  | unsigned a, integer b => some (toSigned a, b.toInt)
  | integer a, float b => some (toDouble a.toInt, b)
  | float a, integer b => some (a, toDouble b.toInt)
  | unsigned a, float b => some (toDouble a.toNat, b)
  | float a, unsigned b => some (a, toDouble b.toNat)
  | a, b =>
      match a.number?, b.number? with
      | some x, some y => some (x, y)
      | _, _ => none

/-- The library's order of the kinds; all numbers stand together. -/
def rank : JSON → ℕ
  | null => 0
  | boolean _ => 1
  | integer _ | unsigned _ | float _ => 2
  | object _ => 3
  | array _ => 4
  | string _ => 5

mutual

/-- `lt` when `a < b` holds, `gt` when `b < a` holds, `eq` when `a == b` holds. -/
def cmp : JSON → JSON → Ordering
  | boolean a, boolean b => compare a b
  | string a, string b => compare a b
  | array xs, array ys => cmpElems xs ys
  | object xs, object ys => cmpMembers xs ys
  | a, b =>
      match operands a b with
      | some (x, y) => compare x y
      | none => compare a.rank b.rank

def cmpElems : List JSON → List JSON → Ordering
  | [], [] => .eq
  | [], _ :: _ => .lt
  | _ :: _, [] => .gt
  | x :: xs, y :: ys => (cmp x y).then (cmpElems xs ys)

def cmpMembers : Members → Members → Ordering
  | [], [] => .eq
  | [], _ :: _ => .lt
  | _ :: _, [] => .gt
  | (k, x) :: xs, (l, y) :: ys => ((compare k l).then (cmp x y)).then (cmpMembers xs ys)

end

def lt (a b : JSON) : Bool := cmp a b == .lt

def gt (a b : JSON) : Bool := cmp a b == .gt

def eqv (a b : JSON) : Bool := cmp a b == .eq

mutual

theorem cmp_self : ∀ a : JSON, cmp a a = .eq
  | null => by simp [cmp, operands, number?]
  | boolean _ => by simp [cmp]
  | integer _ => by simp [cmp, operands, number?]
  | unsigned _ => by simp [cmp, operands, number?]
  | float _ => by simp [cmp, operands, number?]
  | string _ => by simp [cmp]
  | array xs => by rw [cmp, cmpElems_self xs]
  | object xs => by rw [cmp, cmpMembers_self xs]

theorem cmpElems_self : ∀ xs : List JSON, cmpElems xs xs = .eq
  | [] => rfl
  | x :: xs => by rw [cmpElems, cmp_self x, cmpElems_self xs]; rfl

theorem cmpMembers_self : ∀ xs : Members, cmpMembers xs xs = .eq
  | [] => rfl
  | (k, x) :: xs => by
      rw [cmpMembers, cmp_self x, cmpMembers_self xs]
      simp

end

theorem eqv_self (a : JSON) : eqv a a = true := by simp [eqv, cmp_self]

theorem eqv_string (s t : Str) : eqv (string s) (string t) = decide (s = t) := by
  simp [eqv, cmp, beq_eq_decide]

theorem cmp_of_operands {a b : JSON} {x y : ℚ} (h : operands a b = some (x, y)) :
    cmp a b = compare x y := by
  cases a <;> cases b <;> simp_all [operands, number?, cmp]

theorem gt_of_operands {a b : JSON} {x y : ℚ} (h : operands a b = some (x, y)) :
    gt a b = decide (y < x) := by
  rw [gt, cmp_of_operands h]
  simp [beq_eq_decide, compare_gt_iff_gt]

theorem lt_of_operands {a b : JSON} {x y : ℚ} (h : operands a b = some (x, y)) :
    lt a b = decide (x < y) := by
  rw [lt, cmp_of_operands h]
  simp [beq_eq_decide, compare_lt_iff_lt]

/-- `get<std::string>()`. -/
def getString : JSON → Except Exc Str
  | string s => .ok s
  | _ => .error (.json 302)

/-- The integer part, cut towards zero. -/
def truncate (q : ℚ) : ℤ := q.num.tdiv q.den

/-- `get<int>()`: integers are reduced to 32 bits, fractions lose their fractional part. -/
def getInt : JSON → Except Exc ℤ
  | integer i => .ok (int32 i.toInt)
  | unsigned n => .ok (int32 n.toNat)
  | float q =>
      if -2 ^ 31 ≤ truncate q ∧ truncate q < 2 ^ 31 then .ok (truncate q)
      else .error .undefined
  | boolean b => .ok (if b then 1 else 0)
  | _ => .error (.json 302)

/-- `get<bool>()`. -/
def getBool : JSON → Except Exc Bool
  | boolean b => .ok b
  | _ => .error (.json 302)

/-- `value(key, default)`, which reads a member with the type of the default. -/
def value {α : Type} (get : JSON → Except Exc α) (j : JSON) (key : Str) (default_value : α) :
    Except Exc α :=
  match j with
  | object m =>
      match m.lookup key with
      | some v => get v
      | none => .ok default_value
  | _ => .error (.json 306)

/-- The value an `int` is stored as. -/
def ofInt (i : ℤ) : JSON := integer (Int64.ofInt i)

/-- The value a `size_t` is stored as. -/
def ofSize (n : ℕ) : JSON := unsigned (UInt64.ofNat n)

/-- The number a comparison with a signed integer sees. -/
def seen : JSON → Option ℚ
  | unsigned n => some (toSigned n)
  | v => v.number?

theorem truncate_of_nonneg {q : ℚ} (h : 0 ≤ q) : truncate q = ⌊q⌋ := by
  rw [truncate, Rat.floor_def']
  exact Int.tdiv_eq_ediv_of_nonneg (Rat.num_nonneg.mpr h)

theorem truncate_of_nonpos {q : ℚ} (h : q ≤ 0) : truncate q = ⌈q⌉ := by
  have hneg := truncate_of_nonneg (neg_nonneg.mpr h)
  rw [truncate, Rat.num_neg_eq_neg_num, Rat.den_neg_eq_den, Int.neg_tdiv, ← truncate, Int.floor_neg] at hneg
  exact neg_injective hneg

theorem truncate_intCast (z : ℤ) : truncate z = z := by
  simp [truncate]

theorem toSigned_of_lt {n : UInt64} (h : n.toNat < 2 ^ 63) : toSigned n = n.toNat :=
  if_pos h

theorem toSigned_of_ge {n : UInt64} (h : 2 ^ 63 ≤ n.toNat) :
    toSigned n = n.toNat - 2 ^ 64 :=
  if_neg (Nat.not_lt.mpr h)

theorem getInt_range {j : JSON} {m : ℤ} (h : getInt j = .ok m) : -2 ^ 31 ≤ m ∧ m < 2 ^ 31 := by
  cases j with
  | integer i =>
    simp only [getInt, Except.ok.injEq] at h
    exact h ▸ int32_range _
  | unsigned n =>
    simp only [getInt, Except.ok.injEq] at h
    exact h ▸ int32_range _
  | float q =>
    simp only [getInt] at h
    split_ifs at h with hr
    rw [Except.ok.injEq] at h
    exact h ▸ hr
  | boolean b =>
    simp only [getInt, Except.ok.injEq] at h
    split_ifs at h <;> omega
  | _ => simp [getInt] at h

theorem toInt_ofInt {m : ℤ} (hlo : -2 ^ 63 ≤ m) (hhi : m < 2 ^ 63) : (Int64.ofInt m).toInt = m := by
  apply Int64.toInt_ofInt_of_le
  · exact hlo
  · exact hhi

theorem nearestDouble_of_lt {n : ℕ} (h : n < 2 ^ 53) : nearestDouble n = n := by
  have hlog : n.log2 - 52 = 0 := by
    by_cases hzero : n = 0
    · rw [hzero]
      rfl
    · have hlt := (Nat.log2_lt hzero).mpr h
      omega
  simp [nearestDouble, hlog, Nat.mod_one]

/-- Integers of at most 53 binary digits stay what they are. -/
theorem toDouble_of_lt {i : ℤ} (h : i.natAbs < 2 ^ 53) : toDouble i = i := by
  rw [toDouble, nearestDouble_of_lt h, Int.sign_mul_natAbs]

theorem operands_ofInt {v : JSON} {x : ℚ} {m : ℤ} (h : v.seen = some x)
    (hm : -2 ^ 31 ≤ m ∧ m < 2 ^ 31) : operands v (ofInt m) = some (x, (m : ℚ)) := by
  have hint : (Int64.ofInt m).toInt = m := toInt_ofInt (by omega) (by omega)
  have hdouble : toDouble m = m := toDouble_of_lt (by omega)
  cases v <;> simp_all [operands, ofInt, seen, number?]

mutual

/-- The members of every object stand in the order of their keys, each key once, and every
container has a size that a signed size type holds. -/
def valid : JSON → Bool
  | array xs => decide (xs.length < 2 ^ 63) && validElems xs
  | object kvs =>
      decide ((kvs.map Prod.fst).Pairwise (· < ·)) && decide (kvs.length < 2 ^ 63) &&
        validMembers kvs
  | _ => true

def validElems : List JSON → Bool
  | [] => true
  | x :: xs => valid x && validElems xs

def validMembers : Members → Bool
  | [] => true
  | (_, x) :: xs => valid x && validMembers xs

end

end JSON

/-- A document the library can hold. -/
def Document := { j : JSON // j.valid = true }

end ToolkitCpp.Json

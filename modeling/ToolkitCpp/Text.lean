import ToolkitCpp.Segments
import Mathlib.Tactic.Ring

/-!
# Texts

Texts are lists of letters. `std::string` and `std::regex` as several parts of the program use
them: searching, taking a part, writing a number, and what a letter of a pattern stands for.
-/
namespace ToolkitCpp
open Segments

abbrev Str := List Char

/-- A text constant of the source. -/
def txt (s : String) : Str := s.toList

@[simp] theorem txt_inj {s t : String} : txt s = txt t ↔ s = t := String.toList_inj

@[simp] theorem txt_beq (s t : String) : (txt s == txt t) = (s == t) := by
  rw [beq_eq_decide, beq_eq_decide, decide_eq_decide]
  exact txt_inj

/-- `std::to_string` of a number that is not negative. -/
def toString (i : ℕ) : Str := Nat.toDigits 10 i

inductive StdException
  | outOfRange
  deriving DecidableEq, Repr

def npos : ℕ := 2 ^ 64 - 1

/-- `std::string::find` for a text, where `none` is `npos`. -/
def findFrom (str pat : Str) (pos : ℕ) : Option ℕ :=
  if pos ≤ str.length then (cutAt pat (str.drop pos)).map fun cut => pos + cut.1.length else none

/-- `std::string::substr`. -/
def substr (str : Str) (pos n : ℕ) : Except StdException Str :=
  if pos ≤ str.length then .ok ((str.drop pos).take n) else .error .outOfRange

/-- The letters that `.` stands for. -/
def isAny (c : Char) : Bool := c != '\n' && c != '\r'

/-- A letter of a pattern that has no other operator. -/
def atom (c : Char) : Char → Bool := if c = '.' then isAny else (· == c)

end ToolkitCpp

import Mathlib.Data.List.Basic
import Mathlib.Tactic.Ring

/-!
# Bytes and machine integers

An operation on `int` is carried out on integers and its result reduced to 32 bits. The same
reduction is the conversion of a wider type to `int` or `int32_t`.
-/
namespace ToolkitCpp

abbrev Bytes := List UInt8

def int32 (i : ℤ) : ℤ := Int.bmod i (2 ^ 32)

lemma int32_eq (i : ℤ) : int32 i = (i + 2 ^ 31) % 2 ^ 32 - 2 ^ 31 := by
  rw [int32, Int.bmod_def]
  omega

lemma int32_range (i : ℤ) : -2 ^ 31 ≤ int32 i ∧ int32 i < 2 ^ 31 := by
  rw [int32_eq]
  omega

lemma int32_of_range {i : ℤ} (h : -2 ^ 31 ≤ i ∧ i < 2 ^ 31) : int32 i = i := by
  rw [int32_eq]
  omega

lemma int32_natCast {n : ℕ} (h : n < 2 ^ 31) : int32 n = n :=
  int32_of_range ⟨by omega, by omega⟩

end ToolkitCpp

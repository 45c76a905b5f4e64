import ToolkitCpp.Text

/-!
# The string helpers

`Strings::startsWith`, `Strings::endsWith`, `Strings::split` and `Strings::stdv_split`, the
last one for regular expressions that are plain text.
-/
namespace ToolkitCpp.Strings
open Segments

def startsWith (str what : Str) : Bool := what.isPrefixOf str

def endsWith (str what : Str) : Bool := what.isSuffixOf str

/-- The loop of `split` on what is left of a text that was not empty. It goes on while
`end < size - 1`, so a delimiter of one letter that ends the text is the last thing it sees.
Each turn but the last takes at least one letter of a text of at most `n`. -/
def splitLoop (delimiter : Str) : ℕ → Str → List Str
  | 0, rest => [rest]
  | n + 1, rest =>
      match cutAt delimiter rest with
      | none => [rest]
      | some (piece, after) =>
          if delimiter.length + after.length > 1 then piece :: splitLoop delimiter n after
          else [piece]

/-- `split` for a delimiter that is not empty. For an empty text `size - 1` is the largest
number: the loop goes on and reads from a position behind the end, which throws. -/
def split (str delimiter : Str) : Except StdException (List Str) :=
  if str = [] then .error .outOfRange else .ok (splitLoop delimiter str.length str)

/-- `std::sregex_token_iterator` for what is not matched; there is no token after a match that
ends the text. -/
def stdvSplitFrom (pat : Str) : ℕ → Str → List Str
  | 0, str => [str]
  | n + 1, str =>
      match cutAt pat str with
      | none => [str]
      | some (token, []) => [token]
      | some (token, rest) => token :: stdvSplitFrom pat n rest

def stdvSplit (str pat : Str) : List Str := stdvSplitFrom pat str.length str

lemma splitLoop_letter {d : Char} {n : ℕ} {str : Str} (hne : str ≠ []) (hn : str.length ≤ n) :
    splitLoop [d] n str = lines d str := by
  induction n generalizing str with
  | zero => exact absurd (List.length_eq_zero_iff.mp (Nat.le_zero.mp hn)) hne
  | succ n ih =>
    by_cases hd : d ∈ str
    · obtain ⟨piece, after, rfl, hp⟩ := List.eq_append_cons_of_mem hd
      rw [splitLoop, cutAt_letter hp, lines_segment hp]
      cases after with
      | nil => simp [lines]
      | cons c cs =>
        have hlen : (c :: cs).length ≤ n := by
          simp only [List.length_append, List.length_cons] at hn ⊢
          omega
        have hrest := ih (List.cons_ne_nil c cs) hlen
        have hmore : [d].length + (c :: cs).length > 1 := by simp
        simp only [if_pos hmore, hrest]
    · rw [splitLoop, cutAt_letter_none hd, lines_last hd hne]

/-- With a delimiter of one letter, `split` gives the pieces that `getline` would. -/
lemma split_letter {str : Str} (hne : str ≠ []) (d : Char) : split str [d] = .ok (lines d str) := by
  rw [split, if_neg hne, splitLoop_letter hne le_rfl]

lemma stdvSplitFrom_letter {d : Char} {n : ℕ} {str : Str} (hne : str ≠ [])
    (hn : str.length ≤ n) : stdvSplitFrom [d] n str = lines d str := by
  induction n generalizing str with
  | zero => exact absurd (List.length_eq_zero_iff.mp (Nat.le_zero.mp hn)) hne
  | succ n ih =>
    by_cases hd : d ∈ str
    · obtain ⟨token, rest, rfl, ht⟩ := List.eq_append_cons_of_mem hd
      rw [stdvSplitFrom, cutAt_letter ht, lines_segment ht]
      cases rest with
      | nil => simp [lines]
      | cons c cs =>
        have hlen : (c :: cs).length ≤ n := by
          simp only [List.length_append, List.length_cons] at hn ⊢
          omega
        simp only [ih (List.cons_ne_nil c cs) hlen]
    · rw [stdvSplitFrom, cutAt_letter_none hd, lines_last hd hne]

/-- For a letter as the expression, `stdv_split` gives the pieces that `getline` would. -/
lemma stdvSplit_letter {str : Str} (hne : str ≠ []) (d : Char) : stdvSplit str [d] = lines d str :=
  stdvSplitFrom_letter hne le_rfl

end ToolkitCpp.Strings

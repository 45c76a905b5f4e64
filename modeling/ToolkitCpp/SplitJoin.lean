import ToolkitCpp.Strings

/-!
# Splitting and joining

Both overloads of `Strings::split` with their positions, and `Strings::join`. The loop goes on
while `end < str.size() - 1`, which is right for a text that is not empty and a delimiter that is
longer than one letter.
-/
namespace ToolkitCpp.Strings
open Segments

/-- `str.find(c, pos)` for a letter. -/
def findCharFrom (str : Str) (c : Char) (pos : ℕ) : Option ℕ :=
  ((str.drop pos).findIdx? (· == c)).map fun i => pos + i

/-- `str.size() - 1`, a `size_t`. -/
def sizePred (str : Str) : ℕ := if str = [] then npos else str.length - 1

/-- The loop of both overloads, for the search and the size of the delimiter, with at most the
given number of turns; `none` when they do not suffice. -/
def splitTurns (str : Str) (find : ℕ → Option ℕ) (size : ℕ) :
    ℕ → ℕ → Option (Except StdException (List Str))
  | 0, _ => none
  | n + 1, beg =>
      let stop := (find beg).getD str.length
      match substr str beg (stop - beg) with
      | .error e => some (.error e)
      | .ok piece =>
          if stop < sizePred str then
            (splitTurns str find size n (stop + size)).map fun out => out.map (piece :: ·)
          else some (.ok [piece])

def splitString (str delimiter : Str) : Option (Except StdException (List Str)) :=
  splitTurns str (findFrom str delimiter) delimiter.length (str.length + 2) 0

def splitChar (str : Str) (delimiter : Char) : Option (Except StdException (List Str)) :=
  splitTurns str (findCharFrom str delimiter) 1 (str.length + 2) 0

def join (delimiter : Str) : List Str → Str
  | [] => []
  | [s] => s
  | s :: t :: ss => s ++ delimiter ++ join delimiter (t :: ss)

lemma substr_ok {str : Str} {pos : ℕ} (h : pos ≤ str.length) (n : ℕ) :
    substr str pos n = .ok ((str.drop pos).take n) := if_pos h

/-- One turn at a position inside the text. -/
lemma splitTurns_succ {str : Str} {find : ℕ → Option ℕ} {size n beg : ℕ}
    (h : beg ≤ str.length) : splitTurns str find size (n + 1) beg =
      if (find beg).getD str.length < sizePred str then
        (splitTurns str find size n ((find beg).getD str.length + size)).map fun out =>
          out.map ((str.drop beg).take ((find beg).getD str.length - beg) :: ·)
      else some (.ok [(str.drop beg).take ((find beg).getD str.length - beg)]) := by
  simp only [splitTurns, substr_ok h]

/-- Where the delimiter is not found the turn is the last one. -/
lemma splitTurns_last {str d : Str} (hne : str ≠ []) {beg : ℕ} (hbeg : beg ≤ str.length)
    (hcut : cutAt d (str.drop beg) = none) (n : ℕ) :
    splitTurns str (findFrom str d) d.length (n + 1) beg = some (.ok [str.drop beg]) := by
  have hfind : findFrom str d beg = none := by
    rw [findFrom, if_pos hbeg, hcut]
    rfl
  have hstop : ¬ str.length < sizePred str := by
    rw [sizePred, if_neg hne]
    omega
  have hall : (str.drop beg).take (str.length - beg) = str.drop beg := by
    rw [← List.length_drop, List.take_length]
  rw [splitTurns_succ hbeg, hfind, Option.getD_none, if_neg hstop, hall]

lemma splitTurns_eq {str d : Str} (hne : str ≠ []) (hd : d ≠ []) {n turns beg : ℕ}
    (hbeg : beg ≤ str.length) (hn : (str.drop beg).length ≤ n) (hturns : n < turns) :
    splitTurns str (findFrom str d) d.length turns beg =
      some (.ok (splitLoop d n (str.drop beg))) := by
  have hdpos : 0 < d.length := List.length_pos_iff.mpr hd
  induction n generalizing beg turns with
  | zero =>
    have hnil : str.drop beg = [] := List.length_eq_zero_iff.mp (Nat.le_zero.mp hn)
    have hcut : cutAt d (str.drop beg) = none := by rw [hnil, cutAt, if_neg hd]
    obtain ⟨turns, rfl⟩ := Nat.exists_eq_add_of_lt hturns
    rw [splitTurns_last hne hbeg hcut, splitLoop]
  | succ n ih =>
    obtain ⟨turns, rfl⟩ := Nat.exists_eq_add_of_lt hturns
    cases hcut : cutAt d (str.drop beg) with
    | none => rw [splitTurns_last hne hbeg hcut, splitLoop, hcut]
    | some cut =>
      obtain ⟨piece, after⟩ := cut
      obtain ⟨hdrop, -⟩ := cutAt_some hd hcut
      have hlen := congrArg List.length hdrop
      simp only [List.length_drop, List.length_append] at hlen hn
      have hfind : findFrom str d beg = some (beg + piece.length) := by
        rw [findFrom, if_pos hbeg, hcut]
        rfl
      have hpiece : (str.drop beg).take (beg + piece.length - beg) = piece := by
        rw [Nat.add_sub_cancel_left, hdrop, List.take_left]
      have hpred : sizePred str = str.length - 1 := if_neg hne
      rw [splitTurns_succ hbeg, hfind, Option.getD_some, hpiece, splitLoop, hcut]
      by_cases hmore : d.length + after.length > 1
      · have hstop : beg + piece.length < sizePred str := by omega
        have hafter : str.drop (beg + piece.length + d.length) = after := by
          rw [Nat.add_assoc, ← List.drop_drop, hdrop, ← List.append_assoc, ← List.length_append,
            List.drop_left]
        have hbeg' : beg + piece.length + d.length ≤ str.length := by omega
        have hlen' : (str.drop (beg + piece.length + d.length)).length ≤ n := by
          rw [hafter]
          omega
        have hturns' : n < n + 1 + turns := by omega
        have hrest := ih hbeg' hlen' hturns'
        simp only [if_pos hstop, if_pos hmore, hrest, hafter, Option.map_some, Except.map]
      · have hstop : ¬ beg + piece.length < sizePred str := by omega
        simp only [if_neg hstop, if_neg hmore]

lemma splitTurns_behind {str : Str} {find : ℕ → Option ℕ} {size n beg : ℕ}
    (h : str.length < beg) :
    splitTurns str find size (n + 1) beg = some (.error .outOfRange) := by
  have hbehind : ∀ k, substr str beg k = .error .outOfRange := fun k => if_neg (Nat.not_le.mpr h)
  simp only [splitTurns, hbehind]

/-- The empty text is read behind its end in the second turn. -/
lemma splitString_nil {d : Str} (hd : d ≠ []) : splitString [] d = some (.error .outOfRange) := by
  have hfind : findFrom [] d 0 = none := by simp [findFrom, cutAt, hd]
  have hstop : (0 : ℕ) < sizePred [] := by decide
  have hbehind : List.length ([] : Str) < 0 + d.length := by
    rw [Nat.zero_add]
    exact List.length_pos_iff.mpr hd
  rw [splitString, splitTurns_succ (Nat.zero_le _), hfind, Option.getD_none, List.length_nil,
    if_pos hstop, splitTurns_behind hbehind]
  rfl

/-- The positions of the program give the pieces of `split`. -/
theorem splitString_eq_split (str : Str) {d : Str} (hd : d ≠ []) :
    splitString str d = some (split str d) := by
  by_cases hne : str = []
  · rw [hne, splitString_nil hd, split, if_pos rfl]
  · have hlen : (str.drop 0).length ≤ str.length := by simp
    have hturns : str.length < str.length + 2 := by omega
    rw [splitString, splitTurns_eq hne hd (Nat.zero_le _) hlen hturns, split, if_neg hne,
      List.drop_zero]

lemma findIdx?_letter_none {c : Char} {s : Str} (h : c ∉ s) : s.findIdx? (· == c) = none := by
  rw [List.findIdx?_eq_none_iff]
  intro x hx
  have hxc : x ≠ c := fun heq => h (heq ▸ hx)
  simpa using hxc

lemma findCharFrom_eq (str : Str) (c : Char) : findCharFrom str c = findFrom str [c] := by
  funext pos
  by_cases hc : c ∈ str.drop pos
  · have hpos : pos ≤ str.length := by
      by_contra hlt
      rw [List.drop_eq_nil_of_le (by omega)] at hc
      exact absurd hc List.not_mem_nil
    obtain ⟨piece, after, heq, hp⟩ := List.eq_append_cons_of_mem hc
    have hidx : (piece ++ c :: after).findIdx? (· == c) = some piece.length := by
      rw [List.findIdx?_append, findIdx?_letter_none hp]
      simp [List.findIdx?_cons]
    rw [findCharFrom, findFrom, if_pos hpos, heq, cutAt_letter hp, hidx]
    rfl
  · rw [findCharFrom, findFrom, cutAt_letter_none hc, findIdx?_letter_none hc]
    split_ifs <;> rfl

/-- For a delimiter of one letter the two overloads do the same. -/
theorem splitChar_eq (str : Str) (c : Char) : splitChar str c = splitString str [c] := by
  rw [splitChar, splitString, findCharFrom_eq]
  rfl

lemma splitLoop_ne_nil (d : Str) (n : ℕ) (rest : Str) : splitLoop d n rest ≠ [] := by
  cases n with
  | zero => simp [splitLoop]
  | succ n =>
    rw [splitLoop]
    split
    · simp
    · split_ifs <;> simp

lemma join_cons (d piece : Str) {pieces : List Str} (h : pieces ≠ []) :
    join d (piece :: pieces) = piece ++ (d ++ join d pieces) := by
  cases pieces with
  | nil => exact absurd rfl h
  | cons t ts => rw [join, List.append_assoc]

/-- The delimiter at the end that the loop does not see as one. -/
def lostEnd (d rest : Str) : Str := if d.length = 1 ∧ d <:+ rest then d else []

lemma lostEnd_append {d piece after : Str} (h : d.length + after.length > 1) :
    lostEnd d (piece ++ (d ++ after)) = lostEnd d after := by
  unfold lostEnd
  by_cases hone : d.length = 1
  · have hafter : d.length ≤ after.length := by omega
    have hiff : d <:+ piece ++ (d ++ after) ↔ d <:+ after := by
      rw [← List.append_assoc]
      constructor
      · intro h
        exact List.suffix_of_suffix_length_le h (List.suffix_append _ _) hafter
      · intro h
        exact h.trans (List.suffix_append _ _)
    simp only [hiff]
  · simp only [hone, false_and, if_false]

lemma join_splitLoop {d : Str} (hd : d ≠ []) {n : ℕ} {rest : Str} (hn : rest.length ≤ n) :
    join d (splitLoop d n rest) ++ lostEnd d rest = rest := by
  have hdpos : 0 < d.length := List.length_pos_iff.mpr hd
  induction n generalizing rest with
  | zero =>
    have hnil : rest = [] := List.length_eq_zero_iff.mp (Nat.le_zero.mp hn)
    simp [hnil, splitLoop, join, lostEnd, hd]
  | succ n ih =>
    cases hcut : cutAt d rest with
    | none =>
      have hnot : ¬ d <:+ rest := fun h => cutAt_eq_none_iff.mp hcut h.isInfix
      simp [splitLoop, hcut, join, lostEnd, hnot]
    | some cut =>
      obtain ⟨piece, after⟩ := cut
      obtain ⟨rfl, -⟩ := cutAt_some hd hcut
      rw [splitLoop, hcut]
      by_cases hmore : d.length + after.length > 1
      · have hlen : after.length ≤ n := by
          simp only [List.length_append] at hn
          omega
        have hback := ih hlen
        simp only [if_pos hmore]
        rw [join_cons d piece (splitLoop_ne_nil d n after), lostEnd_append hmore,
          List.append_assoc, List.append_assoc, hback]
      · have hafter : after = [] := List.length_eq_zero_iff.mp (by omega)
        have hone : d.length = 1 := by omega
        simp [join, lostEnd, hafter, hone]

lemma not_infix_of_mem_splitLoop {d : Str} (hd : d ≠ []) {n : ℕ} {rest : Str}
    (hn : rest.length ≤ n) : ∀ piece ∈ splitLoop d n rest, ¬ d <:+: piece := by
  have hdpos : 0 < d.length := List.length_pos_iff.mpr hd
  induction n generalizing rest with
  | zero =>
    have hnil : rest = [] := List.length_eq_zero_iff.mp (Nat.le_zero.mp hn)
    simp [hnil, splitLoop, List.infix_nil, hd]
  | succ n ih =>
    rw [splitLoop]
    cases hcut : cutAt d rest with
    | none => simpa using cutAt_eq_none_iff.mp hcut
    | some cut =>
      obtain ⟨piece, after⟩ := cut
      obtain ⟨rfl, hpiece⟩ := cutAt_some hd hcut
      have hlen : after.length ≤ n := by
        simp only [List.length_append] at hn
        omega
      have hrest := ih hlen
      by_cases hmore : d.length + after.length > 1
      · simpa [hmore, hpiece] using hrest
      · simpa [hmore] using hpiece

/-- `split` returns, `join` gives the text back, no piece has the delimiter, and the overload for
a letter returns the same list. -/
def SplitsBack (s d : Str) : Prop :=
  ∃ pieces, splitString s d = some (.ok pieces) ∧ join d pieces = s ∧
    (∀ piece ∈ pieces, ¬ d <:+: piece) ∧ ∀ c, d = [c] → splitChar s c = some (.ok pieces)

lemma lostEnd_eq_nil_iff {d s : Str} (hd : d ≠ []) :
    lostEnd d s = [] ↔ ¬ (d.length = 1 ∧ d <:+ s) := by
  rw [lostEnd]
  split_ifs with h
  · simp [hd, h]
  · simp [h]

theorem splitsBack_iff (s d : Str) (hd : d ≠ []) :
    SplitsBack s d ↔ s ≠ [] ∧ ¬ (d.length = 1 ∧ d <:+ s) := by
  have hback := join_splitLoop hd (le_refl s.length)
  rw [← lostEnd_eq_nil_iff hd]
  constructor
  · rintro ⟨pieces, hsplit, hjoin, -, -⟩
    rw [splitString_eq_split s hd, split] at hsplit
    by_cases hne : s = []
    · rw [if_pos hne] at hsplit
      cases hsplit
    · rw [if_neg hne] at hsplit
      have hpieces := Except.ok.inj (Option.some.inj hsplit)
      rw [hpieces, hjoin] at hback
      exact ⟨hne, List.append_right_eq_self.mp hback⟩
  · rintro ⟨hne, hlost⟩
    rw [hlost, List.append_nil] at hback
    have hsplit : splitString s d = some (.ok (splitLoop d s.length s)) := by
      rw [splitString_eq_split s hd, split, if_neg hne]
    refine ⟨_, hsplit, hback, not_infix_of_mem_splitLoop hd le_rfl, ?_⟩
    rintro c rfl
    rw [splitChar_eq, hsplit]

theorem splitsBack_iff_comma : [','] ≠ [] ∧ SplitsBack (txt "a,b") [','] :=
  ⟨by decide, (splitsBack_iff (txt "a,b") [','] (by decide)).mpr (by decide)⟩

/-- The text `"a,"` comes back as `"a"`. -/
theorem split_loses_end : ¬ ∀ s d : Str, d ≠ [] → SplitsBack s d := by
  intro h
  obtain ⟨pieces, hsplit, hjoin, -, -⟩ := h (txt "a,") [','] (by decide)
  have hrun : splitString (txt "a,") [','] = some (.ok [txt "a"]) := by decide
  rw [hrun] at hsplit
  obtain rfl := Except.ok.inj (Option.some.inj hsplit)
  exact absurd hjoin (by decide)

end ToolkitCpp.Strings

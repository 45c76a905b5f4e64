import Mathlib.Data.List.Infix
import Mathlib.Tactic.Common

/-!
# Delimited text

Splitting a word at a delimiter the way `std::getline` does, writing a list of segments
with a delimiter after each, and deleting the occurrences of a pattern. The alphabet is
arbitrary.
-/
namespace ToolkitCpp.Segments

variable {α : Type*}

/-- Each segment followed by the delimiter. -/
def dirs (d : α) (segs : List (List α)) : List α := segs.flatMap (· ++ [d])

@[simp] theorem dirs_nil (d : α) : dirs d [] = [] := rfl

@[simp] theorem dirs_cons (d : α) (s : List α) (ss : List (List α)) :
    dirs d (s :: ss) = s ++ d :: dirs d ss := by simp [dirs]

@[simp] theorem dirs_append (d : α) (ss ts : List (List α)) :
    dirs d (ss ++ ts) = dirs d ss ++ dirs d ts := by simp [dirs]

variable [DecidableEq α]

/-- The pieces `getline` returns: a piece ends at a delimiter or at the end of the word, and
nothing follows a delimiter that ends the word. -/
def lines (d : α) : List α → List (List α)
  | [] => []
  | x :: xs =>
      if x = d then [] :: lines d xs
      else match lines d xs with
        | [] => [[x]]
        | s :: ss => (x :: s) :: ss

theorem lines_segment {d : α} {s : List α} (hs : d ∉ s) (xs : List α) :
    lines d (s ++ d :: xs) = s :: lines d xs := by
  induction s with
  | nil => simp [lines]
  | cons x s ih =>
    simp only [List.mem_cons, not_or] at hs
    simp [lines, Ne.symm hs.1, ih hs.2]

theorem lines_last {d : α} {s : List α} (hs : d ∉ s) (hne : s ≠ []) : lines d s = [s] := by
  induction s with
  | nil => exact absurd rfl hne
  | cons x s ih =>
    simp only [List.mem_cons, not_or] at hs
    cases s with
    | nil => simp [lines, Ne.symm hs.1]
    | cons y s =>
      have htail := ih hs.2 (by simp)
      rw [lines, if_neg (Ne.symm hs.1), htail]

/-- A word that does not end in the delimiter ends in a piece that is not empty. -/
theorem lines_concat {d x : α} (hx : x ≠ d) (s : List α) :
    ∃ pre t, t ≠ [] ∧ lines d (s ++ [x]) = pre ++ [t] := by
  induction s with
  | nil => exact ⟨[], [x], by simp, by simp [lines, hx]⟩
  | cons y s ih =>
    obtain ⟨pre, t, ht, hlines⟩ := ih
    rw [List.cons_append, lines, hlines]
    split_ifs
    · exact ⟨[] :: pre, t, ht, rfl⟩
    · cases pre with
      | nil => exact ⟨[], y :: t, by simp, rfl⟩
      | cons p pre => exact ⟨(y :: p) :: pre, t, ht, rfl⟩

/-- The last piece is what stands behind the last delimiter. -/
theorem lines_append_last {d : α} {s : List α} (hs : d ∉ s) (hne : s ≠ []) (xs : List α) :
    ∃ p pre, lines d (xs ++ d :: s) = p :: (pre ++ [s]) := by
  induction xs with
  | nil => exact ⟨[], [], by simp [lines, lines_last hs hne]⟩
  | cons x xs ih =>
    obtain ⟨p, pre, hlines⟩ := ih
    rw [List.cons_append, lines, hlines]
    split_ifs
    · exact ⟨[], p :: pre, rfl⟩
    · exact ⟨x :: p, pre, rfl⟩

theorem lines_replicate (d : α) (n : ℕ) : lines d (List.replicate n d) = List.replicate n [] := by
  induction n with
  | zero => rfl
  | succ n ih => rw [List.replicate_succ, lines, if_pos rfl, ih, List.replicate_succ]

/-- Of the delimiters after such a word the first one ends its last piece. -/
theorem lines_concat_replicate {d x : α} (hx : x ≠ d) (s : List α) (n : ℕ) :
    lines d (s ++ x :: List.replicate n d) = lines d (s ++ [x]) ++ List.replicate (n - 1) [] := by
  induction s with
  | nil =>
    cases n with
    | zero => simp
    | succ n =>
      rw [List.nil_append, List.nil_append, lines, if_neg hx, lines_replicate, List.replicate_succ]
      simp [lines, hx]
  | cons y s ih =>
    obtain ⟨pre, t, -, hlines⟩ := lines_concat hx s
    rw [List.cons_append, List.cons_append, lines, lines, ih, hlines]
    split_ifs
    · rfl
    · cases pre with
      | nil => rfl
      | cons p pre => rfl

theorem lines_dirs_append {d : α} {segs : List (List α)} (hs : ∀ s ∈ segs, d ∉ s)
    (xs : List α) : lines d (dirs d segs ++ xs) = segs ++ lines d xs := by
  induction segs with
  | nil => rfl
  | cons s ss ih =>
    have hhead := hs s (by simp)
    have htail := ih fun t ht => hs t (by simp [ht])
    simp [lines_segment hhead, htail]

theorem lines_dirs {d : α} {segs : List (List α)} (hs : ∀ s ∈ segs, d ∉ s) :
    lines d (dirs d segs) = segs := by
  have h := lines_dirs_append hs []
  simpa [lines] using h

/-- Every letter of a piece is one of the word. -/
theorem mem_of_mem_lines {d x : α} {xs s : List α} (h : s ∈ lines d xs) (hx : x ∈ s) :
    x ∈ xs := by
  induction xs generalizing s with
  | nil => simp [lines] at h
  | cons y ys ih =>
    simp only [lines] at h
    split_ifs at h with hy
    · rcases List.mem_cons.mp h with rfl | h
      · simp at hx
      · exact List.mem_cons_of_mem _ (ih h hx)
    · cases hl : lines d ys with
      | nil =>
        simp only [hl, List.mem_singleton] at h
        rw [h, List.mem_singleton] at hx
        simp [hx]
      | cons t ts =>
        simp only [hl, List.mem_cons] at h
        rcases h with rfl | h
        · rcases List.mem_cons.mp hx with rfl | hx
          · exact List.mem_cons_self
          · exact List.mem_cons_of_mem _ (ih (s := t) (by simp [hl]) hx)
        · exact List.mem_cons_of_mem _ (ih (by simp [hl, h]) hx)

/-- Every letter of the word but the delimiter is in a piece. -/
theorem exists_mem_lines {d x : α} {xs : List α} (hx : x ∈ xs) (hd : x ≠ d) :
    ∃ s ∈ lines d xs, x ∈ s := by
  induction xs with
  | nil => simp at hx
  | cons y ys ih =>
    by_cases hy : y = d
    · have hys : x ∈ ys := by
        rcases List.mem_cons.mp hx with rfl | hx
        · exact absurd hy hd
        · exact hx
      obtain ⟨s, hs, hxs⟩ := ih hys
      exact ⟨s, by simp [lines, hy, hs], hxs⟩
    · cases hl : lines d ys with
      | nil =>
        have hys : x ∉ ys := by
          intro hys
          obtain ⟨s, hs, _⟩ := ih hys
          simp [hl] at hs
        have hxy : x = y := by simpa [hys] using hx
        exact ⟨[y], by simp [lines, hy, hl], by simp [hxy]⟩
      | cons t ts =>
        simp only [lines, if_neg hy, hl]
        rcases List.mem_cons.mp hx with rfl | hx
        · exact ⟨x :: t, by simp, by simp⟩
        · obtain ⟨s, hs, hxs⟩ := ih hx
          rw [hl] at hs
          rcases List.mem_cons.mp hs with rfl | hs
          · exact ⟨y :: s, by simp, by simp [hxs]⟩
          · exact ⟨s, by simp [hs], hxs⟩

/-- A piece that is not the last one ends at a delimiter. -/
theorem lines_cons_cons {d : α} {xs s t : List α} {ss : List (List α)}
    (h : lines d xs = s :: t :: ss) : ∃ ys, xs = s ++ d :: ys ∧ d ∉ s := by
  induction xs generalizing s t ss with
  | nil => simp [lines] at h
  | cons y ys ih =>
    by_cases hy : y = d
    · rw [lines, if_pos hy] at h
      obtain ⟨rfl, _⟩ := List.cons.inj h
      exact ⟨ys, by simp [hy], by simp⟩
    · rw [lines, if_neg hy] at h
      cases hl : lines d ys with
      | nil => simp [hl] at h
      | cons s' ss' =>
        rw [hl] at h
        obtain ⟨rfl, hss⟩ := List.cons.inj h
        rw [hss] at hl
        obtain ⟨zs, hzs, hnot⟩ := ih hl
        exact ⟨zs, by simp [hzs], by simp [hnot, Ne.symm hy]⟩

/-- What stands before and after the first occurrence of a pattern. -/
def cutAt (pat : List α) : List α → Option (List α × List α)
  | [] => if pat = [] then some ([], []) else none
  | x :: xs =>
      if pat.isPrefixOf (x :: xs) then some ([], (x :: xs).drop pat.length)
      else (cutAt pat xs).map fun cut => (x :: cut.1, cut.2)

theorem cutAt_letter {d : α} {s : List α} (hs : d ∉ s) (xs : List α) :
    cutAt [d] (s ++ d :: xs) = some (s, xs) := by
  induction s with
  | nil => simp [cutAt]
  | cons y s ih =>
    simp only [List.mem_cons, not_or] at hs
    simp [cutAt, hs.1, ih hs.2]

theorem cutAt_letter_none {d : α} {s : List α} (hs : d ∉ s) : cutAt [d] s = none := by
  induction s with
  | nil => simp [cutAt]
  | cons y s ih =>
    simp only [List.mem_cons, not_or] at hs
    simp [cutAt, hs.1, ih hs.2]

/-- A cut gives the word back, and there is no occurrence in front of it. -/
theorem cutAt_some {pat xs piece after : List α} (hne : pat ≠ [])
    (h : cutAt pat xs = some (piece, after)) : xs = piece ++ (pat ++ after) ∧ ¬ pat <:+: piece := by
  induction xs generalizing piece with
  | nil =>
    rw [cutAt, if_neg hne] at h
    exact absurd h.symm (Option.some_ne_none _)
  | cons x xs ih =>
    rw [cutAt] at h
    split_ifs at h with hpre
    · obtain ⟨rfl, rfl⟩ := Prod.mk.inj (Option.some.inj h)
      have hback := List.prefix_iff_eq_append.mp (List.isPrefixOf_iff_prefix.mp hpre)
      refine ⟨hback.symm, ?_⟩
      rw [List.infix_nil]
      exact hne
    · obtain ⟨⟨piece', after'⟩, hcut, heq⟩ := Option.map_eq_some_iff.mp h
      obtain ⟨rfl, rfl⟩ := Prod.mk.inj heq
      obtain ⟨hxs, hnot⟩ := ih hcut
      refine ⟨by rw [List.cons_append, ← hxs], ?_⟩
      intro hin
      rcases List.infix_cons_iff.mp hin with hstart | hrest
      · apply hpre
        rw [List.isPrefixOf_iff_prefix, hxs]
        exact hstart.trans (List.prefix_append (x :: piece') _)
      · exact hnot hrest

theorem cutAt_eq_none_iff {pat xs : List α} : cutAt pat xs = none ↔ ¬ pat <:+: xs := by
  induction xs with
  | nil => simp [cutAt, List.infix_nil]
  | cons x xs ih =>
    rw [cutAt, List.infix_cons_iff, not_or, ← ih]
    split_ifs with hpre
    · simp [List.isPrefixOf_iff_prefix.mp hpre]
    · simp [mt List.isPrefixOf_iff_prefix.mpr hpre]

/-- Delete the leftmost occurrences of a non-empty pattern, reading on behind each; the
counter holds how much of a found occurrence is still to be dropped. -/
def removeFrom (pat : List α) : ℕ → List α → List α
  | _, [] => []
  | n + 1, _ :: xs => removeFrom pat n xs
  | 0, x :: xs =>
      if pat <+: x :: xs then removeFrom pat (pat.length - 1) xs
      else x :: removeFrom pat 0 xs

def removeAll (pat xs : List α) : List α := removeFrom pat 0 xs

theorem removeFrom_drop (pat : List α) (n : ℕ) (xs : List α) :
    removeFrom pat n xs = removeAll pat (xs.drop n) := by
  induction xs generalizing n with
  | nil => cases n <;> simp [removeFrom, removeAll]
  | cons x xs ih =>
    cases n with
    | zero => rfl
    | succ n => simpa [removeFrom] using ih n

theorem removeAll_append_pat {pat : List α} (hne : pat ≠ []) (xs : List α) :
    removeAll pat (pat ++ xs) = removeAll pat xs := by
  cases pat with
  | nil => exact absurd rfl hne
  | cons p ps =>
    have hpre : p :: ps <+: p :: (ps ++ xs) := by simp
    simp only [removeAll, List.cons_append, removeFrom, if_pos hpre]
    rw [removeFrom_drop]
    simp [removeAll]

theorem removeAll_cons_of_ne {pat : List α} {x : α} {xs : List α}
    (h : ¬ pat <+: x :: xs) : removeAll pat (x :: xs) = x :: removeAll pat xs := by
  simp [removeAll, removeFrom, h]

omit [DecidableEq α] in
/-- An occurrence of a word without the delimiter lies on one side of it. -/
theorem infix_split {d : α} {w a b : List α} (hw : d ∉ w) (h : w <:+: a ++ d :: b) :
    w <:+: a ∨ w <:+: b := by
  obtain ⟨x, y, hxy⟩ := h
  rcases List.append_eq_append_iff.mp hxy with ⟨m, ha, -⟩ | ⟨m, hm, hb⟩
  · left
    exact ⟨x, m, ha.symm⟩
  · cases m with
    | nil =>
      rw [List.append_nil] at hm
      left
      exact ⟨x, [], by simpa using hm⟩
    | cons e m =>
      rw [List.cons_append, List.cons.injEq] at hb
      obtain ⟨rfl, rfl⟩ := hb
      have hcut : x ++ w = (a ++ [d]) ++ m := by simpa using hm
      rcases List.append_eq_append_iff.mp hcut with ⟨n, hn, rfl⟩ | ⟨n, rfl, rfl⟩
      · rcases List.eq_nil_or_concat n with rfl | ⟨n', e, rfl⟩
        · right
          exact ⟨[], y, by simp⟩
        · have he : d = e := by
            have := congrArg List.getLast? hn
            simpa using this
          simp [he] at hw
      · right
        exact ⟨n, y, by simp⟩

omit [DecidableEq α] in
theorem infix_dirs {d : α} {w : List α} (hw : d ∉ w) (hne : w ≠ []) {segs : List (List α)}
    (h : w <:+: dirs d segs) : ∃ s ∈ segs, w <:+: s := by
  induction segs with
  | nil =>
    rw [dirs_nil, List.infix_nil] at h
    exact absurd h hne
  | cons s ss ih =>
    rw [dirs_cons] at h
    rcases infix_split hw h with hs | hss
    · exact ⟨s, by simp, hs⟩
    · obtain ⟨t, ht, hwt⟩ := ih hss
      exact ⟨t, by simp [ht], hwt⟩

/-- Nothing is removed in front of a delimiter when the pattern ends with it. -/
theorem removeAll_segment {d : α} {w s : List α} (hw : d ∉ w) (hne : w ≠ []) (hs : d ∉ s)
    (hin : ¬ w <:+: s) (xs : List α) :
    removeAll (w ++ [d]) (s ++ d :: xs) = s ++ d :: removeAll (w ++ [d]) xs := by
  induction s with
  | nil =>
    have hnot : ¬ w ++ [d] <+: d :: xs := by
      cases w with
      | nil => exact absurd rfl hne
      | cons c w =>
        intro h
        rw [List.cons_append, List.cons_prefix_cons] at h
        simp [h.1] at hw
    rw [List.nil_append, removeAll_cons_of_ne hnot, List.nil_append]
  | cons c s ih =>
    have hs' := hs
    rw [List.mem_cons, not_or] at hs'
    have hin' : ¬ w <:+: s := fun h => hin (h.trans (List.suffix_cons c s).isInfix)
    have hnot : ¬ w ++ [d] <+: c :: (s ++ d :: xs) := by
      rintro ⟨t, ht⟩
      have hcut : w ++ d :: t = (c :: s) ++ d :: xs := by simpa using ht
      rcases List.append_eq_append_iff.mp hcut with ⟨m, hm, -⟩ | ⟨m, hm, hd⟩
      · exact hin ⟨[], m, by simpa using hm.symm⟩
      · cases m with
        | nil => exact hin ⟨[], [], by simpa using hm⟩
        | cons e m =>
          rw [List.cons_append, List.cons.injEq] at hd
          rw [hm, ← hd.1] at hw
          simp at hw
    rw [List.cons_append, removeAll_cons_of_ne hnot, ih hs'.2 hin', List.cons_append]

theorem removeAll_dirs {d : α} {w : List α} (hw : d ∉ w) (hne : w ≠ []) {segs : List (List α)}
    (hs : ∀ s ∈ segs, d ∉ s ∧ ¬ w <:+: s) (xs : List α) :
    removeAll (w ++ [d]) (dirs d segs ++ xs) = dirs d segs ++ removeAll (w ++ [d]) xs := by
  induction segs with
  | nil => rfl
  | cons s ss ih =>
    have hhead := hs s (by simp)
    have htail := ih fun t ht => hs t (by simp [ht])
    rw [dirs_cons, List.append_assoc, List.cons_append,
      removeAll_segment hw hne hhead.1 hhead.2, htail, List.append_assoc, List.cons_append]

/-- A pattern that starts with the delimiter is not found inside a segment. -/
theorem removeAll_skip {d : α} {w s : List α} (hs : d ∉ s) (xs : List α) :
    removeAll (d :: w) (s ++ xs) = s ++ removeAll (d :: w) xs := by
  induction s with
  | nil => rfl
  | cons c s ih =>
    rw [List.mem_cons, not_or] at hs
    have hnot : ¬ d :: w <+: c :: (s ++ xs) := by
      intro h
      exact hs.1 (List.cons_prefix_cons.mp h).1
    rw [List.cons_append, removeAll_cons_of_ne hnot, ih hs.2, List.cons_append]

theorem removeAll_other {d : α} {w s : List α} (hw : d ∉ w) (hs : d ∉ s) (hne : s ≠ w)
    (xs : List α) : removeAll (d :: (w ++ [d])) (d :: (s ++ d :: xs)) =
      d :: (s ++ removeAll (d :: (w ++ [d])) (d :: xs)) := by
  have hnot : ¬ d :: (w ++ [d]) <+: d :: (s ++ d :: xs) := by
    intro h
    obtain ⟨t, ht⟩ := (List.cons_prefix_cons.mp h).2
    have hcut : w ++ d :: t = s ++ d :: xs := by simpa using ht
    have hlines := congrArg (lines d) hcut
    rw [lines_segment hw, lines_segment hs, List.cons.injEq] at hlines
    exact hne hlines.1.symm
  rw [removeAll_cons_of_ne hnot, removeAll_skip hs]

end ToolkitCpp.Segments

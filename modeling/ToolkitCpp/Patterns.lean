import Mathlib.Data.List.Basic

/-!
# Patterns of single and repeated letters

The fragment of regular expressions in which a pattern is a sequence of letter classes, each of
which stands once or any number of times. A word matches if the whole of it does. For patterns in
which each class stands once there is also the deletion of all matches in a word.
-/
namespace ToolkitCpp.Patterns

variable {α : Type*}

structure Item (α : Type*) where
  accepts : α → Bool
  starred : Bool

def once (p : α → Bool) : Item α := ⟨p, false⟩

def many (p : α → Bool) : Item α := ⟨p, true⟩

def matchWhole : List (Item α) → List α → Bool
  | [], w => w.isEmpty
  | ⟨_, false⟩ :: _, [] => false
  | ⟨p, false⟩ :: items, x :: w => p x && matchWhole items w
  | ⟨_, true⟩ :: items, [] => matchWhole items []
  | ⟨p, true⟩ :: items, x :: w =>
      matchWhole items (x :: w) || p x && matchWhole (⟨p, true⟩ :: items) w
termination_by items w => items.length + w.length

lemma matchWhole_nil {w : List α} : matchWhole [] w = true ↔ w = [] := by
  rw [matchWhole, List.isEmpty_iff]

lemma matchWhole_once {p : α → Bool} {items : List (Item α)} {w : List α} :
    matchWhole (once p :: items) w = true ↔
      ∃ x v, w = x :: v ∧ p x = true ∧ matchWhole items v = true := by
  cases w with
  | nil => simp [once, matchWhole]
  | cons x w => simp [once, matchWhole]

lemma matchWhole_many {p : α → Bool} {items : List (Item α)} {w : List α} :
    matchWhole (many p :: items) w = true ↔
      ∃ u v, w = u ++ v ∧ (∀ x ∈ u, p x = true) ∧ matchWhole items v = true := by
  induction w with
  | nil => simp [many, matchWhole]
  | cons x w ih =>
    have hstep : matchWhole (many p :: items) (x :: w) = true ↔
        matchWhole items (x :: w) = true ∨
          p x = true ∧ matchWhole (many p :: items) w = true := by
      simp [many, matchWhole]
    rw [hstep, ih]
    constructor
    · rintro (h | ⟨hx, u, v, rfl, hu, hv⟩)
      · exact ⟨[], x :: w, rfl, by simp, h⟩
      · exact ⟨x :: u, v, rfl, by simpa [hx] using hu, hv⟩
    · rintro ⟨u, v, huv, hu, hv⟩
      cases u with
      | nil =>
        left
        rw [huv]
        exact hv
      | cons y u =>
        obtain ⟨rfl, rfl⟩ := List.cons_eq_cons.mp huv
        right
        exact ⟨hu x List.mem_cons_self, u, v, rfl, fun z hz => hu z (List.mem_cons_of_mem x hz), hv⟩

section Literal

variable [DecidableEq α]

def literal (word : List α) : List (Item α) := word.map fun x => once (· == x)

lemma matchWhole_literal {word w : List α} {items : List (Item α)} :
    matchWhole (literal word ++ items) w = true ↔
      ∃ v, w = word ++ v ∧ matchWhole items v = true := by
  induction word generalizing w with
  | nil => simp [literal]
  | cons x word ih =>
    have hcons : literal (x :: word) ++ items = once (· == x) :: (literal word ++ items) := rfl
    rw [hcons, matchWhole_once]
    constructor
    · rintro ⟨y, v, rfl, hy, hv⟩
      obtain ⟨v, rfl, hrest⟩ := ih.mp hv
      rw [beq_iff_eq] at hy
      exact ⟨v, by rw [hy, List.cons_append], hrest⟩
    · rintro ⟨v, rfl, hrest⟩
      exact ⟨x, word ++ v, rfl, beq_self_eq_true x, ih.mpr ⟨v, rfl, hrest⟩⟩

/-- A word that holds the literal, with letters of the class around it. -/
theorem matchWhole_holds {p : α → Bool} {word w : List α} :
    matchWhole (many p :: (literal word ++ [many p])) w = true ↔
      ∃ u v, w = u ++ (word ++ v) ∧ (∀ x ∈ u, p x = true) ∧ ∀ x ∈ v, p x = true := by
  have hlast (v : List α) : matchWhole [many p] v = true ↔ ∀ x ∈ v, p x = true := by
    simp [matchWhole_many, matchWhole_nil]
  simp only [matchWhole_many, matchWhole_literal, hlast]
  constructor
  · rintro ⟨u, t, rfl, hu, v, rfl, hv⟩
    exact ⟨u, v, rfl, hu, hv⟩
  · rintro ⟨u, v, rfl, hu, hv⟩
    exact ⟨u, word ++ v, rfl, hu, v, rfl, hv⟩

end Literal

/-- The word begins with a letter of each class. -/
def begins : List (α → Bool) → List α → Bool
  | [], _ => true
  | _ :: _, [] => false
  | p :: ps, x :: w => p x && begins ps w

/-- Delete the leftmost matches of a pattern that is not empty, reading on behind each; the counter
holds how much of a found match is still to be dropped. -/
def deleteFrom (ps : List (α → Bool)) : ℕ → List α → List α
  | _, [] => []
  | n + 1, _ :: w => deleteFrom ps n w
  | 0, x :: w => if begins ps (x :: w) then deleteFrom ps (ps.length - 1) w
      else x :: deleteFrom ps 0 w

def delete (ps : List (α → Bool)) (w : List α) : List α := deleteFrom ps 0 w

/-- The pattern matches somewhere in the word. -/
def Occurs (ps : List (α → Bool)) (w : List α) : Prop := ∃ v, v <:+ w ∧ begins ps v = true

lemma length_le_of_begins {ps : List (α → Bool)} {w : List α} (h : begins ps w = true) :
    ps.length ≤ w.length := by
  induction ps generalizing w with
  | nil => exact Nat.zero_le _
  | cons p ps ih =>
    cases w with
    | nil => exact Bool.noConfusion h
    | cons x w =>
      rw [begins, Bool.and_eq_true] at h
      exact Nat.succ_le_succ (ih h.2)

lemma length_deleteFrom_le (ps : List (α → Bool)) (n : ℕ) (w : List α) :
    (deleteFrom ps n w).length ≤ w.length := by
  induction w generalizing n with
  | nil => cases n <;> exact Nat.le_refl _
  | cons x w ih =>
    cases n with
    | zero =>
      rw [deleteFrom]
      split_ifs
      · exact Nat.le_succ_of_le (ih _)
      · exact Nat.succ_le_succ (ih 0)
    | succ n => exact Nat.le_succ_of_le (ih n)

/-- A word stays as it is exactly when there is no match in it. -/
theorem delete_eq_self_iff {ps : List (α → Bool)} (hne : ps ≠ []) {w : List α} :
    delete ps w = w ↔ ¬ Occurs ps w := by
  induction w with
  | nil =>
    have hnot : ¬ Occurs ps [] := by
      rintro ⟨v, hv, hbegins⟩
      rw [List.suffix_nil] at hv
      have hlen := length_le_of_begins hbegins
      rw [hv] at hlen
      exact hne (List.length_eq_zero_iff.mp (Nat.le_zero.mp hlen))
    exact iff_of_true rfl hnot
  | cons x w ih =>
    have hsplit : Occurs ps (x :: w) ↔ begins ps (x :: w) = true ∨ Occurs ps w := by
      constructor
      · rintro ⟨v, hv, hbegins⟩
        rcases List.suffix_cons_iff.mp hv with rfl | hv
        · exact .inl hbegins
        · exact .inr ⟨v, hv, hbegins⟩
      · rintro (hbegins | ⟨v, hv, hbegins⟩)
        · exact ⟨x :: w, List.suffix_rfl, hbegins⟩
        · exact ⟨v, hv.trans (List.suffix_cons x w), hbegins⟩
    rw [hsplit, delete, deleteFrom]
    by_cases hbegins : begins ps (x :: w) = true
    · have hshort := length_deleteFrom_le ps (ps.length - 1) w
      rw [if_pos hbegins]
      refine iff_of_false ?_ (fun h => h (.inl hbegins))
      intro heq
      rw [heq, List.length_cons] at hshort
      exact absurd hshort (Nat.not_succ_le_self _)
    · rw [if_neg hbegins, List.cons.injEq, or_iff_right hbegins, ← ih]
      simp [delete]

/-- A letter that no class accepts ends a match before it. -/
lemma begins_append {ps : List (α → Bool)} {x : α} (hx : ∀ p ∈ ps, p x = false) (u v : List α) :
    begins ps (u ++ x :: v) = begins ps u := by
  induction ps generalizing u with
  | nil =>
    rw [begins, begins]
  | cons p ps ih =>
    have hhead := hx p List.mem_cons_self
    have htail := ih fun q hq => hx q (List.mem_cons_of_mem p hq)
    cases u with
    | nil => simp [begins, hhead]
    | cons y u => simp [begins, htail u]

/-- No match reaches over a letter that only the first class accepts. -/
theorem delete_append {p : α → Bool} {ps : List (α → Bool)} {x : α} (hx : ∀ q ∈ ps, q x = false)
    (u v : List α) :
    delete (p :: ps) (u ++ x :: v) = delete (p :: ps) u ++ delete (p :: ps) (x :: v) := by
  have hfrom : ∀ n, n ≤ u.length → deleteFrom (p :: ps) n (u ++ x :: v) =
      deleteFrom (p :: ps) n u ++ delete (p :: ps) (x :: v) := by
    induction u with
    | nil =>
      intro n hn
      rw [Nat.le_zero.mp hn]
      rfl
    | cons y u ih =>
      intro n hn
      cases n with
      | zero =>
        have hsame : begins (p :: ps) (y :: (u ++ x :: v)) = begins (p :: ps) (y :: u) := by
          rw [begins, begins, begins_append hx]
        rw [List.cons_append, deleteFrom, deleteFrom, hsame]
        by_cases hbegins : begins (p :: ps) (y :: u) = true
        · have hlen := length_le_of_begins hbegins
          rw [if_pos hbegins, if_pos hbegins]
          exact ih _ (by simpa using hlen)
        · rw [if_neg hbegins, if_neg hbegins, ih 0 (Nat.zero_le _), List.cons_append]
      | succ n =>
        rw [List.cons_append, deleteFrom, deleteFrom]
        exact ih n (Nat.le_of_succ_le_succ hn)
  exact hfrom 0 (Nat.zero_le _)

end ToolkitCpp.Patterns

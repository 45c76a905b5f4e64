import Mathlib.Data.List.Basic
import Mathlib.Tactic.Tauto

/-!
# Runs of guarded transition systems

A system is a step function together with the events its environment may choose
in each state. Runs are event lists; the rules below turn facts about one step
into facts about every run.
-/
namespace ToolkitCpp.GuardedRuns

structure System (S E : Type*) where
  possible : S → E → Prop
  step : S → E → S

variable {S E : Type*} (M : System S E)

def System.run (s : S) (es : List E) : S := es.foldl M.step s

/-- Every event of the list is one the environment may choose when its turn comes. -/
def System.Legal : S → List E → Prop
  | _, [] => True
  | s, e :: es => M.possible s e ∧ System.Legal (M.step s e) es

/-- A state property holds in every state of a run, its two ends included. -/
def System.Along (P : S → Prop) : S → List E → Prop
  | s, [] => P s
  | s, e :: es => P s ∧ System.Along P (M.step s e) es

/-- A condition on a state and the event taken there holds at every step of a run. -/
def System.EachStep (C : S → E → Prop) : S → List E → Prop
  | _, [] => True
  | s, e :: es => C s e ∧ System.EachStep C (M.step s e) es

/-- The first event of the list outside `N` exists and is one of `F`. -/
def Fires (N F : E → Prop) : List E → Prop
  | [] => False
  | e :: es => F e ∨ N e ∧ Fires N F es

/-- Somewhere along a run a step of `A` is followed, after events of `N` only, by one
of `F`. -/
def System.Window (A : S → E → Prop) (N F : E → Prop) : S → List E → Prop
  | _, [] => False
  | s, e :: es => A s e ∧ Fires N F es ∨ System.Window A N F (M.step s e) es

/-- After steps of `N` only there is one of `F`. -/
def System.Reaches (N F : S → E → Prop) : S → List E → Prop
  | _, [] => False
  | s, e :: es => F s e ∨ N s e ∧ System.Reaches N F (M.step s e) es

/-- Somewhere along a run a step of `A` is followed, after steps of `N` only, by one of
`F`. -/
def System.Follows (A N F : S → E → Prop) : S → List E → Prop
  | _, [] => False
  | s, e :: es =>
      A s e ∧ M.Reaches N F (M.step s e) es ∨ System.Follows A N F (M.step s e) es

/-- After steps of `N` only there is one of `A`, and `Q` holds of the state and the events that
follow it. -/
def System.ReachesThen (N A : S → E → Prop) (Q : S → List E → Prop) : S → List E → Prop
  | _, [] => False
  | s, e :: es =>
      A s e ∧ Q (M.step s e) es ∨ N s e ∧ System.ReachesThen N A Q (M.step s e) es

instance System.decidableLegal [∀ s e, Decidable (M.possible s e)] :
    ∀ s es, Decidable (M.Legal s es)
  | _, [] => isTrue trivial
  | s, e :: es =>
      haveI := System.decidableLegal (M.step s e) es
      inferInstanceAs (Decidable (_ ∧ _))

instance System.decidableAlong (P : S → Prop) [DecidablePred P] :
    ∀ s es, Decidable (M.Along P s es)
  | s, [] => inferInstanceAs (Decidable (P s))
  | s, e :: es =>
      haveI := System.decidableAlong P (M.step s e) es
      inferInstanceAs (Decidable (_ ∧ _))

instance System.decidableEachStep (C : S → E → Prop) [∀ s e, Decidable (C s e)] :
    ∀ s es, Decidable (M.EachStep C s es)
  | _, [] => isTrue trivial
  | s, e :: es =>
      haveI := System.decidableEachStep C (M.step s e) es
      inferInstanceAs (Decidable (_ ∧ _))

/-- The same system under an observer, who writes down what each step does: `R` is the record
after it. -/
def System.observed {H : Type*} (R : S → E → H → H) : System (S × H) E where
  possible x e := M.possible x.1 e
  step x e := (M.step x.1 e, R x.1 e x.2)

variable {M}

@[simp] theorem System.run_nil (s : S) : M.run s [] = s := rfl

@[simp] theorem System.run_cons (s : S) (e : E) (es : List E) :
    M.run s (e :: es) = M.run (M.step s e) es := rfl

/-- A property that every possible step preserves holds at the end of every legal run. -/
theorem System.Legal.invariant {I : S → Prop}
    (hstep : ∀ s e, I s → M.possible s e → I (M.step s e)) {s : S} {es : List E}
    (hl : M.Legal s es) (hs : I s) : I (M.run s es) := by
  induction es generalizing s with
  | nil => exact hs
  | cons e es ih => exact ih hl.2 (hstep s e hs hl.1)

/-- If clean steps keep an inductive invariant `G` that gives `B`, and any other possible
step out of `G` breaks `B` at once, then `B` holds along a run exactly when all of its
steps are clean. -/
theorem System.Legal.along_iff_eachStep {G B : S → Prop} {C : S → E → Prop}
    (hB : ∀ s, G s → B s)
    (hclean : ∀ s e, G s → M.possible s e → C s e → G (M.step s e))
    (hdirty : ∀ s e, G s → M.possible s e → ¬ C s e → ¬ B (M.step s e))
    {s : S} {es : List E} (hl : M.Legal s es) (hs : G s) :
    M.Along B s es ↔ M.EachStep C s es := by
  induction es generalizing s with
  | nil => exact ⟨fun _ => trivial, fun _ => hB s hs⟩
  | cons e es ih =>
    by_cases hc : C s e
    · have ih' := ih hl.2 (hclean s e hs hl.1 hc)
      exact ⟨fun h => ⟨hc, ih'.mp h.2⟩, fun h => ⟨hB s hs, ih'.mpr h.2⟩⟩
    · have hn := hdirty s e hs hl.1 hc
      constructor
      · intro h
        cases es with
        | nil => exact absurd h.2 hn
        | cons e' es => exact absurd h.2.1 hn
      · intro h
        exact absurd h.1 hc

lemma System.Along.head {P : S → Prop} {s : S} {es : List E} (h : M.Along P s es) : P s := by
  cases es with
  | nil => exact h
  | cons e es => exact h.1

lemma System.legal_of_forall (h : ∀ s e, M.possible s e) (s : S) (es : List E) :
    M.Legal s es := by
  induction es generalizing s with
  | nil => trivial
  | cons e es ih => exact ⟨h s e, ih (M.step s e)⟩

/-- A state property of every state that a legal run passes. -/
theorem System.Legal.along {I : S → Prop}
    (hstep : ∀ s e, I s → M.possible s e → I (M.step s e)) {s : S} {es : List E}
    (hl : M.Legal s es) (hs : I s) : M.Along I s es := by
  induction es generalizing s with
  | nil => exact hs
  | cons e es ih => exact ⟨hs, ih hl.2 (hstep s e hs hl.1)⟩

/-- What holds at every possible step out of an invariant holds at every step of a
legal run. -/
theorem System.Legal.eachStep {I : S → Prop} {C : S → E → Prop}
    (hstep : ∀ s e, I s → M.possible s e → I (M.step s e))
    (hC : ∀ s e, I s → M.possible s e → C s e) {s : S} {es : List E}
    (hl : M.Legal s es) (hs : I s) : M.EachStep C s es := by
  induction es generalizing s with
  | nil => trivial
  | cons e es ih => exact ⟨hC s e hs hl.1, ih hl.2 (hstep s e hs hl.1)⟩

/-- Two conditions on steps that agree out of an invariant, which the second one keeps, hold
along the same runs. -/
theorem System.Legal.eachStep_iff {G : S → Prop} {C D : S → E → Prop}
    (hiff : ∀ s e, G s → M.possible s e → (C s e ↔ D s e))
    (hkeep : ∀ s e, G s → M.possible s e → D s e → G (M.step s e)) {s : S} {es : List E}
    (hl : M.Legal s es) (hs : G s) : M.EachStep C s es ↔ M.EachStep D s es := by
  induction es generalizing s with
  | nil => exact Iff.rfl
  | cons e es ih =>
    have hhead := hiff s e hs hl.1
    constructor
    · intro h
      have hd := hhead.mp h.1
      exact ⟨hd, (ih hl.2 (hkeep s e hs hl.1 hd)).mp h.2⟩
    · intro h
      exact ⟨hhead.mpr h.1, (ih hl.2 (hkeep s e hs hl.1 h.1)).mpr h.2⟩

theorem System.Along.imp {P Q : S → Prop} (himp : ∀ s, P s → Q s) {s : S} {es : List E}
    (h : M.Along P s es) : M.Along Q s es := by
  induction es generalizing s with
  | nil => exact himp s h
  | cons e es ih => exact ⟨himp s h.1, ih h.2⟩

/-- Steps of `N` that keep an invariant do not lead to an `F` that the invariant excludes. -/
theorem System.Legal.not_reaches {X : S → Prop} {N F : S → E → Prop}
    (hkeep : ∀ s e, X s → M.possible s e → N s e → X (M.step s e))
    (hF : ∀ s e, X s → ¬ F s e) {s : S} {es : List E} (hl : M.Legal s es) (hs : X s) :
    ¬ M.Reaches N F s es := by
  induction es generalizing s with
  | nil => exact id
  | cons e es ih =>
    rintro (hf | ⟨hn, h⟩)
    · exact hF s e hs hf
    · exact ih hl.2 (hkeep s e hs hl.1 hn) h

section Split

variable {N K B F : S → E → Prop}

/-- The steps of `N` on the way are all of `K`, or there is a first one of `B`. -/
theorem System.reaches_iff_reachesThen (hN : ∀ s e, N s e ↔ K s e ∨ B s e) (s : S)
    (es : List E) : M.Reaches N F s es ↔
      M.Reaches K F s es ∨ M.ReachesThen K B (M.Reaches N F) s es := by
  induction es generalizing s with
  | nil => simp [System.Reaches, System.ReachesThen]
  | cons e es ih =>
    have hrest := ih (M.step s e)
    simp only [System.Reaches, System.ReachesThen, hN]
    tauto

/-- The same after a step of `A`, which is one of `A'` when only steps of `K` come between. -/
theorem System.Legal.follows_iff_reachesThen {A A' : S → E → Prop} {G : S → Prop}
    (hN : ∀ s e, N s e ↔ K s e ∨ B s e)
    (hG : ∀ s e, G s → M.possible s e → G (M.step s e))
    (hA : ∀ s e es, G s → M.Legal s (e :: es) → M.Reaches K F (M.step s e) es →
      (A s e ↔ A' s e)) {s : S} {es : List E} (hl : M.Legal s es) (hs : G s) :
    M.Follows A N F s es ↔ M.Follows A' K F s es ∨
      M.ReachesThen (fun _ _ => True) A (M.ReachesThen K B (M.Reaches N F)) s es := by
  induction es generalizing s with
  | nil => simp [System.Follows, System.ReachesThen]
  | cons e es ih =>
    have hrest := ih hl.2 (hG s e hs hl.1)
    have hsplit := System.reaches_iff_reachesThen (M := M) (F := F) hN (M.step s e) es
    have hstep := hA s e es hs hl
    simp only [System.Follows, System.ReachesThen, hrest, hsplit]
    tauto

end Split

section Observed

/-! The observer sees the runs of the system and no others. -/

variable {H : Type*} {R : S → E → H → H}

theorem System.legal_observed {s : S} {h : H} {es : List E} :
    (M.observed R).Legal (s, h) es ↔ M.Legal s es := by
  induction es generalizing s h with
  | nil => exact Iff.rfl
  | cons e es ih => exact and_congr_right fun _ => ih

theorem System.along_observed {P : S → Prop} {s : S} {h : H} {es : List E} :
    (M.observed R).Along (fun x => P x.1) (s, h) es ↔ M.Along P s es := by
  induction es generalizing s h with
  | nil => exact Iff.rfl
  | cons e es ih => exact and_congr_right fun _ => ih

theorem System.eachStep_observed {C : S → E → Prop} {s : S} {h : H} {es : List E} :
    (M.observed R).EachStep (fun x e => C x.1 e) (s, h) es ↔ M.EachStep C s es := by
  induction es generalizing s h with
  | nil => exact Iff.rfl
  | cons e es ih => exact and_congr_right fun _ => ih

end Observed

section Window

/-! A state is safe (`G`) or exposed (`X`). A step of `A` exposes it, an event outside `N`
and `F` makes it safe again, and an event of `F` in an exposed state breaks `B`. -/

variable {G X B : S → Prop} {A : S → E → Prop} {N F : E → Prop}

/-- Under this discipline `B` holds along a run that starts safe exactly when no window
opened by `A` is hit by `F`, and the same from an exposed state if `F` does not come next. -/
theorem System.Legal.along_iff_not_window
    (hG : ∀ s, G s → B s) (hX : ∀ s, X s → B s)
    (hopen : ∀ s e, G s → M.possible s e → A s e → X (M.step s e))
    (hsafe : ∀ s e, G s → M.possible s e → ¬ A s e → G (M.step s e))
    (hfire : ∀ s e, X s → M.possible s e → F e → ¬ B (M.step s e))
    (hwait : ∀ s e, X s → M.possible s e → ¬ F e → N e → X (M.step s e))
    (hshut : ∀ s e, X s → M.possible s e → ¬ F e → ¬ N e → G (M.step s e) ∧ ¬ A s e)
    {s : S} {es : List E} (hl : M.Legal s es) :
    (G s → (M.Along B s es ↔ ¬ M.Window A N F s es)) ∧
      (X s → (M.Along B s es ↔ ¬ Fires N F es ∧ ¬ M.Window A N F s es)) := by
  induction es generalizing s with
  | nil => exact ⟨fun h => iff_of_true (hG s h) id, fun h => iff_of_true (hX s h) ⟨id, id⟩⟩
  | cons e es ih =>
    obtain ⟨ihG, ihX⟩ := ih hl.2
    constructor
    · intro hs
      by_cases ha : A s e
      · have hnext := ihX (hopen s e hs hl.1 ha)
        simp only [System.Along, System.Window, hG s hs, ha, true_and, hnext, not_or]
      · have hnext := ihG (hsafe s e hs hl.1 ha)
        simp only [System.Along, System.Window, hG s hs, ha, true_and, false_and, false_or, hnext]
    · intro hs
      by_cases hf : F e
      · have hbroken : ¬ M.Along B (M.step s e) es := fun h => hfire s e hs hl.1 hf h.head
        simp only [System.Along, Fires, hbroken, hf, and_false, true_or, not_true, false_and]
      · by_cases hn : N e
        · have hnext := ihX (hwait s e hs hl.1 hf hn)
          simp only [System.Along, System.Window, Fires, hX s hs, hf, hn, true_and, false_or, hnext]
          tauto
        · obtain ⟨hg, ha⟩ := hshut s e hs hl.1 hf hn
          have hnext := ihG hg
          simp only [System.Along, System.Window, Fires, hX s hs, hf, hn, ha, true_and, false_and,
            false_or, or_false, not_false_eq_true, hnext]

end Window

section Exposure

/-! Things indexed by `i` become exposed by a step of `A i` and stay so during steps of `N i`.
A step breaks `C` exactly when it is one of `F i` for some exposed `i`. -/

variable {ι : Type*} {G : S → Prop} {X : ι → S → Prop} {A N F : ι → S → E → Prop}
  {C : S → E → Prop}

/-- Under this discipline `C` holds at every step of a run exactly when nothing that is exposed
at its start, or is exposed by one of its steps, meets its `F`. -/
theorem System.Legal.eachStep_iff_not_follows
    (hG : ∀ s e, G s → M.possible s e → G (M.step s e))
    (hC : ∀ s e, G s → M.possible s e → (C s e ↔ ∀ i, ¬ (X i s ∧ F i s e)))
    (hX : ∀ i s e, G s → M.possible s e → (X i (M.step s e) ↔ A i s e ∨ X i s ∧ N i s e))
    {s : S} {es : List E} (hl : M.Legal s es) (hs : G s) :
    M.EachStep C s es ↔
      ∀ i, ¬ (X i s ∧ M.Reaches (N i) (F i) s es) ∧ ¬ M.Follows (A i) (N i) (F i) s es := by
  induction es generalizing s with
  | nil => simp [System.EachStep, System.Reaches, System.Follows]
  | cons e es ih =>
    simp only [System.EachStep, System.Reaches, System.Follows]
    rw [hC s e hs hl.1, ih hl.2 (hG s e hs hl.1), ← forall_and]
    apply forall_congr'
    intro i
    rw [hX i s e hs hl.1]
    tauto

end Exposure

end ToolkitCpp.GuardedRuns

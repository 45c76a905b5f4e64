import ToolkitCpp.ConfigStable

/-!
# Defaults as a fixed point

When the default configuration comes out of the validator as it went in, with itself as the old
configuration. A default that its check refuses does no harm where what is put in its place
stands there already.
-/
namespace ToolkitCpp.Config

open Json JSON Segments

section Fixed

variable {c D : JSON} {cs : Members}

/-- The check of a value ends and does not let it pass. -/
def Refused (c N : JSON) (parentKey k : Str) (idx : Option ℕ) (v : JSON) (pl : Place) : Prop :=
  place c parentKey k idx = .ok pl ∧ ∃ u, getParamValueFromJson N ('/' :: pl.parentPath) = .ok u ∧
    ReadableAt c pl.constrPath v ∧ ¬ AdmittedAt c pl.constrPath v u.size

/-- A refused default is replaced by what stands there already. -/
def Stays (c D : JSON) (parentKey k : Str) (idx : Option ℕ) (v : JSON) : Prop :=
  ∃ pl path w, Refused c D parentKey k idx v pl ∧ Replaces c D D parentKey k pl path w ∧
    (locate D (rooted path)).found = true ∧ (locate D (rooted path)).node = w

/-- Some refused default puts another value in a place than the one that stands there. -/
def Overwritten (c D : JSON) : Prop :=
  ∃ q parentKey k idx v pl path w, Visits (Fits c D) D q parentKey k idx v ∧ LookedAt idx v ∧
    Refused c D parentKey k idx v pl ∧ Replaces c D D parentKey k pl path w ∧
    (locate D (rooted path)).found = true ∧ (locate D (rooted path)).node ≠ w

variable {parentKey k : Str} {idx : Option ℕ} {v : JSON} {pl : Place}

theorem storeParam_same_iff {path : Str} {w : JSON} : storeParam D path w = .ok D ↔
    (locate D (rooted path)).found = true ∧ (locate D (rooted path)).node = w := by
  rw [storeParam_iff]
  apply and_congr_right
  intro _
  rw [eq_comm]
  exact setAt_eq_self w (nodeAt_walk _ _ _)

theorem refused_iff : Refused c D parentKey k idx v pl ↔
    place c parentKey k idx = .ok pl ∧ verdict c D pl v = .ok false := by
  rw [Refused, verdict_false_iff]

theorem Refused.proc (h : Refused c D parentKey k idx v pl) {O M : JSON}
    (hM : replaceParam c D O parentKey k pl = .ok M) :
    anyParamProc c D O parentKey k idx v = .ok (false, pl.key, M) := by
  obtain ⟨hpl, hv⟩ := refused_iff.mp h
  rw [anyParamProc_fail hpl hv, hM]
  rfl

theorem Stays.proc (hD : getDefaultConfig c = .ok D) (h : Stays c D parentKey k idx v) :
    ∃ key, anyParamProc c D D parentKey k idx v = .ok (false, key, D) := by
  obtain ⟨pl, path, w, href, hrep, hholds⟩ := h
  exact ⟨_, href.proc ((replaceParam_iff hD).mpr ⟨path, w, hrep, storeParam_same_iff.mpr hholds⟩)⟩

/-- What a step at a visited default does when none is overwritten. -/
theorem step_cases_default (hD : getDefaultConfig c = .ok D) (hover : ¬ Overwritten c D)
    {q : Option (List Str)} (hv : Visits (Fits c D) D q parentKey k idx v)
    (hlook : LookedAt idx v) {r : Bool × Str × JSON}
    (hr : anyParamProc c D D parentKey k idx v = .ok r) :
    r.2.2 = D ∧ ((∃ key, Fits c D parentKey k idx v key) ∨ Stays c D parentKey k idx v) := by
  obtain ⟨pl, hpl, ⟨hpass, rfl⟩ | ⟨hfail, M, hM, rfl⟩⟩ := anyParamProc_ok hr
  · refine ⟨?_, .inl ⟨_, fits_of_verdict hpl hpass⟩⟩
    cases v.empty <;> rfl
  · have href : Refused c D parentKey k idx v pl := refused_iff.mpr ⟨hpl, hfail⟩
    obtain ⟨path, w, hrep, hstore⟩ := (replaceParam_iff hD).mp hM
    have hfound := (storeParam_iff.mp hstore).1
    have hnode : (locate D (rooted path)).node = w := by
      by_contra hne
      exact hover ⟨q, parentKey, k, idx, v, pl, path, w, hv, hlook, href, hrep, hfound, hne⟩
    have hsame := storeParam_same_iff.mpr ⟨hfound, hnode⟩
    rw [hsame, Except.ok.injEq] at hstore
    exact ⟨hstore.symm, .inr ⟨pl, path, w, href, hrep, hfound, hnode⟩⟩

theorem not_overwritten (hD : getDefaultConfig c = .ok D)
    (h : EachVisited c D fun parentKey k idx v =>
      (∃ key, Fits c D parentKey k idx v key) ∨ Stays c D parentKey k idx v) :
    ¬ Overwritten c D := by
  rintro ⟨q, parentKey, k, idx, v, pl, path, w, hv, hlook, href, hrep, hfound, hne⟩
  have hstep := href.proc ((replaceParam_iff hD).mpr
    ⟨path, w, hrep, storeParam_iff.mpr ⟨hfound, rfl⟩⟩)
  have hchanged : setAt w (locate D (rooted path)).path D ≠ D :=
    fun hsame => hne ((setAt_eq_self w (nodeAt_walk _ _ _)).mp hsame)
  rcases h hv hlook with ⟨key, hfits⟩ | hstays
  · rw [hfits.proc D, Except.ok.injEq] at hstep
    cases hemp : v.empty with
    | true =>
      simp only [hemp, if_true, Prod.mk.injEq, true_and] at hstep
      exact hchanged hstep.2.symm
    | false => simp [hemp] at hstep
  · obtain ⟨key, hkeep⟩ := hstays.proc hD
    rw [hkeep, Except.ok.injEq, Prod.mk.injEq, Prod.mk.injEq] at hstep
    exact hchanged hstep.2.2.symm

/-- A parameter between two fractions, which are both fetched as `0`. -/
def fractionRange : Members :=
  [(txt "A", object (fields "float" (float (3 / 4)) (float (9 / 10)) (float (1 / 2))))]

/-- An object parameter without parameters of its own next to a switch. -/
def emptyObject : Members :=
  [(txt "A", object [(txt "Type", string (txt "object"))]),
    (txt "B", object [(txt "Default", boolean true), (txt "Type", string (txt "bool"))])]

end Fixed

end ToolkitCpp.Config

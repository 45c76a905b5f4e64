import ToolkitCpp.ConfigBounds

/-!
# What a description admits

The verdict of `validateForOne` as a condition on the fields of a description and a value: which
values a description admits, and for which ones the check ends without an exception.
-/
namespace ToolkitCpp.Config

open Json JSON Segments

/-- `x` lies between the bounds as they are fetched. -/
def ParamView.InRange (view : ParamView) (x : ℚ) : Prop :=
  ∃ lo hi : ℤ, fetchInt view.min = .ok lo ∧ fetchInt view.max = .ok hi ∧ (lo : ℚ) ≤ x ∧ x ≤ hi

/-- The `Enum`, if there is one, lists the text, and only texts before it. -/
def ParamView.Lists (view : ParamView) (s : Str) : Prop :=
  ∃ e, view.enum = .ok e ∧ ∀ xs ∈ e, string s ∈ items xs ∧
    ∀ x ∈ (items xs).takeWhile (fun x => x ≠ string s), x.isString = true

/-- The kinds of values that go with a type. -/
def ParamView.AdmitsKind (view : ParamView) (type : Str) : JSON → Prop
  | null => type = txt "object" ∨ (view.dflt.getD null).isNull = true
  | boolean _ => type = txt "bool"
  | integer _ => type = txt "int" ∨ type = txt "float"
  | unsigned _ => type = txt "int" ∨ type = txt "float"
  | float _ => type = txt "float"
  | string s => type = txt "string" ∧ view.Lists s
  | object _ => type = txt "object" ∨ type = txt "map.object"
  | array _ => txt "array." <+: type

/-- Values of the type are compared with `Min` and `Max`. -/
def Ranged (type : Str) : Prop :=
  ¬ (type = txt "string" ∨ type = txt "object" ∨ type = txt "bool")

/-- The number that is compared: the size `n` that was measured for maps and arrays, otherwise the
value. -/
def compared (type : Str) (v : JSON) (n : ℕ) : JSON :=
  if txt "array." <+: type ∨ txt "map." <+: type then ofSize n else v

/-- A description admits a value. -/
def ParamView.Admits (view : ParamView) (v : JSON) (n : ℕ) : Prop :=
  ∃ type, view.type = some (string type) ∧ type ≠ [] ∧ view.AdmitsKind type v ∧
    (Ranged type → ∃ x, (compared type v n).seen = some x ∧ view.InRange x)

/-- The check of a value ends with a verdict: the description has a type, a text of the type `string`
is listed, and the bounds can be fetched when it comes to them. -/
def ParamView.Readable (view : ParamView) (v : JSON) : Prop :=
  ∃ type, view.type = some (string type) ∧ type ≠ [] ∧
    (∀ s, v = string s → type = txt "string" → view.Lists s) ∧
    (view.AdmitsKind type v → Ranged type →
      ∃ lo hi : ℤ, fetchInt view.min = .ok lo ∧ fetchInt view.max = .ok hi)

theorem fetchInt_range {j : Option JSON} {m : ℤ} (h : fetchInt j = .ok m) :
    -2 ^ 31 ≤ m ∧ m < 2 ^ 31 := by
  cases j with
  | some v => exact getInt_range h
  | none =>
    rw [fetchInt, Except.ok.injEq] at h
    omega

theorem inEnum_true_iff (path s : Str) (es : List JSON) :
    inEnum path (string s) es = .ok true ↔
      string s ∈ es ∧ ∀ x ∈ es.takeWhile (fun x => x ≠ string s), x.isString = true := by
  induction es with
  | nil => simp [inEnum]
  | cons e es ih =>
    rw [inEnum]
    by_cases he : e = string s
    · subst he
      simp [isString, eqv_self]
    · have htake : (e :: es).takeWhile (fun x => x ≠ string s) =
          e :: es.takeWhile (fun x => x ≠ string s) := by simp [he]
      rw [htake]
      cases e with
      | string u =>
        have hu : u ≠ s := by
          rintro rfl
          exact he rfl
        have hne : eqv (string u) (string s) = false := by simp [eqv_string, hu]
        simp only [isString, Bool.not_true, Bool.false_eq_true, if_false, hne, ih,
          List.mem_cons, forall_eq_or_imp, true_and]
        simp [Ne.symm hu]
      | _ => simp [isString]

/-- A value that is not a number lies on one side of all numbers. -/
theorem compare_notNumber {v : JSON} (h : v.seen = none) (lo hi : ℤ) :
    (!(gt v (ofInt hi) || lt v (ofInt lo))) = false := by
  cases v with
  | null => rfl
  | boolean b => rfl
  | integer i => simp [seen, number?] at h
  | unsigned n => simp [seen] at h
  | float q => simp [seen, number?] at h
  | string s => rfl
  | array xs => rfl
  | object kvs => rfl

section Check

variable {path type : Str} {view : ParamView} {v : JSON} {n : ℕ}

theorem checkEnum_string_iff (path s : Str) (e : Option JSON) :
    checkEnum path (string s) e = .ok () ↔ ∀ xs ∈ e, string s ∈ items xs ∧
      ∀ x ∈ (items xs).takeWhile (fun x => x ≠ string s), x.isString = true := by
  cases e with
  | none => simp [checkEnum]
  | some xs =>
    simp only [Option.mem_def, Option.some.injEq, forall_eq']
    rw [← inEnum_true_iff path, checkEnum]
    cases inEnum path (string s) (items xs) with
    | error err => simp [bind, Except.bind]
    | ok b => cases b <;> simp [bind, Except.bind]

/-- For a text at type `string` the check throws or passes. -/
theorem checkKind_string (path s : Str) (view : ParamView) :
    (checkKind path (txt "string") view (string s) = .ok true ↔ view.Lists s) ∧
      checkKind path (txt "string") view (string s) ≠ .ok false := by
  simp only [checkKind, if_true, ParamView.Lists]
  cases henum : view.enum with
  | error err => simp [bind, Except.bind]
  | ok e =>
    have hiff := checkEnum_string_iff path s e
    simp only [bind, Except.bind, Except.ok.injEq, exists_eq_left']
    rw [← hiff]
    cases checkEnum path (string s) e with
    | error err => simp
    | ok u => simp

theorem checkKind_true_iff :
    checkKind path type view v = .ok true ↔ view.AdmitsKind type v := by
  cases v with
  | string s =>
    by_cases ht : type = txt "string"
    · rw [ht, (checkKind_string path s view).1]
      simp [ParamView.AdmitsKind]
    · simp [checkKind, ParamView.AdmitsKind, ht]
  | _ => simp [checkKind, ParamView.AdmitsKind]

theorem checkKind_ok_iff : (∃ b, checkKind path type view v = .ok b) ↔
    ∀ s, v = string s → type = txt "string" → view.Lists s := by
  cases v with
  | string s =>
    by_cases ht : type = txt "string"
    · obtain ⟨hlists, hfalse⟩ := checkKind_string path s view
      simp only [JSON.string.injEq, forall_eq', ht, forall_const, ← hlists]
      exact ⟨fun ⟨b, hb⟩ => by cases b; exacts [absurd hb hfalse, hb], fun h => ⟨true, h⟩⟩
    · simp [checkKind, ht]
  | _ => simp [checkKind]

theorem checkRange_true_iff : checkRange type view v n = .ok true ↔
    (Ranged type → ∃ x, (compared type v n).seen = some x ∧ view.InRange x) := by
  by_cases ht : Ranged type
  · simp only [checkRange, if_neg ht, ht, forall_const, ParamView.InRange]
    rw [← compared]
    cases hlo : fetchInt view.min with
    | error e => simp [bind, Except.bind]
    | ok lo =>
      cases hhi : fetchInt view.max with
      | error e => simp [bind, Except.bind]
      | ok hi =>
        simp only [bind, Except.bind, Except.ok.injEq]
        cases hx : (compared type v n).seen with
        | none => simp [compare_notNumber hx]
        | some x =>
          rw [compare_ofInt hx (fetchInt_range hlo) (fetchInt_range hhi)]
          simp
  · have hfree := not_not.mp ht
    simp [checkRange, hfree, ht]

theorem checkRange_ok_iff : (∃ b, checkRange type view v n = .ok b) ↔
    (Ranged type → ∃ lo hi : ℤ, fetchInt view.min = .ok lo ∧ fetchInt view.max = .ok hi) := by
  by_cases ht : Ranged type
  · simp only [checkRange, if_neg ht, ht, forall_const]
    cases fetchInt view.min with
    | error e => simp [bind, Except.bind]
    | ok lo => cases fetchInt view.max <;> simp [bind, Except.bind]
  · have hfree := not_not.mp ht
    simp [checkRange, hfree, ht]

/-- Without a type there is no verdict. -/
theorem checkParam_ok_typed {b : Bool} (h : checkParam path view v n = .ok b) :
    ∃ type, view.type = some (string type) ∧ type ≠ [] := by
  cases htype : view.type with
  | none => simp [checkParam, htype, fetchString, bind, Except.bind] at h
  | some w =>
    cases w with
    | string type =>
      refine ⟨type, rfl, ?_⟩
      rintro rfl
      simp [checkParam, htype, fetchString, getString, bind, Except.bind] at h
    | _ => simp [checkParam, htype, fetchString, getString, bind, Except.bind] at h

theorem checkParam_true_iff :
    checkParam path view v n = .ok true ↔ view.Admits v n := by
  constructor
  · intro h
    obtain ⟨type, htype, hne⟩ := checkParam_ok_typed h
    rw [checkParam_typed v n htype hne] at h
    cases hkind : checkKind path type view v with
    | error e => simp [hkind, bind, Except.bind] at h
    | ok b =>
      cases b with
      | false => simp [hkind, bind, Except.bind] at h
      | true =>
        simp only [hkind, bind, Except.bind, if_true] at h
        exact ⟨type, htype, hne, checkKind_true_iff.mp hkind, checkRange_true_iff.mp h⟩
  · rintro ⟨type, htype, hne, hkind, hrange⟩
    rw [checkParam_typed v n htype hne, checkKind_true_iff.mpr hkind]
    simpa [bind, Except.bind] using checkRange_true_iff.mpr hrange

theorem checkParam_ok_iff :
    (∃ b, checkParam path view v n = .ok b) ↔ view.Readable v := by
  constructor
  · rintro ⟨b, h⟩
    obtain ⟨type, htype, hne⟩ := checkParam_ok_typed h
    rw [checkParam_typed v n htype hne] at h
    cases hkind : checkKind path type view v with
    | error e => simp [hkind, bind, Except.bind] at h
    | ok kind =>
      refine ⟨type, htype, hne, checkKind_ok_iff.mp ⟨kind, hkind⟩, ?_⟩
      intro hadmits
      rw [checkKind_true_iff.mpr hadmits, Except.ok.injEq] at hkind
      subst hkind
      simp only [checkKind_true_iff.mpr hadmits, bind, Except.bind, if_true] at h
      exact checkRange_ok_iff.mp ⟨b, h⟩
  · rintro ⟨type, htype, hne, hlists, hbounds⟩
    obtain ⟨kind, hkind⟩ : ∃ b, checkKind path type view v = .ok b := checkKind_ok_iff.mpr hlists
    rw [checkParam_typed v n htype hne, hkind]
    cases kind with
    | false => exact ⟨false, rfl⟩
    | true => exact checkRange_ok_iff.mpr (hbounds (checkKind_true_iff.mp hkind))

end Check

/-- A description that the text of a path leads to admits a value. Below `ForDebug` everything is
admitted. -/
def AdmittedAt (c : JSON) (prmKeyPath : Str) (v : JSON) (n : ℕ) : Prop :=
  txt "/ForDebug" <+: chopped prmKeyPath ∨ (viewAt c (chopped prmKeyPath)).Admits v n

def ReadableAt (c : JSON) (prmKeyPath : Str) (v : JSON) : Prop :=
  txt "/ForDebug" <+: chopped prmKeyPath ∨ (viewAt c (chopped prmKeyPath)).Readable v

theorem validateForOne_true_iff {c : JSON} {prmKeyPath : Str} {v : JSON} {n : ℕ} :
    validateForOne c prmKeyPath v n = .ok true ↔ AdmittedAt c prmKeyPath v n := by
  rw [AdmittedAt]
  by_cases hdebug : txt "/ForDebug" <+: chopped prmKeyPath
  · simp [validateForOne_debug v n hdebug, hdebug]
  · rw [validateForOne_checked v n hdebug, checkParam_true_iff]
    simp [hdebug]

theorem validateForOne_ok_iff {c : JSON} {prmKeyPath : Str} {v : JSON} {n : ℕ} :
    (∃ b, validateForOne c prmKeyPath v n = .ok b) ↔ ReadableAt c prmKeyPath v := by
  rw [ReadableAt]
  by_cases hdebug : txt "/ForDebug" <+: chopped prmKeyPath
  · simp [validateForOne_debug v n hdebug, hdebug]
  · rw [validateForOne_checked v n hdebug, checkParam_ok_iff]
    simp [hdebug]

theorem validateForOne_false_iff {c : JSON} {prmKeyPath : Str} {v : JSON} {n : ℕ} :
    validateForOne c prmKeyPath v n = .ok false ↔
      ReadableAt c prmKeyPath v ∧ ¬ AdmittedAt c prmKeyPath v n := by
  rw [← validateForOne_true_iff, ← validateForOne_ok_iff (n := n)]
  cases validateForOne c prmKeyPath v n with
  | error e => simp
  | ok b => cases b <;> simp

end ToolkitCpp.Config

import ToolkitCpp.ConfigBounds
import ToolkitCpp.ConfigPresence
import ToolkitCpp.ConfigWalk

/-!
# Validation as a recursion over the document

The intended meaning of `validateAndReplaceConfig` for constraints without maps and arrays:
values that pass their description are kept, the others are replaced by what the old
configuration holds at the same position, and everything the constraint does not allow is
rejected. The validator is compared with it.
-/
namespace ToolkitCpp.Config

open Json JSON Segments

/-- `x` lies between the written bounds of a description. -/
def inBounds (d : Members) (x : ℚ) : Bool :=
  match (d.lookup (txt "Min")).bind number?, (d.lookup (txt "Max")).bind number? with
  | some lo, some hi => decide (lo ≤ x ∧ x ≤ hi)
  | _, _ => false

def numericType (d : Members) : Bool :=
  typeOf d == some (txt "int") || typeOf d == some (txt "float")

/-- A value passes its description. -/
def passes (d : Members) : JSON → Bool
  | null => typeOf d == some (txt "object") ||
      ((typeOf d == some (txt "string") || typeOf d == some (txt "bool")) &&
        (valueJson d (txt "Default")).isNull)
  | boolean _ => typeOf d == some (txt "bool")
  | integer i => numericType d && inBounds d i.toInt
  | unsigned n => numericType d && inBounds d n.toNat
  | float q => typeOf d == some (txt "float") && inBounds d q
  | string _ => typeOf d == some (txt "string")
  | array _ => false
  | object _ => typeOf d == some (txt "object")

/-- A text that the `Enum` of its parameter does not list. -/
def outsideEnum (d : Members) : JSON → Bool
  | string s => typeOf d == some (txt "string") &&
      match d.lookup (txt "Enum") with
      | some e => decide (string s ∉ items e)
      | none => false
  | _ => false

/-- An integer of at least `2 ^ 63` whose signed reading lies between the bounds. -/
def wrapped (d : Members) : JSON → Bool
  | unsigned n => decide (2 ^ 63 ≤ n.toNat) && numericType d && inBounds d (toSigned n)
  | _ => false

section Specification

variable (keep : Members → JSON → Bool)

mutual

/-- The value at a position with description `desc` and old value `old`; rejection is `none`. -/
def specValue (desc old : Option JSON) : JSON → Option JSON
  | object kvs =>
      match desc with
      | some (object d) =>
          if keep d (object kvs) then (specMembers d old kvs).map object else old
      | _ => none
  | v =>
      match desc with
      | some (object d) =>
          if outsideEnum d v then none else if keep d v then some v else old
      | _ => none

def specMembers (cs : Members) (old : Option JSON) : Members → Option Members
  | [] => some []
  | (k, v) :: rest =>
      match specValue (cs.lookup k) (old.bind (·.member? k)) v, specMembers cs old rest with
      | some v', some rest' => some ((k, v') :: rest')
      | _, _ => none

end

theorem specValue_object (desc old : Option JSON) (kvs : Members) :
    specValue keep desc old (object kvs) =
      match desc with
      | some (object d) =>
          if keep d (object kvs) then (specMembers keep d old kvs).map object else old
      | _ => none := by
  cases desc with
  | none => simp [specValue]
  | some d => cases d <;> simp [specValue]

theorem specValue_primitive {v : JSON} (hv : v.isPrimitive = true) (desc old : Option JSON) :
    specValue keep desc old v =
      match desc with
      | some (object d) =>
          if outsideEnum d v then none else if keep d v then some v else old
      | _ => none := by
  cases v <;> cases desc <;> simp_all [specValue, isPrimitive]

/-- The specification of a whole call. -/
def specConfig (cs kvs : Members) (old : JSON) : Option JSON :=
  if presentMembers cs (some (object kvs)) then (specMembers keep cs (some old) kvs).map object
  else none

end Specification

/-- A call agrees with the specification: it ends with the specified configuration, or with a
`config_error` where the specification rejects. -/
def Agrees : Except Exc JSON → Option JSON → Prop
  | .ok r, some s => r = s
  | .error (.config _), none => True
  | _, _ => False

mutual

/-- Every integer that only passes in its signed reading is what the old configuration holds
at that position. -/
def wrapsMatch (desc old : Option JSON) : JSON → Prop
  | object kvs =>
      match desc with
      | some (object d) => passes d (object kvs) = true → wrapsMatchMembers d old kvs
      | _ => True
  | v =>
      match desc with
      | some (object d) => passes d v = false → wrapped d v = true → old = some v
      | _ => True

def wrapsMatchMembers (cs : Members) (old : Option JSON) : Members → Prop
  | [] => True
  | (k, v) :: rest =>
      wrapsMatch (cs.lookup k) (old.bind (·.member? k)) v ∧ wrapsMatchMembers cs old rest

end

/-- A value is kept by the signed reading as well. -/
def tolerates (d : Members) (v : JSON) : Bool := passes d v || wrapped d v

/-- A bound that is an integer of the `int` range. -/
def intBound (d : Members) (field : Str) : Bool :=
  match d.lookup field with
  | some (integer i) => decide (-2 ^ 31 ≤ i.toInt ∧ i.toInt < 2 ^ 31)
  | some (unsigned n) => decide (n.toNat < 2 ^ 31)
  | _ => false

/-- A description of one of the five types: only an object parameter holds further
descriptions, numbers have integer bounds and an `Enum` is an array. -/
def scalarDesc (d : Members) : Bool :=
  typeOf d == some (txt "object") ||
    ((typeOf d == some (txt "string") || typeOf d == some (txt "bool") ||
        (numericType d && intBound d (txt "Min") && intBound d (txt "Max"))) &&
      d.all (fun e => !e.2.isObject) && ((d.lookup (txt "Enum")).all isArray))

mutual

def scalarValue : JSON → Bool
  | object d => scalarDesc d && scalarMembers d
  | array xs => xs.all isString
  | _ => true

def scalarMembers : Members → Bool
  | [] => true
  | (_, v) :: rest => scalarValue v && scalarMembers rest

end

mutual

def arrayFree : JSON → Bool
  | array _ => false
  | object kvs => arrayFreeMembers kvs
  | _ => true

def arrayFreeMembers : Members → Bool
  | [] => true
  | (_, v) :: rest => arrayFree v && arrayFreeMembers rest

end

/-- A plain key outside the debug section. -/
def scalarKey (k : Str) : Bool := plainKey k && !decide (txt "ForDebug" <+: k)

/-- The calls the specification is about: the members of the constraint, of the new and of
the old configuration. -/
structure ScalarCase (cs kvs okvs : Members) : Prop where
  constraint_valid : (object cs).valid = true
  constraint_keys : keysAll scalarKey (object cs) = true
  constraint_scalar : scalarMembers cs = true
  default_ok : ∃ D, getDefaultConfig (object cs) = .ok D
  new_valid : (object kvs).valid = true
  new_keys : keysAll scalarKey (object kvs) = true
  new_arrayFree : arrayFree (object kvs) = true
  old_valid : (object okvs).valid = true
  old_keys : keysAll scalarKey (object okvs) = true
  old_arrayFree : arrayFree (object okvs) = true

theorem scalarMembers_mem {kvs : Members} {k : Str} {v : JSON} (h : scalarMembers kvs = true)
    (hm : (k, v) ∈ kvs) : scalarValue v = true := by
  refine mem_of_all (A := fun kvs => scalarMembers kvs = true) (B := fun _ v => scalarValue v = true) ?_ h hm
  intro l w rest hall
  simp only [scalarMembers, Bool.and_eq_true] at hall
  exact hall

section Checks

variable {d : Members} {t : Str}

theorem numericType_of_type (ht : typeOf d = some t) (hnum : t = txt "int" ∨ t = txt "float") :
    numericType d = true := by
  rcases hnum with rfl | rfl <;> simp [numericType, ht]

theorem typeOf_eq (h : typeOf d = some t) : d.lookup (txt "Type") = some (string t) := by
  rw [typeOf] at h
  split at h
  · next hl =>
    rw [hl]
    simpa using h
  · simp at h

theorem descView_type (h : typeOf d = some t) : (descView d).type = some (string t) := by
  simp [descView, scalarField, typeOf_eq h, leaf, leafAt]

/-- A bound of the `int` range is fetched as it is written. -/
theorem intBound_fetch {field : Str} (h : intBound d field = true) :
    ∃ m : ℤ, fetchInt (scalarField d field) = .ok m ∧
      (d.lookup field).bind number? = some (m : ℚ) ∧ -2 ^ 31 ≤ m ∧ m < 2 ^ 31 := by
  rw [intBound] at h
  split at h
  · next i hl =>
    have hr := of_decide_eq_true h
    refine ⟨i.toInt, ?_, by simp [hl, number?], hr.1, hr.2⟩
    simp [scalarField, hl, leaf, leafAt, fetchInt, getInt, int32_of_range hr]
  · next n hl =>
    have hr := of_decide_eq_true h
    refine ⟨n.toNat, ?_, by simp [hl, number?], by omega, by omega⟩
    have hwrap := int32_of_range (i := n.toNat) ⟨by omega, by omega⟩
    simp [scalarField, hl, leaf, leafAt, fetchInt, getInt, hwrap]
  · simp at h

theorem compare_null (lo hi : ℤ) : (!(gt null (ofInt hi) || lt null (ofInt lo))) = false := rfl

/-- A number between two bounds of the `int` range, in its own and in its signed reading. -/
theorem seen_eq {v : JSON} {lo hi : ℤ} (hhi : hi < 2 ^ 31)
    (hmin : (d.lookup (txt "Min")).bind number? = some (lo : ℚ))
    (hmax : (d.lookup (txt "Max")).bind number? = some (hi : ℚ)) (hnum : numericType d = true)
    {x y : ℚ} (hx : v.number? = some x) (hy : v.seen = some y) :
    decide ((lo : ℚ) ≤ y ∧ y ≤ hi) = (inBounds d x || wrapped d v) := by
  have hb : ∀ z, inBounds d z = decide ((lo : ℚ) ≤ z ∧ z ≤ hi) := by
    intro z
    simp only [inBounds, hmin, hmax]
  cases v with
  | unsigned n =>
    cases hx
    cases hy
    rw [wrapped, hnum, hb, hb]
    rcases Nat.lt_or_ge n.toNat (2 ^ 63) with hn | hn
    · rw [toSigned_of_lt hn, decide_eq_false (Nat.not_le.mpr hn)]
      simp
    · have hbig : ¬ ((n.toNat : ℚ) ≤ hi) := by
        intro hle
        have : ((n.toNat : ℤ) : ℚ) ≤ hi := hle
        norm_cast at this
        omega
      rw [decide_eq_true (p := 2 ^ 63 ≤ n.toNat) hn]
      simp [hbig]
  | integer i =>
    cases hx
    cases hy
    simp [hb, wrapped]
  | float q =>
    cases hx
    cases hy
    simp [hb, wrapped]
  | _ => simp [number?] at hx

theorem scalarDesc_cases (h : scalarDesc d = true) :
    ∃ t, typeOf d = some t ∧ (t = txt "object" ∨
      ((t = txt "string" ∨ t = txt "bool" ∨ ((t = txt "int" ∨ t = txt "float") ∧
          intBound d (txt "Min") = true ∧ intBound d (txt "Max") = true)) ∧
        (∀ e ∈ d, e.2.isObject = false) ∧ (∀ e, d.lookup (txt "Enum") = some e → e.isArray))) := by
  cases ht : typeOf d with
  | none => simp [scalarDesc, numericType, ht] at h
  | some t =>
    refine ⟨t, rfl, ?_⟩
    simp only [scalarDesc, numericType, ht, Bool.or_eq_true, Bool.and_eq_true, beq_iff_eq,
      Option.some.injEq, List.all_eq_true, Bool.not_eq_true', Option.all_eq_true] at h
    rcases h with h | ⟨⟨h1, h2⟩, h3⟩
    · exact .inl h
    · refine .inr ⟨?_, h2, h3⟩
      rcases h1 with (h1 | h1) | ⟨⟨h1, hmin⟩, hmax⟩
      · exact .inl h1
      · exact .inr (.inl h1)
      · exact .inr (.inr ⟨h1, hmin, hmax⟩)

theorem inEnum_strings {path : Str} {s : Str} {es : List JSON} (h : es.all isString = true) :
    inEnum path (string s) es = .ok (decide (string s ∈ es)) := by
  induction es with
  | nil => rfl
  | cons e es ih =>
    simp only [List.all_cons, Bool.and_eq_true] at h
    cases e with
    | string u =>
      rw [inEnum, ih h.2, eqv_string]
      by_cases hu : u = s
      · simp [isString, hu]
      · simp [isString, hu, Ne.symm hu]
    | _ => simp [isString] at h

theorem dflt_isNull (hobj : ∀ e ∈ d, e.2.isObject = false) (hreq : requiredMembers d) :
    ((descView d).dflt.getD null).isNull = (valueJson d (txt "Default")).isNull := by
  simp only [descView, scalarField, valueJson]
  cases hl : d.lookup (txt "Default") with
  | none => rfl
  | some v =>
    have hv := hobj _ (lookup_mem hl)
    have hkey := requiredMembers_mem hreq (lookup_mem hl)
    cases v with
    | object kvs => simp [isObject] at hv
    | array xs =>
      have hname : txt "Default" = txt "Enum" := hkey
      exact absurd hname (by decide)
    | _ => rfl

theorem checkEnum_scalar (henum : ∀ e, d.lookup (txt "Enum") = some e → e.isArray)
    (hs : scalarMembers d = true) (path s : Str) :
    (outsideEnum d (string s) = true → typeOf d = some (txt "string") →
      ∃ what, checkEnum path (string s) (d.lookup (txt "Enum")) = .error (.config what)) ∧
    (outsideEnum d (string s) = false → typeOf d = some (txt "string") →
      checkEnum path (string s) (d.lookup (txt "Enum")) = .ok ()) := by
  cases hl : d.lookup (txt "Enum") with
  | none => simp [outsideEnum, hl, checkEnum]
  | some e =>
    cases e with
    | array es =>
      have hes : es.all isString = true := scalarMembers_mem hs (lookup_mem hl)
      rw [checkEnum, items, inEnum_strings hes]
      by_cases hin : string s ∈ es
      · simp [outsideEnum, hl, items, hin, bind, Except.bind]
      · simp [outsideEnum, hl, items, hin, bind, Except.bind]
    | _ => exact absurd (henum _ hl) (by simp [isArray])

/-- The check throws at a text outside the enumeration and otherwise tells what is
tolerated. -/
def CheckTells (path : Str) (d : Members) (v : JSON) (size : ℕ) : Prop :=
  (outsideEnum d v = true →
    ∃ what, checkParam path (descView d) v size = .error (.config what)) ∧
  (outsideEnum d v = false → checkParam path (descView d) v size = .ok (tolerates d v))

/-- A value of a kind that the type does not admit. -/
theorem checkTells_refused {t path : Str} {v : JSON} (ht : typeOf d = some t) (hne : t ≠ [])
    (hkind : checkKind path t (descView d) v = .ok false) (hout : outsideEnum d v = false)
    (htol : tolerates d v = false) (size : ℕ) : CheckTells path d v size := by
  refine ⟨fun h => absurd (hout.symm.trans h) Bool.false_ne_true, fun _ => ?_⟩
  rw [checkParam_typed v size (descView_type ht) hne, hkind, htol]
  rfl

/-- A value of a kind that the type admits: the range decides. -/
theorem checkTells_ranged {t path : Str} {v : JSON} {size : ℕ} (ht : typeOf d = some t)
    (hne : t ≠ []) (hkind : checkKind path t (descView d) v = .ok true)
    (hout : outsideEnum d v = false)
    (hrange : checkRange t (descView d) v size = .ok (tolerates d v)) :
    CheckTells path d v size := by
  refine ⟨fun h => absurd (hout.symm.trans h) Bool.false_ne_true, fun _ => ?_⟩
  rw [checkParam_typed v size (descView_type ht) hne, hkind, ← hrange]
  rfl

theorem checkNull_scalar {t : Str} (hcase : t = txt "string" ∨ t = txt "bool")
    (ht : typeOf d = some t) (hobj : ∀ e ∈ d, e.2.isObject = false) (hreq : requiredMembers d)
    (path : Str) (size : ℕ) : CheckTells path d null size := by
  have hnull := dflt_isNull hobj hreq
  have hne : t ≠ [] := by rcases hcase with rfl | rfl <;> decide
  have hkind : checkKind path t (descView d) null = .ok (valueJson d (txt "Default")).isNull := by
    rcases hcase with rfl | rfl <;> simp [checkKind, hnull]
  have htol : tolerates d null = (valueJson d (txt "Default")).isNull := by
    rcases hcase with rfl | rfl <;> simp [tolerates, passes, wrapped, ht]
  have hrange : checkRange t (descView d) null size = .ok true :=
    if_pos (by rcases hcase with rfl | rfl <;> decide)
  cases hd : (valueJson d (txt "Default")).isNull with
  | false => exact checkTells_refused ht hne (hd ▸ hkind) rfl (hd ▸ htol) size
  | true => exact checkTells_ranged ht hne (hd ▸ hkind) rfl (by rw [hrange, htol, hd])

theorem checkParam_object (ht : typeOf d = some (txt "object")) {v : JSON}
    (hv : v.isArray = false) (path : Str) (size : ℕ) : CheckTells path d v size := by
  have hne : txt "object" ≠ [] := by decide
  have hrange : ∀ v, checkRange (txt "object") (descView d) v size = .ok true :=
    fun v => if_pos (by decide)
  cases v with
  | array xs => exact Bool.noConfusion hv
  | null =>
    exact checkTells_ranged ht hne (by simp [checkKind]) rfl
      (by simp [hrange, tolerates, passes, ht])
  | object kvs =>
    exact checkTells_ranged ht hne (by simp [checkKind]) rfl
      (by simp [hrange, tolerates, passes, ht])
  | string s =>
    exact checkTells_refused ht hne (by simp [checkKind]) (by simp [outsideEnum, ht])
      (by simp [tolerates, passes, wrapped, ht]) size
  | _ =>
    exact checkTells_refused ht hne (by simp [checkKind]) rfl
      (by simp [tolerates, passes, wrapped, numericType, ht]) size

theorem checkParam_string (ht : typeOf d = some (txt "string"))
    (hobj : ∀ e ∈ d, e.2.isObject = false)
    (henum : ∀ e, d.lookup (txt "Enum") = some e → e.isArray) (hs : scalarMembers d = true)
    (hreq : requiredMembers d) {v : JSON} (hv : v.isArray = false) (path : Str) (size : ℕ) :
    CheckTells path d v size := by
  have hne : txt "string" ≠ [] := by decide
  cases v with
  | array xs => exact Bool.noConfusion hv
  | null => exact checkNull_scalar (.inl rfl) ht hobj hreq path size
  | string s =>
    rw [CheckTells, checkParam_typed _ size (descView_type ht) hne]
    have hcheck := checkEnum_scalar henum hs path s
    constructor
    · intro hout
      obtain ⟨what, hwhat⟩ := hcheck.1 hout ht
      exact ⟨what, by simp [checkKind, descView, hwhat, bind, Except.bind]⟩
    · intro hin
      have hok := hcheck.2 hin ht
      simp [checkKind, checkRange, descView, hok, bind, Except.bind, tolerates, passes, ht]
  | _ =>
    exact checkTells_refused ht hne (by simp [checkKind]) rfl
      (by simp [tolerates, passes, wrapped, numericType, ht]) size

theorem checkParam_bool (ht : typeOf d = some (txt "bool"))
    (hobj : ∀ e ∈ d, e.2.isObject = false) (hreq : requiredMembers d) {v : JSON}
    (hv : v.isArray = false) (path : Str) (size : ℕ) : CheckTells path d v size := by
  have hne : txt "bool" ≠ [] := by decide
  cases v with
  | array xs => exact Bool.noConfusion hv
  | null => exact checkNull_scalar (.inr rfl) ht hobj hreq path size
  | boolean b =>
    have hrange : checkRange (txt "bool") (descView d) (boolean b) size = .ok true :=
      if_pos (by decide)
    exact checkTells_ranged ht hne (by simp [checkKind]) rfl
      (by simp [hrange, tolerates, passes, ht])
  | string s =>
    exact checkTells_refused ht hne (by simp [checkKind]) (by simp [outsideEnum, ht])
      (by simp [tolerates, passes, wrapped, ht]) size
  | _ =>
    exact checkTells_refused ht hne (by simp [checkKind]) rfl
      (by simp [tolerates, passes, wrapped, numericType, ht]) size

theorem checkRange_bounds {t : Str} {lo hi : ℤ} (ht : t = txt "int" ∨ t = txt "float")
    (hlo : fetchInt (scalarField d (txt "Min")) = .ok lo)
    (hhi : fetchInt (scalarField d (txt "Max")) = .ok hi) (v : JSON) (size : ℕ) :
    checkRange t (descView d) v size = .ok (!(gt v (ofInt hi) || lt v (ofInt lo))) := by
  have hranged : ¬ (t = txt "string" ∨ t = txt "object" ∨ t = txt "bool") := by
    rcases ht with rfl | rfl <;> decide
  have hscalar : ¬ (txt "array." <+: t ∨ txt "map." <+: t) := by
    rcases ht with rfl | rfl <;> decide
  simp only [checkRange, if_neg hranged, if_neg hscalar, descView, hlo, hhi]
  rfl

theorem checkParam_number {t : Str} (ht : typeOf d = some t)
    (hnum : t = txt "int" ∨ t = txt "float") (hmin : intBound d (txt "Min") = true)
    (hmax : intBound d (txt "Max") = true) {v : JSON} (hv : v.isArray = false) (path : Str)
    (size : ℕ) : CheckTells path d v size := by
  have hne : t ≠ [] := by rcases hnum with rfl | rfl <;> decide
  obtain ⟨lo, hlo, hlo', hlor⟩ := intBound_fetch hmin
  obtain ⟨hi, hhi, hhi', hhir⟩ := intBound_fetch hmax
  have hnt := numericType_of_type ht hnum
  have hrange : ∀ v, checkRange t (descView d) v size =
      .ok (!(gt v (ofInt hi) || lt v (ofInt lo))) :=
    fun v => checkRange_bounds hnum hlo hhi v size
  have hnumber : ∀ {v x y}, v.number? = some x → v.seen = some y →
      checkRange t (descView d) v size = .ok (inBounds d x || wrapped d v) := by
    intro v x y hx hy
    rw [hrange, compare_ofInt hy hlor hhir, seen_eq hhir.2 hlo' hhi' hnt hx hy]
  cases v with
  | array xs => exact Bool.noConfusion hv
  | integer i =>
    refine checkTells_ranged ht hne (by simp [checkKind, hnum]) rfl ?_
    rw [hnumber rfl rfl, tolerates, passes, hnt, Bool.true_and]
  | unsigned n =>
    refine checkTells_ranged ht hne (by simp [checkKind, hnum]) rfl ?_
    rw [hnumber rfl rfl, tolerates, passes, hnt, Bool.true_and]
  | float q =>
    rcases hnum with rfl | rfl
    · exact checkTells_refused ht hne (by simp [checkKind]) rfl
        (by simp [tolerates, passes, wrapped, ht]) size
    · refine checkTells_ranged ht hne (by simp [checkKind]) rfl ?_
      rw [hnumber rfl rfl, tolerates, passes, ht, beq_self_eq_true, Bool.true_and]
  | null =>
    -- Null may be of an admitted kind, but is below every bound.
    have htol : tolerates d null = false := by
      rcases hnum with rfl | rfl <;> simp [tolerates, passes, wrapped, ht]
    have hkind : checkKind path t (descView d) null =
        .ok (decide (t = txt "object") || ((descView d).dflt.getD null).isNull) := rfl
    cases hnull : decide (t = txt "object") || ((descView d).dflt.getD null).isNull with
    | false => exact checkTells_refused ht hne (hnull ▸ hkind) rfl htol size
    | true =>
      refine checkTells_ranged ht hne (hnull ▸ hkind) rfl ?_
      rw [hrange, compare_null, htol]
  | string s =>
    rcases hnum with rfl | rfl
    · exact checkTells_refused ht hne (by simp [checkKind]) (by simp [outsideEnum, ht])
        (by simp [tolerates, passes, wrapped, ht]) size
    · exact checkTells_refused ht hne (by simp [checkKind]) (by simp [outsideEnum, ht])
        (by simp [tolerates, passes, wrapped, ht]) size
  | _ =>
    rcases hnum with rfl | rfl
    · exact checkTells_refused ht hne (by simp [checkKind]) rfl
        (by simp [tolerates, passes, wrapped, ht]) size
    · exact checkTells_refused ht hne (by simp [checkKind]) rfl
        (by simp [tolerates, passes, wrapped, ht]) size

/-- The check of a value against a description of one of the five types. -/
theorem checkParam_scalar (hd : scalarDesc d = true) (hs : scalarMembers d = true)
    (hreq : requiredMembers d) {v : JSON} (hv : v.isArray = false) (path : Str) (size : ℕ) :
    CheckTells path d v size := by
  obtain ⟨t, ht, hcases⟩ := scalarDesc_cases hd
  rcases hcases with rfl | ⟨rfl | rfl | ⟨hnum, hmin, hmax⟩, hobj, henum⟩
  · exact checkParam_object ht hv path size
  · exact checkParam_string ht hobj henum hs hreq hv path size
  · exact checkParam_bool ht hobj hreq hv path size
  · exact checkParam_number ht hnum hmin hmax hv path size

end Checks

theorem scalarKey_iff {k : Str} :
    scalarKey k = true ↔ plainKey k = true ∧ ¬ txt "ForDebug" <+: k := by
  simp [scalarKey]

def ScalarPath (p : List Str) : Prop := ∀ k ∈ p, scalarKey k = true

theorem ScalarPath.plain {p : List Str} (h : ScalarPath p) : PlainPath p :=
  fun k hk => (scalarKey_iff.mp (h k hk)).1

theorem ScalarPath.concat {p : List Str} {k : Str} (hp : ScalarPath p)
    (hk : scalarKey k = true) : ScalarPath (p ++ [k]) := by
  intro l hl
  rcases List.mem_append.mp hl with hl | hl
  · exact hp l hl
  · rw [List.mem_singleton.mp hl]
    exact hk

/-- A text without a slash that starts a path starts its first token. -/
theorem head_of_prefix_pathOf {t s : Str} {ss : List Str} (ht : '/' ∉ t)
    (h : t <+: s ++ pathOf ss) : t <+: s := by
  rcases pathOf_cut ss with hnil | hslash
  · rwa [hnil, List.append_nil] at h
  · obtain ⟨y, hy⟩ := h
    rcases List.append_eq_append_iff.mp hy with ⟨m, hm, -⟩ | ⟨m, hm, hrest⟩
    · exact ⟨m, hm.symm⟩
    · cases m with
      | nil => exact ⟨[], by simpa using hm⟩
      | cons e m =>
        -- what the text has behind the token starts with the slash of the next one
        rw [hrest, List.cons_append, List.head?_cons, Option.some.injEq] at hslash
        have hmem : '/' ∈ t := by
          rw [hm, hslash]
          simp
        exact absurd hmem ht

theorem ScalarPath.not_debug {p : List Str} (h : ScalarPath p) :
    ¬ txt "/ForDebug" <+: pathOf p := by
  cases p with
  | nil => decide
  | cons s ss =>
    intro hpre
    have hcut : txt "/ForDebug" = '/' :: txt "ForDebug" := rfl
    rw [hcut, pathOf_cons, List.cons_prefix_cons] at hpre
    have hs := scalarKey_iff.mp (h s (by simp))
    exact hs.2 (head_of_prefix_pathOf (by decide) hpre.2)

/-- The members `cs` that describe what lies below position `p` of the constraint. -/
structure Descends (c : JSON) (p : List Str) (cs : Members) : Prop where
  node : nodeAt c p = some (object cs)
  path : ScalarPath p
  scalar : scalarMembers cs = true
  required : requiredMembers cs
  isObject : p ≠ [] → typeOf cs = some (txt "object")

section Walk

variable {c O D : JSON}

/-- The type of the parent is no type of entries. -/
theorem Descends.parentType {p : List Str} {cs : Members} (h : Regular c)
    (hd : Descends c p cs) {k : Str} (hk : scalarKey k = true) :
    ∃ t, typeText c (parentOf p k) = .ok t ∧ t ≠ txt "map.object" ∧ t ≠ txt "array.object" := by
  have hdesc : ∀ {q d t}, nodeAt c q = some (object d) → typeOf d = some t →
      typeText c q = .ok t := by
    intro q d t hn ht
    rw [typeText, viewAt_described h hn, descView_type ht]
    rfl
  by_cases hp : p = []
  · rw [parentOf, if_pos hp]
    have hroot : nodeAt c [k] = (cs.lookup k).bind some := by
      have hc := hd.node
      rw [hp, nodeAt, Option.some.injEq] at hc
      rw [hc]
      rfl
    have hslash := (ScalarPath.concat (p := []) (by simp [ScalarPath]) hk).plain.tokens.slashFree
    cases hl : cs.lookup k with
    | none =>
      refine ⟨[], typeText_undescribed h hslash ?_, by decide, by decide⟩
      rw [hroot, hl]
      simp
    | some w =>
      cases w with
      | object d =>
        have hvalue : scalarDesc d = true := by
          have := scalarMembers_mem hd.scalar (lookup_mem hl)
          rw [scalarValue, Bool.and_eq_true] at this
          exact this.1
        obtain ⟨t, ht, hcases⟩ := scalarDesc_cases hvalue
        refine ⟨t, hdesc (by rw [hroot, hl]; rfl) ht, ?_⟩
        rcases hcases with rfl | ⟨rfl | rfl | ⟨rfl | rfl, -⟩, -⟩ <;> decide
      | _ =>
        refine ⟨[], typeText_undescribed h hslash ?_, by decide, by decide⟩
        rw [hroot, hl]
        simp
  · rw [parentOf, if_neg hp]
    exact ⟨_, hdesc hd.node (hd.isObject hp), by decide, by decide⟩

theorem nodeAt_child {j : JSON} {p : List Str} {kvs : Members} (h : nodeAt j p = some (object kvs))
    (k : Str) : nodeAt j (p ++ [k]) = kvs.lookup k := by
  rw [nodeAt_append, h, Option.bind_some, nodeAt, member?]
  cases kvs.lookup k <;> rfl

theorem parent_exists {M w : JSON} {p : List Str} {k : Str} (h : nodeAt M (p ++ [k]) = some w) :
    ∃ u, nodeAt M (parentOf p k) = some u := by
  rw [parentOf]
  split_ifs with hp
  · exact ⟨w, by rw [hp] at h; exact h⟩
  · rw [nodeAt_append, Option.bind_eq_some_iff] at h
    obtain ⟨u, hu, -⟩ := h
    exact ⟨u, hu⟩

variable {M w : JSON} {p : List Str} {cs : Members} {k : Str}

/-- The step at a member: where it is placed and what it is checked against. -/
theorem Descends.step (h : Regular c) (hd : Descends c p cs) (hk : scalarKey k = true)
    (hM : M.member? [] = none) (hlive : nodeAt M (p ++ [k]) = some w) :
    ∃ pl size, place c (dirs '/' p) k none = .ok pl ∧ pl.key = k ∧
      (pl.typeParent ≠ txt "map.object" ∧ pl.typeParent ≠ txt "array.object") ∧
      ∀ v, verdict c M pl v = match cs.lookup k with
        | some (object d) => checkParam (pathOf (p ++ [k])) (descView d) v size
        | _ => .error (undeclared (p ++ [k])) := by
  obtain ⟨t, ht, hmap, harr⟩ := hd.parentType h hk
  obtain ⟨u, hu⟩ := parent_exists hlive
  have hpk := hd.path.concat hk
  have hplain := (scalarKey_iff.mp hk).1
  have hparent : Names ('/' :: dirs '/' (parentOf p k)) (parentOf p k) :=
    .inr (pathOf_dirs _).symm
  refine ⟨_, u.size, place_member hd.path.plain hplain ht (fun he => absurd he hmap), rfl,
    ⟨hmap, harr⟩, ?_⟩
  intro v
  rw [verdict_at h hM hparent (parentOf_plain hd.path.plain hplain).tokens
    (parentOf_ne_nil p k) hu hpk.plain (.inl rfl) v, checkAt, if_neg hpk.not_debug]
  have hnode := nodeAt_child hd.node k
  cases hl : cs.lookup k with
  | none => simp [hnode, hl]
  | some w => cases w <;> simp [hnode, hl]

theorem Descends.undeclared_member (h : Regular c) (hd : Descends c p cs)
    (hk : scalarKey k = true) (hM : M.member? [] = none)
    (hlive : nodeAt M (p ++ [k]) = some w) (hdesc : ∀ d, cs.lookup k ≠ some (object d))
    (v : JSON) : anyParamProc c M O (dirs '/' p) k none v = .error (undeclared (p ++ [k])) := by
  obtain ⟨pl, size, hpl, -, -, hverdict⟩ := hd.step h hk hM hlive
  apply anyParamProc_error hpl
  rw [hverdict]
  split
  · next d hl => exact absurd hl (hdesc d)
  · rfl

/-- The step at a declared member, by what its description says about the value. -/
theorem Descends.declared_member (h : Regular c) (hD : getDefaultConfig c = .ok D)
    (hO : O.member? [] = none) (hd : Descends c p cs) (hk : scalarKey k = true)
    (hM : M.member? [] = none) (hlive : nodeAt M (p ++ [k]) = some w) {d : Members}
    (hdesc : cs.lookup k = some (object d)) {v : JSON} (hv : v.isArray = false) :
    (outsideEnum d v = true →
      ∃ what, anyParamProc c M O (dirs '/' p) k none v = .error (.config what)) ∧
    (outsideEnum d v = false → tolerates d v = true →
      anyParamProc c M O (dirs '/' p) k none v =
        .ok (if v.empty then (false, k, M) else (true, k ++ ['/'], M))) ∧
    (outsideEnum d v = false → tolerates d v = false →
      match nodeAt O (p ++ [k]) with
      | some o => anyParamProc c M O (dirs '/' p) k none v =
          .ok (false, k, setAt o (p ++ [k]) M)
      | none => ∃ what, anyParamProc c M O (dirs '/' p) k none v = .error (.config what)) := by
  obtain ⟨pl, size, hpl, hkey, hentries, hverdict⟩ := hd.step h hk hM hlive
  have hplain := (scalarKey_iff.mp hk).1
  have hvalue := scalarMembers_mem hd.scalar (lookup_mem hdesc)
  rw [scalarValue, Bool.and_eq_true] at hvalue
  have hreq := requiredMembers_mem hd.required (lookup_mem hdesc)
  have hcheck := checkParam_scalar hvalue.1 hvalue.2 hreq.2 hv (pathOf (p ++ [k])) size
  have hver : verdict c M pl v = checkParam (pathOf (p ++ [k])) (descView d) v size := by
    rw [hverdict, hdesc]
  refine ⟨?_, ?_, ?_⟩
  · intro hout
    obtain ⟨what, hwhat⟩ := hcheck.1 hout
    exact ⟨what, anyParamProc_error hpl (hver.trans hwhat)⟩
  · intro hin htol
    have hok : verdict c M pl v = .ok true := by rw [hver, hcheck.2 hin, htol]
    have hne : pl.key ≠ [] := by
      rw [hkey]
      exact (plainKey_iff.mp hplain).1
    rw [anyParamProc_pass hpl hok hne, hkey]
  · intro hin htol
    have hno : verdict c M pl v = .ok false := by rw [hver, hcheck.2 hin, htol]
    rw [anyParamProc_fail hpl hno]
    cases ho : nodeAt O (p ++ [k]) with
    | some o =>
      dsimp only
      rw [replaceParam_old hD hO hM hd.path.plain hplain ho hlive, hkey]
      rfl
    | none =>
      dsimp only
      rw [replaceParam_none hD hd.path.plain hplain ho hentries]
      exact ⟨_, rfl⟩

/-- A run ends as specified, with the specified part put into the configuration. -/
def Follows {α : Type} (run : Except Exc JSON) (spec : Option α) (result : α → JSON) : Prop :=
  match spec with
  | some a => run = .ok (result a)
  | none => ∃ what, run = .error (.config what)

theorem Descends.child (hd : Descends c p cs) (hk : scalarKey k = true) {d : Members}
    (hl : cs.lookup k = some (object d)) (htype : typeOf d = some (txt "object")) :
    Descends c (p ++ [k]) d := by
  have hvalue := scalarMembers_mem hd.scalar (lookup_mem hl)
  rw [scalarValue, Bool.and_eq_true] at hvalue
  exact ⟨(nodeAt_child hd.node k).trans hl, hd.path.concat hk, hvalue.2,
    (requiredMembers_mem hd.required (lookup_mem hl)).2, fun _ => htype⟩

theorem tolerates_object {d kvs : Members} : tolerates d (object kvs) = true ↔
    typeOf d = some (txt "object") := by
  simp [tolerates, passes, wrapped]

/-- A value that is no container is checked once. -/
theorem jogValue_scalar (h : Regular c) (hD : getDefaultConfig c = .ok D)
    (hO : O.member? [] = none) (hd : Descends c p cs) (hk : scalarKey k = true)
    (hM : M.member? [] = none) {v : JSON} (hlive : nodeAt M (p ++ [k]) = some v)
    (hprim : v.isPrimitive = true) :
    Follows (jogValue c O (dirs '/' p) k v M)
      (specValue tolerates (cs.lookup k) (nodeAt O (p ++ [k])) v)
      (fun v' => setAt v' (p ++ [k]) M) := by
  have hrun : jogValue c O (dirs '/' p) k v M =
      (anyParamProc c M O (dirs '/' p) k none v).bind fun r => .ok r.2.2 := by
    cases v <;> simp_all [jogValue, isPrimitive, bind]
  have hstay : setAt v (p ++ [k]) M = M := (setAt_eq_self v hlive).mpr rfl
  have hv : v.isArray = false := by
    cases v <;> simp_all [isArray, isPrimitive]
  rw [hrun, specValue_primitive tolerates hprim]
  split
  · next d hdesc =>
    obtain ⟨hout, hkeep, hrep⟩ := hd.declared_member h hD hO hk hM hlive hdesc hv
    by_cases he : outsideEnum d v = true
    · rw [if_pos he]
      obtain ⟨what, hwhat⟩ := hout he
      exact ⟨what, by rw [hwhat]; rfl⟩
    · rw [if_neg he]
      have he' : outsideEnum d v = false := by simpa using he
      by_cases ht : tolerates d v = true
      · rw [if_pos ht, hkeep he' ht]
        simp only [Follows, hstay]
        cases v.empty <;> rfl
      · rw [if_neg ht]
        have hfail := hrep he' (by simpa using ht)
        cases ho : nodeAt O (p ++ [k]) with
        | some o =>
          simp only [ho] at hfail
          simp only [Follows, hfail]
          rfl
        | none =>
          simp only [ho] at hfail
          obtain ⟨what, hwhat⟩ := hfail
          exact ⟨what, by rw [hwhat]; rfl⟩
  · next hdesc =>
    rw [hd.undeclared_member h hk hM hlive (fun d hl => hdesc d hl)]
    exact ⟨_, rfl⟩

theorem nodeAt_concat (j : JSON) (p : List Str) (k : Str) :
    nodeAt j (p ++ [k]) = (nodeAt j p).bind (·.member? k) := by
  rw [nodeAt_append]
  congr 1
  funext u
  cases hm : u.member? k <;> simp [nodeAt, hm]

/-- What `jogMembers` has done after one member: the member is replaced in place. -/
theorem setAt_member {M v : JSON} {p : List Str} {done rest : Members} {k : Str}
    (hM : nodeAt M p = some (object (done ++ (k, v) :: rest)))
    (hk : k ∉ done.map Prod.fst) (v' : JSON) :
    setAt v' (p ++ [k]) M = setAt (object ((done ++ [(k, v')]) ++ rest)) p M := by
  rw [setAt_append hM, setAt, update_at _ hk, setAt]
  simp

mutual

theorem jogValue_follows (h : Regular c) (hD : getDefaultConfig c = .ok D)
    (hO : O.member? [] = none) : ∀ (v : JSON) {p : List Str} {k : Str} {cs : Members} {M : JSON},
    Descends c p cs → scalarKey k = true → M.member? [] = none →
    nodeAt M (p ++ [k]) = some v → keysAll scalarKey v = true → arrayFree v = true →
    v.valid = true →
    Follows (jogValue c O (dirs '/' p) k v M)
      (specValue tolerates (cs.lookup k) (nodeAt O (p ++ [k])) v)
      (fun v' => setAt v' (p ++ [k]) M)
  | object kvs, p, k, cs, M, hd, hk, hM, hlive, hkeys, harr, hvalid => by
      have hstay : setAt (object kvs) (p ++ [k]) M = M := (setAt_eq_self _ hlive).mpr rfl
      have hdirs : dirs '/' p ++ (k ++ ['/']) = dirs '/' (p ++ [k]) := by simp
      rw [jogValue, specValue_object]
      split
      · next d hdesc =>
        obtain ⟨-, hkeep, hrep⟩ := hd.declared_member h hD hO hk hM hlive hdesc
          (v := object kvs) rfl
        by_cases ht : tolerates d (object kvs) = true
        · rw [if_pos ht, hkeep rfl ht]
          cases kvs with
          | nil =>
            simp only [specMembers, Option.map_some, Follows, hstay]
            rfl
          | cons e rest =>
            have hchild := hd.child hk hdesc (tolerates_object.mp ht)
            have hstart : nodeAt M (p ++ [k]) = some (object ([] ++ e :: rest)) := hlive
            have hrec := jogMembers_follows h hD hO (e :: rest) hchild hM hstart
              (valid_nodup hvalid) hkeys harr (valid_members hvalid)
            simp only [Follows, bind, Except.bind, JSON.empty, JSON.size, List.length_cons,
              Nat.succ_ne_zero, beq_iff_eq, if_false, if_true, hdirs] at hrec ⊢
            cases hs : specMembers tolerates d (nodeAt O (p ++ [k])) (e :: rest) with
            | some kvs' =>
              rw [hs] at hrec
              exact hrec
            | none =>
              rw [hs] at hrec
              exact hrec
        · rw [if_neg ht]
          have hfail := hrep rfl (by simpa using ht)
          cases ho : nodeAt O (p ++ [k]) with
          | some o =>
            simp only [ho] at hfail
            simp only [Follows, hfail]
            rfl
          | none =>
            simp only [ho] at hfail
            obtain ⟨what, hwhat⟩ := hfail
            exact ⟨what, by rw [hwhat]; rfl⟩
      · next hdesc =>
        rw [hd.undeclared_member h hk hM hlive (fun d hl => hdesc d hl)]
        exact ⟨_, rfl⟩
  | array _, _, _, _, _, _, _, _, _, _, harr, _ => by simp [arrayFree] at harr
  | null, _, _, _, _, hd, hk, hM, hlive, _, _, _ => jogValue_scalar h hD hO hd hk hM hlive rfl
  | boolean _, _, _, _, _, hd, hk, hM, hlive, _, _, _ => jogValue_scalar h hD hO hd hk hM hlive rfl
  | integer _, _, _, _, _, hd, hk, hM, hlive, _, _, _ => jogValue_scalar h hD hO hd hk hM hlive rfl
  | unsigned _, _, _, _, _, hd, hk, hM, hlive, _, _, _ => jogValue_scalar h hD hO hd hk hM hlive rfl
  | float _, _, _, _, _, hd, hk, hM, hlive, _, _, _ => jogValue_scalar h hD hO hd hk hM hlive rfl
  | string _, _, _, _, _, hd, hk, hM, hlive, _, _, _ => jogValue_scalar h hD hO hd hk hM hlive rfl
termination_by structural v => v

theorem jogMembers_follows (h : Regular c) (hD : getDefaultConfig c = .ok D)
    (hO : O.member? [] = none) : ∀ (kvs : Members) {p : List Str} {cs done : Members} {M : JSON},
    Descends c p cs → M.member? [] = none → nodeAt M p = some (object (done ++ kvs)) →
    ((done ++ kvs).map Prod.fst).Nodup → keysAllMembers scalarKey kvs = true →
    arrayFreeMembers kvs = true → validMembers kvs = true →
    Follows (jogMembers c O (dirs '/' p) kvs M) (specMembers tolerates cs (nodeAt O p) kvs)
      (fun kvs' => setAt (object (done ++ kvs')) p M)
  | [], p, cs, done, M, hd, hM, hlive, hnd, hkeys, harr, hvalid => by
      have hstay := (setAt_eq_self _ hlive).mpr rfl
      simp only [jogMembers, specMembers, Follows, hstay]
  | (k, v) :: rest, p, cs, done, M, hd, hM, hlive, hnd, hkeys, harr, hvalid => by
      simp only [keysAllMembers, arrayFreeMembers, validMembers, Bool.and_eq_true]
        at hkeys harr hvalid
      have hkdone : k ∉ done.map Prod.fst := by
        intro hmem
        rw [List.map_append, List.map_cons, List.nodup_append] at hnd
        exact hnd.2.2 _ hmem _ (by simp) rfl
      have hnode : nodeAt M (p ++ [k]) = some v := by
        rw [nodeAt_child hlive]
        exact lookup_eq_some_of_mem hnd (by simp)
      have hhead := jogValue_follows h hD hO v hd hkeys.1.1 hM hnode hkeys.1.2 harr.1 hvalid.1
      rw [jogMembers, specMembers, ← nodeAt_concat]
      cases hs : specValue tolerates (cs.lookup k) (nodeAt O (p ++ [k])) v with
      | none =>
        rw [hs] at hhead
        obtain ⟨what, hwhat⟩ := hhead
        exact ⟨what, by rw [hwhat]; rfl⟩
      | some v' =>
        rw [hs] at hhead
        have hset := setAt_member hlive hkdone v'
        have hhead' : jogValue c O (dirs '/' p) k v M =
            .ok (setAt (object ((done ++ [(k, v')]) ++ rest)) p M) := by
          rw [← hset]
          exact hhead
        have hM' : (setAt (object ((done ++ [(k, v')]) ++ rest)) p M).member? [] = none := by
          rw [← hset]
          exact setAt_root (by simp) (hd.path.concat hkeys.1.1).plain.tokens.ne_nil hM v'
        have hnd' : (((done ++ [(k, v')]) ++ rest).map Prod.fst).Nodup := by
          simpa using hnd
        have htail := jogMembers_follows h hD hO rest hd hM' (nodeAt_setAt hlive _) hnd'
          hkeys.2 harr.2 hvalid.2
        rw [hhead']
        simp only [bind, Except.bind]
        cases ht : specMembers tolerates cs (nodeAt O p) rest with
        | none =>
          rw [ht] at htail
          exact htail
        | some rest' =>
          rw [ht] at htail
          simp only [Follows, setAt_setAt hlive] at htail ⊢
          rw [htail]
          simp
termination_by structural kvs => kvs

end

end Walk

theorem wrapsMatch_object (desc old : Option JSON) (kvs : Members) :
    wrapsMatch desc old (object kvs) ↔
      ∀ d, desc = some (object d) → passes d (object kvs) = true → wrapsMatchMembers d old kvs := by
  cases desc with
  | none => simp [wrapsMatch]
  | some d => cases d <;> simp [wrapsMatch]

theorem wrapsMatch_primitive {v : JSON} (hv : v.isPrimitive = true) (desc old : Option JSON) :
    wrapsMatch desc old v ↔
      ∀ d, desc = some (object d) → passes d v = false → wrapped d v = true → old = some v := by
  have hmatch : wrapsMatch desc old v = match desc with
      | some (object d) => passes d v = false → wrapped d v = true → old = some v
      | _ => True := by
    cases v with
    | object kvs => exact Bool.noConfusion hv
    | _ => rfl
  rw [hmatch]
  split
  · next d =>
    constructor
    · intro h d' hd
      cases hd
      exact h
    · intro h
      exact h d rfl
  · next hother =>
    rw [true_iff]
    intro d hd
    exact absurd hd (hother d)

/-- Reading integers as signed ones only lets more values through, and the result is the same
exactly when those values would be replaced by themselves. -/
theorem specValue_strict_primitive {v : JSON} (hv : v.isPrimitive = true)
    (desc old : Option JSON) :
    (specValue tolerates desc old v = none → specValue passes desc old v = none) ∧
    (∀ r, specValue tolerates desc old v = some r →
      (specValue passes desc old v = some r ↔ wrapsMatch desc old v)) := by
  rw [specValue_primitive _ hv, specValue_primitive _ hv, wrapsMatch_primitive hv]
  split
  · next d =>
    by_cases he : outsideEnum d v = true
    · simp [he]
    · simp only [he, Bool.false_eq_true, if_false, Option.some.injEq, JSON.object.injEq,
        forall_eq']
      cases hp : passes d v <;> cases hw : wrapped d v <;> simp [tolerates, hp, hw]
  · simp

mutual

theorem specValue_strict (cs old : Option JSON) : ∀ v : JSON,
    (specValue tolerates cs old v = none → specValue passes cs old v = none) ∧
    (∀ r, specValue tolerates cs old v = some r →
      (specValue passes cs old v = some r ↔ wrapsMatch cs old v))
  | object kvs => by
      rw [specValue_object, specValue_object, wrapsMatch_object]
      split
      · next d =>
        have hobj : tolerates d (object kvs) = passes d (object kvs) := by
          simp [tolerates, wrapped]
        simp only [hobj, Option.some.injEq, JSON.object.injEq, forall_eq']
        obtain ⟨hnone, hsome⟩ := specMembers_strict d old kvs
        cases hp : passes d (object kvs) with
        | false => simp
        | true =>
          simp only [if_true, Option.map_eq_none_iff, Option.map_eq_some_iff, true_implies]
          refine ⟨hnone, ?_⟩
          rintro r ⟨kvs', hkvs', rfl⟩
          rw [← hsome kvs' hkvs']
          simp
      · simp
  | array _ => by
      cases cs with
      | none => simp [specValue, wrapsMatch]
      | some d =>
        cases d <;> simp [specValue, wrapsMatch, tolerates, passes, wrapped, outsideEnum]
  | null => specValue_strict_primitive rfl cs old
  | boolean _ => specValue_strict_primitive rfl cs old
  | integer _ => specValue_strict_primitive rfl cs old
  | unsigned _ => specValue_strict_primitive rfl cs old
  | float _ => specValue_strict_primitive rfl cs old
  | string _ => specValue_strict_primitive rfl cs old

theorem specMembers_strict (cs : Members) (old : Option JSON) : ∀ kvs : Members,
    (specMembers tolerates cs old kvs = none → specMembers passes cs old kvs = none) ∧
    (∀ r, specMembers tolerates cs old kvs = some r →
      (specMembers passes cs old kvs = some r ↔ wrapsMatchMembers cs old kvs))
  | [] => by simp [specMembers, wrapsMatchMembers]
  | (k, v) :: rest => by
      obtain ⟨hnone, hsome⟩ := specValue_strict (cs.lookup k) (old.bind (·.member? k)) v
      obtain ⟨hnone', hsome'⟩ := specMembers_strict cs old rest
      simp only [specMembers, wrapsMatchMembers]
      cases ht : specValue tolerates (cs.lookup k) (old.bind (·.member? k)) v with
      | none => simp [hnone ht]
      | some v' =>
        rw [← hsome v' ht]
        cases ht' : specMembers tolerates cs old rest with
        | none => simp [hnone' ht']
        | some rest' =>
          rw [← hsome' rest' ht']
          cases specValue passes (cs.lookup k) (old.bind (·.member? k)) v <;>
            cases specMembers passes cs old rest <;> simp

end

mutual

theorem arraysFlat_of_scalar : ∀ {v : JSON}, scalarValue v = true → arraysFlat v = true
  | object d, h => by
      rw [scalarValue, Bool.and_eq_true] at h
      exact arraysFlatMembers_of_scalar h.2
  | array xs, h => by
      rw [scalarValue, List.all_eq_true] at h
      rw [arraysFlat, List.all_eq_true]
      intro x hx
      have hs := h x hx
      cases x <;> simp_all [isString, isPrimitive]
  | null, _ => rfl
  | boolean _, _ => rfl
  | integer _, _ => rfl
  | unsigned _, _ => rfl
  | float _, _ => rfl
  | string _, _ => rfl

theorem arraysFlatMembers_of_scalar : ∀ {kvs : Members},
    scalarMembers kvs = true → arraysFlatMembers kvs = true
  | [], _ => rfl
  | (_, v) :: rest, h => by
      rw [scalarMembers, Bool.and_eq_true] at h
      rw [arraysFlatMembers, arraysFlat_of_scalar h.1, arraysFlatMembers_of_scalar h.2]
      rfl

end

theorem ScalarCase.regular {cs kvs okvs : Members} (H : ScalarCase cs kvs okvs) :
    Regular (object cs) :=
  ⟨H.constraint_valid, keysAll_mono (fun _ hk => (scalarKey_iff.mp hk).1) H.constraint_keys,
    arraysFlatMembers_of_scalar H.constraint_scalar⟩

/-- The validator computes the specification with integers read as signed ones. -/
theorem ScalarCase.follows {cs kvs okvs : Members} (H : ScalarCase cs kvs okvs) :
    Follows (validateAndReplaceConfig (object cs) (object kvs) (object okvs))
      (specConfig tolerates cs kvs (object okvs)) id := by
  obtain ⟨D, hD⟩ := H.default_ok
  have hreq := required_of_default hD
  have hplain : ∀ {j}, keysAll scalarKey j = true → j.member? [] = none := fun hj =>
    member_nil (keysAll_mono (fun _ hk => (scalarKey_iff.mp hk).1) hj)
  have hroot : Descends (object cs) [] cs :=
    ⟨rfl, by simp [ScalarPath], H.constraint_scalar, hreq, by simp⟩
  have hlost := checkLostMembers_eq (N := object kvs) hreq H.regular.plain
    (p := []) (by simp [PlainPath])
  have hstart : nodeAt (object kvs) [] = some (object ([] ++ kvs)) := rfl
  have hwalk := jogMembers_follows H.regular hD (hplain H.old_keys) kvs hroot
    (hplain H.new_keys) hstart (valid_nodup H.new_valid) H.new_keys H.new_arrayFree
    (valid_members H.new_valid)
  rw [validateAndReplaceConfig, checkLostParamInConfig, recurseJogConfig, specConfig]
  cases hpres : presentMembers cs (some (object kvs)) with
  | false =>
    obtain ⟨what, hwhat⟩ := hlost.2 hpres
    exact ⟨what, by rw [membersOf]; rw [show ([] : Str) = dirs '/' [] from rfl, hwhat]; rfl⟩
  | true =>
    have hok := hlost.1 hpres
    rw [dirs_nil] at hok hwalk
    simp only [membersOf, hok, bind, Except.bind, if_true]
    cases hs : specMembers tolerates cs (some (object okvs)) kvs with
    | none =>
      rw [show nodeAt (object okvs) [] = some (object okvs) from rfl, hs] at hwalk
      exact hwalk
    | some kvs' =>
      rw [show nodeAt (object okvs) [] = some (object okvs) from rfl, hs] at hwalk
      exact hwalk

theorem Follows.agrees {run : Except Exc JSON} {spec : Option JSON} (h : Follows run spec id) :
    (spec = none → ∃ what, run = .error (.config what)) ∧ (∀ r, spec = some r → run = .ok r) := by
  cases spec with
  | none => exact ⟨fun _ => h, by simp⟩
  | some s =>
    refine ⟨by simp, ?_⟩
    rintro r ⟨⟩
    exact h

/-- Outside maps and arrays the validator agrees with the specification exactly when no large
unsigned integer passes in its signed reading only, unless such integers are what the old
configuration holds anyway or the configuration is rejected for another reason. -/
theorem validateAndReplaceConfig_agrees_iff {cs kvs okvs : Members}
    (H : ScalarCase cs kvs okvs) :
    Agrees (validateAndReplaceConfig (object cs) (object kvs) (object okvs))
        (specConfig passes cs kvs (object okvs)) ↔
      specConfig tolerates cs kvs (object okvs) = none ∨
        wrapsMatchMembers cs (some (object okvs)) kvs := by
  obtain ⟨hnone, hsome⟩ := H.follows.agrees
  obtain ⟨hstrict, hsame⟩ := specMembers_strict cs (some (object okvs)) kvs
  cases hspec : specConfig tolerates cs kvs (object okvs) with
  | none =>
    obtain ⟨what, hwhat⟩ := hnone hspec
    have hreject : specConfig passes cs kvs (object okvs) = none := by
      rw [specConfig] at hspec ⊢
      split_ifs at hspec ⊢ with hpres
      · rw [Option.map_eq_none_iff] at hspec ⊢
        exact hstrict hspec
      · rfl
    simp [hwhat, hreject, Agrees]
  | some r =>
    have hagree : ∀ s, Agrees (.ok r) s ↔ s = some r := by
      intro s
      cases s with
      | none => simp [Agrees]
      | some s => simp [Agrees, eq_comm]
    rw [hsome r hspec, hagree]
    rw [specConfig] at hspec ⊢
    split_ifs at hspec ⊢ with hpres
    rw [Option.map_eq_some_iff] at hspec
    obtain ⟨kvs', hkvs', rfl⟩ := hspec
    rw [← hsame kvs' hkvs']
    simp

/-- One integer parameter from -5 to 5. -/
def rangeConstraint : Members :=
  [(txt "A", object (fields "int" (unsigned 0) (unsigned 5) (integer (-5))))]

theorem validateAndReplaceConfig_agrees_iff_replaced :
    ScalarCase rangeConstraint [(txt "A", unsigned 9)] [(txt "A", integer (-1))] ∧
    Agrees (validateAndReplaceConfig (object rangeConstraint) (object [(txt "A", unsigned 9)])
        (object [(txt "A", integer (-1))]))
      (specConfig passes rangeConstraint [(txt "A", unsigned 9)]
        (object [(txt "A", integer (-1))])) := by
  have hcase : ScalarCase rangeConstraint [(txt "A", unsigned 9)] [(txt "A", integer (-1))] :=
    ⟨by decide, by decide, by decide, ⟨object [(txt "A", unsigned 0)], by decide⟩, by decide,
      by decide, by decide, by decide, by decide, by decide⟩
  refine ⟨hcase, (validateAndReplaceConfig_agrees_iff hcase).mpr (.inr ⟨?_, trivial⟩)⟩
  intro _ hwrapped
  exact absurd hwrapped (by decide)

/-- The largest unsigned integer is read as -1 and kept. -/
theorem validateAndReplaceConfig_keeps_wrapped :
    ScalarCase rangeConstraint [(txt "A", unsigned 18446744073709551615)]
      [(txt "A", unsigned 0)] ∧
    ¬ Agrees (validateAndReplaceConfig (object rangeConstraint)
          (object [(txt "A", unsigned 18446744073709551615)]) (object [(txt "A", unsigned 0)]))
        (specConfig passes rangeConstraint [(txt "A", unsigned 18446744073709551615)]
          (object [(txt "A", unsigned 0)])) := by
  refine ⟨⟨by decide, by decide, by decide, ⟨object [(txt "A", unsigned 0)], by decide⟩,
    by decide, by decide, by decide, by decide, by decide, by decide⟩, ?_⟩
  have hrun : validateAndReplaceConfig (object rangeConstraint)
      (object [(txt "A", unsigned 18446744073709551615)]) (object [(txt "A", unsigned 0)]) =
        .ok (object [(txt "A", unsigned 18446744073709551615)]) := by decide
  have hspec : specConfig passes rangeConstraint [(txt "A", unsigned 18446744073709551615)]
      (object [(txt "A", unsigned 0)]) = some (object [(txt "A", unsigned 0)]) := by decide
  rw [hrun, hspec, Agrees]
  decide

end ToolkitCpp.Config

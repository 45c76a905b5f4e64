import Mathlib.Tactic.Linarith
import ToolkitCpp.ConfigValidator

/-!
# Bounds of numeric parameters

`checkOnRequiredKeys` compares a default with `Min` and `Max` as they stand in the constraint.
`validateForOne` fetches both as `int` and compares in the signed kind. This module determines
the numeric parameters for which the two agree with the range written in the constraint.
-/
namespace ToolkitCpp.Config

open Json JSON

def intType : Str := txt "int"

def floatType : Str := txt "float"

/-- A description with the given fields, in key order. -/
def fields (type : String) (dflt max min : JSON) : Members :=
  [(txt "Default", dflt), (txt "Max", max), (txt "Min", min),
    (txt "Type", string (txt type))]

/-- The scalar fields of the description `desc` are what the flattened constraint holds below
`keyPath`. -/
def Declared (c : JSON) (keyPath : Str) (desc : Members) : Prop :=
  ∀ field ∈ [txt "Type", txt "Min", txt "Max", txt "Default"],
    (flatten c).lookup (keyPath ++ '/' :: field) = desc.lookup field

instance (c : JSON) (keyPath : Str) (desc : Members) : Decidable (Declared c keyPath desc) :=
  inferInstanceAs (Decidable (∀ _ ∈ _, _))

/-- A parameter of type int or float with numeric bounds that passes
`checkOnRequiredKeys`. -/
structure NumericParam (c : JSON) (keyPath : Str) where
  desc : Members
  type : Str
  minField : JSON
  maxField : JSON
  min : ℚ
  max : ℚ
  numeric : type = intType ∨ type = floatType
  declared : Declared c (chopped keyPath) desc
  type_eq : desc.lookup (txt "Type") = some (string type)
  minField_eq : desc.lookup (txt "Min") = some minField
  maxField_eq : desc.lookup (txt "Max") = some maxField
  min_eq : minField.number? = some min
  max_eq : maxField.number? = some max
  required : checkOnRequiredKeys keyPath desc = .ok ()

/-- Numbers a type admits: a fraction only where the type is float. -/
def Admitted (type : Str) (v : JSON) : Prop :=
  v.isNumber = true ∧ (v.isNumberFloat = true → type = floatType)

theorem checkParam_typed {prmKeyPath type : Str} {view : ParamView} (v : JSON) (size : ℕ)
    (htype : view.type = some (string type)) (hne : type ≠ []) :
    checkParam prmKeyPath view v size = (do
      let kindOk ← checkKind prmKeyPath type view v
      if kindOk then checkRange type view v size else .ok false) := by
  simp only [checkParam, htype, fetchString, getString]
  simp only [bind, Except.bind, if_neg hne]

theorem validateForOne_debug {c : JSON} {keyPath : Str} (v : JSON) (size : ℕ)
    (hdebug : txt "/ForDebug" <+: chopped keyPath) :
    validateForOne c keyPath v size = .ok true := by
  simp only [validateForOne, if_pos hdebug]

theorem validateForOne_checked {c : JSON} {keyPath : Str} (v : JSON) (size : ℕ)
    (hdebug : ¬ txt "/ForDebug" <+: chopped keyPath) :
    validateForOne c keyPath v size =
      checkParam (chopped keyPath) (viewAt c (chopped keyPath)) v size := by
  simp only [validateForOne, if_neg hdebug]

/-- The comparison with two bounds of the `int` range. -/
theorem compare_ofInt {v : JSON} {x : ℚ} {lo hi : ℤ} (h : v.seen = some x)
    (hlo : -2 ^ 31 ≤ lo ∧ lo < 2 ^ 31) (hhi : -2 ^ 31 ≤ hi ∧ hi < 2 ^ 31) :
    (!(gt v (ofInt hi) || lt v (ofInt lo))) = decide ((lo : ℚ) ≤ x ∧ x ≤ hi) := by
  rw [gt_of_operands (operands_ofInt h hhi), lt_of_operands (operands_ofInt h hlo)]
  by_cases h1 : (lo : ℚ) ≤ x <;> by_cases h2 : x ≤ hi <;> simp [h1, h2, not_lt.mpr, not_le.mp]

theorem getInt_ceil {j : JSON} {x : ℚ} (hx : j.number? = some x)
    (hwhole : (∃ z : ℤ, x = z) ∨ -1 < x ∧ x < 0) (hlo : 0 ≤ ⌈x⌉) (hhi : ⌈x⌉ < 2 ^ 31) :
    j.getInt = .ok ⌈x⌉ := by
  cases j with
  | integer i =>
    simp only [number?, Option.some.injEq] at hx
    subst hx
    rw [Int.ceil_intCast] at hlo hhi ⊢
    rw [getInt, int32_of_range ⟨by omega, hhi⟩]
  | unsigned n =>
    simp only [number?, Option.some.injEq] at hx
    subst hx
    rw [Int.ceil_natCast] at hlo hhi ⊢
    rw [getInt, int32_of_range ⟨by omega, hhi⟩]
  | float q =>
    simp only [number?, Option.some.injEq] at hx
    subst hx
    have htrunc : truncate q = ⌈q⌉ := by
      rcases hwhole with ⟨z, rfl⟩ | ⟨-, hneg⟩
      · rw [truncate_intCast, Int.ceil_intCast]
      · exact truncate_of_nonpos hneg.le
    rw [getInt, htrunc, if_pos ⟨by omega, hhi⟩]
  | _ => simp [number?] at hx

theorem getInt_floor {j : JSON} {x : ℚ} (hx : j.number? = some x)
    (hlo : 0 ≤ ⌊x⌋) (hhi : ⌊x⌋ < 2 ^ 31) : j.getInt = .ok ⌊x⌋ := by
  cases j with
  | integer i =>
    simp only [number?, Option.some.injEq] at hx
    subst hx
    rw [Int.floor_intCast] at hlo hhi ⊢
    rw [getInt, int32_of_range ⟨by omega, hhi⟩]
  | unsigned n =>
    simp only [number?, Option.some.injEq] at hx
    subst hx
    rw [Int.floor_natCast] at hlo hhi ⊢
    rw [getInt, int32_of_range ⟨by omega, hhi⟩]
  | float q =>
    simp only [number?, Option.some.injEq] at hx
    subst hx
    rw [getInt, truncate_of_nonneg (Int.floor_nonneg.mp hlo), if_pos ⟨by omega, hhi⟩]
  | _ => simp [number?] at hx

/-- A lower bound that is converted to its own ceiling lost no fraction, or lies just below
zero. -/
theorem whole_of_getInt_ceil {j : JSON} {x : ℚ} (hx : j.number? = some x)
    (hget : j.getInt = .ok ⌈x⌉) (hlo : 0 ≤ ⌈x⌉) : (∃ z : ℤ, x = z) ∨ -1 < x ∧ x < 0 := by
  cases j with
  | integer i =>
    simp only [number?, Option.some.injEq] at hx
    exact .inl ⟨_, hx.symm⟩
  | unsigned n =>
    simp only [number?, Option.some.injEq] at hx
    exact .inl ⟨n.toNat, by rw [← hx]; rfl⟩
  | float q =>
    simp only [number?, Option.some.injEq] at hx
    subst hx
    rcases lt_or_ge q 0 with hneg | hpos
    · refine .inr ⟨?_, hneg⟩
      have hgt : (-1 : ℤ) < ⌈q⌉ := by omega
      exact_mod_cast Int.lt_ceil.mp hgt
    · left
      rw [getInt, truncate_of_nonneg hpos] at hget
      split_ifs at hget
      rw [Except.ok.injEq] at hget
      refine ⟨⌊q⌋, le_antisymm ?_ (Int.floor_le q)⟩
      rw [hget]
      exact Int.le_ceil q
  | _ => simp [number?] at hx

theorem ofInt_number {k : ℤ} (hlo : -2 ^ 63 ≤ k) (hhi : k < 2 ^ 63) :
    (ofInt k).number? = some (k : ℚ) ∧ (ofInt k).seen = some (k : ℚ) := by
  simp [ofInt, number?, seen, toInt_ofInt hlo hhi]

theorem ofNat_number {n : ℕ} (hlo : 2 ^ 63 ≤ n) (hhi : n < 2 ^ 64) :
    (ofSize n).number? = some (n : ℚ) ∧ (ofSize n).seen = some (((n : ℤ) - 2 ^ 64 : ℤ) : ℚ) := by
  have hn : (UInt64.ofNat n).toNat = n := UInt64.toNat_ofNat_of_lt hhi
  have hs : toSigned (UInt64.ofNat n) = n - 2 ^ 64 := by
    rw [toSigned_of_ge (by omega), hn]
  simp [ofSize, number?, seen, hn, hs]

namespace NumericParam

variable {c : JSON} {keyPath : Str} (P : NumericParam c keyPath)

/-- The accepted values of the parameter are exactly those within its written bounds, and a
default other than null is accepted. -/
def ExactRange : Prop :=
  (∀ v x size, Admitted P.type v → v.number? = some x →
    (validateForOne c keyPath v size = .ok true ↔ P.min ≤ x ∧ x ≤ P.max)) ∧
  (∀ d size, P.desc.lookup (txt "Default") = some d → d ≠ null →
    validateForOne c keyPath d size = .ok true)

/-- Below `/ForDebug` nothing is checked. -/
def Debug (_ : NumericParam c keyPath) : Prop := txt "/ForDebug" <+: chopped keyPath

instance : Decidable P.Debug := inferInstanceAs (Decidable (_ <+: _))

/-- The bounds survive the conversion to `int` and exclude negative numbers. -/
def Representable : Prop :=
  (P.type = intType ∧ ((∃ z : ℤ, P.min = z) ∨ -1 < P.min ∧ P.min < 0) ∧
    0 ≤ ⌈P.min⌉ ∧ ⌈P.min⌉ ≤ ⌊P.max⌋ ∧ ⌊P.max⌋ < 2 ^ 31) ∨
  (P.type = floatType ∧ ∃ lo hi : ℤ, P.min = lo ∧ P.max = hi ∧ 0 ≤ lo ∧ lo ≤ hi ∧ hi < 2 ^ 31)

/-- No admitted number lies within the bounds, and the converted bounds leave none either. -/
def Vacant : Prop :=
  (∀ v x, Admitted P.type v → v.number? = some x → ¬ (P.min ≤ x ∧ x ≤ P.max)) ∧
  (∀ lo hi, P.minField.getInt = .ok lo → P.maxField.getInt = .ok hi → hi < lo)

/-- The default is null or an admitted number within the bounds. -/
def DefaultFits : Prop :=
  ∀ d, P.desc.lookup (txt "Default") = some d → d ≠ null →
    Admitted P.type d ∧ ∃ x, d.number? = some x ∧ P.min ≤ x ∧ x ≤ P.max

variable {P}

theorem type_ne_nil : P.type ≠ [] := by
  rcases P.numeric with h | h <;> rw [h] <;> decide

theorem view_type : (viewAt c (chopped keyPath)).type = some (string P.type) :=
  (P.declared (txt "Type") (by simp)).trans P.type_eq

theorem type_ranged : ¬ (P.type = txt "string" ∨ P.type = txt "object" ∨
    P.type = txt "bool") := by
  rcases P.numeric with h | h <;> rw [h] <;> decide

theorem type_scalar : ¬ (txt "array." <+: P.type ∨ txt "map." <+: P.type) := by
  rcases P.numeric with h | h <;> rw [h] <;> decide

theorem checkKind_admitted {v : JSON} (h : Admitted P.type v) :
    checkKind (chopped keyPath) P.type (viewAt c (chopped keyPath)) v = .ok true := by
  obtain ⟨hnum, hfloat⟩ := h
  cases v with
  | integer i =>
    rcases P.numeric with h | h <;> simp [checkKind, h, intType, floatType]
  | unsigned n =>
    rcases P.numeric with h | h <;> simp [checkKind, h, intType, floatType]
  | float q => simp [checkKind, hfloat rfl, floatType]
  | _ => simp [isNumber] at hnum

theorem checkRange_numeric (v : JSON) (size : ℕ) :
    checkRange P.type (viewAt c (chopped keyPath)) v size = (do
      let lo ← P.minField.getInt
      let hi ← P.maxField.getInt
      .ok (!(gt v (ofInt hi) || lt v (ofInt lo)))) := by
  have hmin : (viewAt c (chopped keyPath)).min = some P.minField :=
    (P.declared (txt "Min") (by simp)).trans P.minField_eq
  have hmax : (viewAt c (chopped keyPath)).max = some P.maxField :=
    (P.declared (txt "Max") (by simp)).trans P.maxField_eq
  simp only [checkRange, if_neg P.type_ranged, if_neg P.type_scalar, fetchInt, hmin, hmax]

/-- An admitted number is accepted when it is seen between the converted bounds. -/
theorem accepts_iff {v : JSON} {x : ℚ} (size : ℕ) (hdebug : ¬ P.Debug)
    (hadm : Admitted P.type v) (hseen : v.seen = some x) :
    validateForOne c keyPath v size = .ok true ↔
      ∃ lo hi, P.minField.getInt = .ok lo ∧ P.maxField.getInt = .ok hi ∧
        (lo : ℚ) ≤ x ∧ x ≤ hi := by
  rw [validateForOne_checked v size hdebug, checkParam_typed v size P.view_type P.type_ne_nil,
    checkKind_admitted hadm]
  simp only [bind, Except.bind, if_pos]
  rw [checkRange_numeric]
  cases hlo : P.minField.getInt with
  | error e => simp [bind, Except.bind]
  | ok lo =>
    cases hhi : P.maxField.getInt with
    | error e => simp [bind, Except.bind]
    | ok hi =>
      simp only [bind, Except.bind, Except.ok.injEq]
      rw [compare_ofInt hseen (getInt_range hlo) (getInt_range hhi)]
      simp

section Exact

variable {lo hi : ℤ}

/-- With exact acceptance the converted bounds cut out the same numbers as the written ones. -/
theorem seen_iff (hdebug : ¬ P.Debug) (hexact : P.ExactRange)
    (hlo : P.minField.getInt = .ok lo) (hhi : P.maxField.getInt = .ok hi)
    {v : JSON} {x y : ℚ} (hadm : Admitted P.type v) (hx : v.number? = some x)
    (hy : v.seen = some y) : ((lo : ℚ) ≤ y ∧ y ≤ hi) ↔ P.min ≤ x ∧ x ≤ P.max := by
  rw [← hexact.1 v x 0 hadm hx, accepts_iff 0 hdebug hadm hy]
  constructor
  · intro h
    exact ⟨lo, hi, hlo, hhi, h⟩
  · rintro ⟨lo', hi', hlo', hhi', h⟩
    rw [hlo] at hlo'
    rw [hhi] at hhi'
    cases hlo'
    cases hhi'
    exact h

theorem ofInt_iff (hdebug : ¬ P.Debug) (hexact : P.ExactRange)
    (hlo : P.minField.getInt = .ok lo) (hhi : P.maxField.getInt = .ok hi)
    {k : ℤ} (hk : -2 ^ 63 ≤ k) (hk' : k < 2 ^ 63) :
    (lo ≤ k ∧ k ≤ hi) ↔ P.min ≤ k ∧ (k : ℚ) ≤ P.max := by
  have hnum := ofInt_number hk hk'
  have hadm : Admitted P.type (ofInt k) := ⟨rfl, by simp [ofInt, isNumberFloat]⟩
  rw [← seen_iff hdebug hexact hlo hhi hadm hnum.1 hnum.2]
  norm_cast

theorem representable_of_exact (hdebug : ¬ P.Debug) (hexact : P.ExactRange)
    (hlo : P.minField.getInt = .ok lo) (hhi : P.maxField.getInt = .ok hi) (hle : lo ≤ hi) :
    P.Representable := by
  have hlor := getInt_range hlo
  have hhir := getInt_range hhi
  have hiff := fun k => ofInt_iff hdebug hexact hlo hhi (k := k)
  have hmin := (hiff lo (by omega) (by omega)).mp ⟨le_refl _, hle⟩
  have hmax := (hiff hi (by omega) (by omega)).mp ⟨hle, le_refl _⟩
  have habove : ¬ ((hi + 1 : ℤ) : ℚ) ≤ P.max := by
    intro h
    have hstep := (hiff (hi + 1) (by omega) (by omega)).mpr
      ⟨by push_cast; linarith [hmax.1], h⟩
    omega
  have hbelow : ¬ P.min ≤ ((lo - 1 : ℤ) : ℚ) := by
    intro h
    have hstep := (hiff (lo - 1) (by omega) (by omega)).mpr
      ⟨h, by push_cast; linarith [hmin.2]⟩
    omega
  -- an unsigned number above 2^63 is seen as a negative one
  have hnonneg : 0 ≤ lo := by
    by_contra hneg
    have hn : ((2 ^ 64 + lo).toNat : ℤ) = 2 ^ 64 + lo := Int.toNat_of_nonneg (by omega)
    have hnum := ofNat_number (n := (2 ^ 64 + lo).toNat) (by omega) (by omega)
    have hadm : Admitted P.type (ofSize (2 ^ 64 + lo).toNat) :=
      ⟨rfl, by simp [ofSize, isNumberFloat]⟩
    have hin := (seen_iff hdebug hexact hlo hhi hadm hnum.1 hnum.2).mp (by
      rw [hn]
      constructor
      · exact_mod_cast (by omega : lo ≤ 2 ^ 64 + lo - 2 ^ 64)
      · exact_mod_cast (by omega : 2 ^ 64 + lo - 2 ^ 64 ≤ hi))
    have hbig : ((hi + 1 : ℤ) : ℚ) ≤ ((2 ^ 64 + lo).toNat : ℚ) := by
      exact_mod_cast (by omega : hi + 1 ≤ ((2 ^ 64 + lo).toNat : ℤ))
    exact habove (hbig.trans hin.2)
  have hceil : ⌈P.min⌉ = lo := by
    rw [Int.ceil_eq_iff]
    push_cast at hbelow
    exact ⟨not_le.mp hbelow, hmin.1⟩
  have hfloor : ⌊P.max⌋ = hi := by
    rw [Int.floor_eq_iff]
    push_cast at habove
    exact ⟨hmax.2, not_le.mp habove⟩
  rcases P.numeric with hint | hfloat
  · refine .inl ⟨hint, ?_, by omega, by omega, by omega⟩
    exact whole_of_getInt_ceil P.min_eq (by rw [hlo, hceil]) (by omega)
  · -- a float parameter also admits the bounds themselves
    have hadm : ∀ q, Admitted P.type (float q) := fun q => ⟨rfl, fun _ => hfloat⟩
    have hq := fun q => seen_iff hdebug hexact hlo hhi (hadm q) (x := q) (y := q) rfl rfl
    have hm := (hq P.min).mpr ⟨le_refl _, hmin.1.trans hmin.2⟩
    have hM := (hq P.max).mpr ⟨hmin.1.trans hmin.2, le_refl _⟩
    exact .inr ⟨hfloat, lo, hi, le_antisymm hmin.1 hm.1, le_antisymm hM.2 hmax.2,
      hnonneg, hle, hhir.2⟩

end Exact

theorem Representable.fetched (h : P.Representable) :
    P.minField.getInt = .ok ⌈P.min⌉ ∧ P.maxField.getInt = .ok ⌊P.max⌋ ∧
      0 ≤ ⌈P.min⌉ ∧ ⌊P.max⌋ < 2 ^ 31 ∧
      (P.type = floatType → P.min = ⌈P.min⌉ ∧ P.max = ⌊P.max⌋) := by
  rcases h with ⟨htype, hwhole, hlo, hle, hhi⟩ | ⟨-, lo, hi, hmin, hmax, hlo, hle, hhi⟩
  · refine ⟨getInt_ceil P.min_eq hwhole hlo (by omega),
      getInt_floor P.max_eq (by omega) hhi, hlo, hhi, ?_⟩
    intro hfloat
    rw [htype] at hfloat
    exact absurd hfloat (by decide)
  · have hceil : ⌈P.min⌉ = lo := by rw [hmin, Int.ceil_intCast]
    have hfloor : ⌊P.max⌋ = hi := by rw [hmax, Int.floor_intCast]
    refine ⟨getInt_ceil P.min_eq (.inl ⟨lo, hmin⟩) (by omega) (by omega),
      getInt_floor P.max_eq (by omega) (by omega), by omega, by omega, fun _ => ?_⟩
    rw [hceil, hfloor]
    exact ⟨hmin, hmax⟩

theorem Representable.exact (h : P.Representable) (hdebug : ¬ P.Debug) {v : JSON} {x : ℚ}
    (size : ℕ) (hadm : Admitted P.type v) (hx : v.number? = some x) :
    validateForOne c keyPath v size = .ok true ↔ P.min ≤ x ∧ x ≤ P.max := by
  obtain ⟨hlo, hhi, hnonneg, hsmall, hfloat⟩ := h.fetched
  have hbounds : ∀ {y : ℚ}, v.seen = some y → (validateForOne c keyPath v size = .ok true ↔
      (⌈P.min⌉ : ℚ) ≤ y ∧ y ≤ ⌊P.max⌋) := by
    intro y hy
    rw [accepts_iff size hdebug hadm hy, hlo, hhi]
    simp
  have hint : ∀ k : ℤ, ((⌈P.min⌉ : ℚ) ≤ k ∧ (k : ℚ) ≤ ⌊P.max⌋) ↔ P.min ≤ k ∧ (k : ℚ) ≤ P.max := by
    intro k
    rw [Int.cast_le, Int.cast_le, Int.ceil_le, Int.le_floor]
  cases v with
  | integer i =>
    cases hx
    rw [hbounds rfl, hint]
  | unsigned n =>
    cases hx
    rw [hbounds rfl]
    rcases Nat.lt_or_ge n.toNat (2 ^ 63) with hn | hn
    · rw [toSigned_of_lt hn, hint]
      rfl
    · rw [toSigned_of_ge hn, hint]
      have hn' := n.toNat_lt
      constructor
      · rintro ⟨hk, -⟩
        have := Int.ceil_le.mpr hk
        omega
      · rintro ⟨-, hk⟩
        have := Int.le_floor.mpr (show ((n.toNat : ℤ) : ℚ) ≤ P.max from hk)
        omega
  | float q =>
    cases hx
    have hf := hfloat (hadm.2 rfl)
    rw [hbounds rfl, ← hf.1, ← hf.2]
  | _ => simp [number?] at hx

theorem Vacant.exact (h : P.Vacant) (hdebug : ¬ P.Debug) {v : JSON} {x : ℚ} (size : ℕ)
    (hadm : Admitted P.type v) (hx : v.number? = some x) :
    validateForOne c keyPath v size = .ok true ↔ P.min ≤ x ∧ x ≤ P.max := by
  obtain ⟨y, hy⟩ : ∃ y, v.seen = some y := by
    cases v <;> simp_all [seen, number?]
  rw [accepts_iff size hdebug hadm hy]
  constructor
  · rintro ⟨lo, hi, hlo, hhi, h1, h2⟩
    have hlt := h.2 lo hi hlo hhi
    have hle : (lo : ℚ) ≤ hi := h1.trans h2
    norm_cast at hle
    omega
  · intro hin
    exact absurd hin (h.1 v x hadm hx)

theorem vacant_of_exact (hdebug : ¬ P.Debug) (hexact : P.ExactRange)
    (hnone : ∀ lo hi, P.minField.getInt = .ok lo → P.maxField.getInt = .ok hi → hi < lo) :
    P.Vacant := by
  refine ⟨?_, hnone⟩
  intro v x hadm hx hin
  obtain ⟨y, hy⟩ : ∃ y, v.seen = some y := by
    cases v <;> simp_all [seen, number?]
  obtain ⟨lo, hi, hlo, hhi, h1, h2⟩ :=
    (accepts_iff 0 hdebug hadm hy).mp ((hexact.1 v x 0 hadm hx).mpr hin)
  have hle : (lo : ℚ) ≤ hi := h1.trans h2
  have := hnone lo hi hlo hhi
  norm_cast at hle
  omega

theorem admitted_of_accepts {d : JSON} {size : ℕ} (hdebug : ¬ P.Debug) (hd : d ≠ null)
    (h : validateForOne c keyPath d size = .ok true) : Admitted P.type d := by
  rw [validateForOne_checked d size hdebug,
    checkParam_typed d size P.view_type P.type_ne_nil] at h
  have hkind : checkKind (chopped keyPath) P.type (viewAt c (chopped keyPath)) d ≠ .ok false := by
    intro hk
    rw [hk] at h
    simp [bind, Except.bind] at h
  cases d with
  | null => exact absurd rfl hd
  | integer i => exact ⟨rfl, by simp [isNumberFloat]⟩
  | unsigned n => exact ⟨rfl, by simp [isNumberFloat]⟩
  | float q =>
    refine ⟨rfl, fun _ => ?_⟩
    by_contra hne
    exact hkind (by simpa [checkKind, floatType] using hne)
  | _ =>
    exfalso
    apply hkind
    rcases P.numeric with hn | hn <;> rw [hn] <;> rfl

/-- A parameter below `/ForDebug` accepts every integer there is. -/
theorem exactRange_debug (hdebug : P.Debug) :
    P.ExactRange ↔ P.type = intType ∧ P.min ≤ -2 ^ 63 ∧ 2 ^ 64 - 1 ≤ P.max := by
  constructor
  · intro hexact
    have hall : ∀ {v x}, Admitted P.type v → v.number? = some x → P.min ≤ x ∧ x ≤ P.max :=
      fun hadm hx => (hexact.1 _ _ 0 hadm hx).mp (validateForOne_debug _ 0 hdebug)
    have hint : P.type = intType := by
      rcases P.numeric with hint | hfloat
      · exact hint
      · have hin := hall (v := float (P.max + 1)) ⟨rfl, fun _ => hfloat⟩ rfl
        linarith [hin.2]
    have hlow := hall (v := ofInt (-2 ^ 63)) ⟨rfl, by simp [ofInt, isNumberFloat]⟩
      (ofInt_number (by decide) (by decide)).1
    have hhigh := hall (v := ofSize (2 ^ 64 - 1)) ⟨rfl, by simp [ofSize, isNumberFloat]⟩
      (ofNat_number (by decide) (by decide)).1
    refine ⟨hint, by exact_mod_cast hlow.1, ?_⟩
    norm_num at hhigh ⊢
    exact hhigh.2
  · rintro ⟨hint, hmin, hmax⟩
    refine ⟨?_, fun d size _ _ => validateForOne_debug d size hdebug⟩
    intro v x size hadm hx
    refine iff_of_true (validateForOne_debug v size hdebug) ?_
    cases v with
    | integer i =>
      cases hx
      have hlow : ((-2 ^ 63 : ℤ) : ℚ) ≤ i.toInt := by exact_mod_cast i.le_toInt
      have hhigh : (i.toInt : ℚ) ≤ ((2 ^ 63 : ℤ) : ℚ) := by exact_mod_cast i.toInt_lt.le
      push_cast at hlow hhigh
      constructor <;> linarith
    | unsigned n =>
      cases hx
      have hhigh : ((n.toNat : ℤ) : ℚ) ≤ ((2 ^ 64 - 1 : ℤ) : ℚ) := by
        have := n.toNat_lt
        exact_mod_cast (by omega : (n.toNat : ℤ) ≤ 2 ^ 64 - 1)
      have hlow : (0 : ℚ) ≤ (n.toNat : ℚ) := Nat.cast_nonneg _
      push_cast at hhigh
      constructor <;> linarith
    | float q =>
      have hfloat := hadm.2 rfl
      rw [hint] at hfloat
      exact absurd hfloat (by decide)
    | _ => simp [number?] at hx

/-- The range check is exact for a parameter exactly if its bounds survive the conversion to
`int` and its default fits; the other cases are a parameter that admits no number either way
and one below `/ForDebug` that admits all of them. -/
theorem exactRange_iff (P : NumericParam c keyPath) :
    P.ExactRange ↔
      (P.Debug ∧ P.type = intType ∧ P.min ≤ -2 ^ 63 ∧ 2 ^ 64 - 1 ≤ P.max) ∨
      (¬ P.Debug ∧ (P.Representable ∨ P.Vacant) ∧ P.DefaultFits) := by
  by_cases hdebug : P.Debug
  · rw [exactRange_debug hdebug]
    simp [hdebug]
  · simp only [hdebug, false_and, false_or, not_false_eq_true, true_and]
    constructor
    · intro hexact
      refine ⟨?_, ?_⟩
      · by_cases hsome : ∃ lo hi, P.minField.getInt = .ok lo ∧ P.maxField.getInt = .ok hi ∧ lo ≤ hi
        · obtain ⟨lo, hi, hlo, hhi, hle⟩ := hsome
          exact .inl (representable_of_exact hdebug hexact hlo hhi hle)
        · refine .inr (vacant_of_exact hdebug hexact ?_)
          intro lo hi hlo hhi
          by_contra hle
          exact hsome ⟨lo, hi, hlo, hhi, by omega⟩
      · intro d hd hnull
        have hacc := hexact.2 d 0 hd hnull
        have hadm := admitted_of_accepts hdebug hnull hacc
        obtain ⟨x, hx⟩ : ∃ x, d.number? = some x := by
          have hnum := hadm.1
          cases d <;> simp_all [isNumber, number?]
        exact ⟨hadm, x, hx, (hexact.1 d x 0 hadm hx).mp hacc⟩
    · rintro ⟨hbounds, hdefault⟩
      have hrange : ∀ v x size, Admitted P.type v → v.number? = some x →
          (validateForOne c keyPath v size = .ok true ↔ P.min ≤ x ∧ x ≤ P.max) := by
        intro v x size hadm hx
        rcases hbounds with hrep | hvac
        · exact hrep.exact hdebug size hadm hx
        · exact hvac.exact hdebug size hadm hx
      refine ⟨hrange, ?_⟩
      intro d size hd hnull
      obtain ⟨hadm, x, hx, hin⟩ := hdefault d hd hnull
      exact (hrange d x size hadm hx).mpr hin

def percent : NumericParam
    (object [(txt "P", object (fields "int" (unsigned 50) (unsigned 100) (unsigned 0)))])
    (txt "/P") where
  desc := fields "int" (unsigned 50) (unsigned 100) (unsigned 0)
  type := intType
  minField := unsigned 0
  maxField := unsigned 100
  min := 0
  max := 100
  numeric := .inl rfl
  declared := by decide
  type_eq := by decide
  minField_eq := by decide
  maxField_eq := by decide
  min_eq := by decide
  max_eq := by decide
  required := by decide

theorem exactRange_iff_percent : percent.ExactRange := by
  refine (exactRange_iff percent).mpr (.inr ⟨by decide, .inl (.inl ⟨rfl, .inl ⟨0, rfl⟩, ?_⟩), ?_⟩)
  · have hmin : percent.min = ((0 : ℤ) : ℚ) := rfl
    have hmax : percent.max = ((100 : ℤ) : ℚ) := rfl
    rw [hmin, hmax, Int.ceil_intCast, Int.floor_intCast]
    decide
  · intro d hd hnull
    have hfifty : percent.desc.lookup (txt "Default") = some (unsigned 50) := by decide
    rw [hfifty] at hd
    cases hd
    exact ⟨⟨rfl, by decide⟩, 50, rfl, by decide, by decide⟩

/-- An upper bound that needs more than 32 bits. -/
def wide : NumericParam
    (object [(txt "P", object (fields "int" (unsigned 1) (unsigned 4294967296) (unsigned 0)))])
    (txt "/P") where
  desc := fields "int" (unsigned 1) (unsigned 4294967296) (unsigned 0)
  type := intType
  minField := unsigned 0
  maxField := unsigned 4294967296
  min := 0
  max := 4294967296
  numeric := .inl rfl
  declared := by decide
  type_eq := by decide
  minField_eq := by decide
  maxField_eq := by decide
  min_eq := by decide
  max_eq := by decide
  required := by decide

theorem wide_rejects_default : ¬ wide.ExactRange := by
  intro h
  have hone := h.2 (unsigned 1) 0 (by decide) (by decide)
  exact absurd hone (by decide)

end NumericParam

end ToolkitCpp.Config

import ToolkitCpp.WorkIntervals

/-!
# What `update` and `stringToTime` accept

`update` lets the first interval start at midnight and no other one, so its verdict depends on the
order of the intervals. `stringToTime` checks the hours and the minutes, and the seconds only as a
part of the packed number.
-/
namespace ToolkitCpp.WorkIntervals

/-- The interval passes the tests that are made in every place. -/
def Interval.Fits (e : Interval) : Prop :=
  0 ≤ stringToTime e.begin ∧ stringToTime e.begin < stringToTime e.ending

def Interval.FromMidnight (e : Interval) : Prop := stringToTime e.begin = 0

/-- Some interval after the first one starts at midnight. -/
def MidnightBehind (es : List Interval) : Prop := ∃ e ∈ es.tail, e.FromMidnight

instance : DecidablePred Interval.Fits := fun _ => inferInstanceAs (Decidable (_ ∧ _))

instance : DecidablePred Interval.FromMidnight := fun _ => inferInstanceAs (Decidable (_ = _))

instance : DecidablePred MidnightBehind := fun es =>
  inferInstanceAs (Decidable (∃ e ∈ es.tail, Interval.FromMidnight e))

/-- The same verdict, and the same answer of `isRun` at every time of day. -/
def SameEffect (w : TWorkIntervals) (conf conf' : TWorkIntervalsList) : Prop :=
  (w.update conf).2 = (w.update conf').2 ∧
    ∀ t, (w.update conf).1.isRun t = (w.update conf').1.isRun t

lemma fill_rest_iff (w : TWorkIntervals) (es : List Interval) :
    (w.fill false es).2 = true ↔ ∀ e ∈ es, e.Fits ∧ ¬ e.FromMidnight := by
  induction es generalizing w with
  | nil => simp [TWorkIntervals.fill]
  | cons e es ih =>
    rw [List.forall_mem_cons, ← ih, TWorkIntervals.fill]
    unfold Interval.Fits Interval.FromMidnight
    simp only [Bool.false_eq_true, false_and, if_false, not_false_eq_true, true_and]
    split_ifs with hfrom hto horder
    · exact iff_of_false id (by omega)
    · exact iff_of_false id (by omega)
    · exact iff_of_false id (by omega)
    · exact (and_iff_right (by omega)).symm

lemma fill_first_iff (w : TWorkIntervals) (e : Interval) (es : List Interval) :
    (w.fill true (e :: es)).2 = true ↔ e.Fits ∧ ∀ x ∈ es, x.Fits ∧ ¬ x.FromMidnight := by
  rw [← fill_rest_iff, TWorkIntervals.fill]
  unfold Interval.Fits
  simp only [true_and, not_true, false_and, if_false]
  split_ifs with hfrom hto horder
  · exact iff_of_false id (by omega)
  · exact iff_of_false id (by omega)
  · exact iff_of_false id (by omega)
  · exact (and_iff_right (by omega)).symm

lemma update_iff (w : TWorkIntervals) (run : Bool) (es : List Interval) :
    (w.update ⟨run, es⟩).2 = true ↔ es ≠ [] ∧ (∀ e ∈ es, e.Fits) ∧ ¬ MidnightBehind es := by
  cases es with
  | nil => simp [TWorkIntervals.update]
  | cons e es =>
    have hsize : (e :: es).length > 0 := by simp
    simp only [TWorkIntervals.update, if_pos hsize, fill_first_iff, List.forall_mem_cons,
      MidnightBehind, List.tail_cons]
    constructor
    · rintro ⟨he, hes⟩
      refine ⟨List.cons_ne_nil _ _, ⟨he, fun x hx => (hes x hx).1⟩, ?_⟩
      rintro ⟨x, hx, hmid⟩
      exact (hes x hx).2 hmid
    · rintro ⟨-, ⟨he, hes⟩, hmid⟩
      exact ⟨he, fun x hx => ⟨hes x hx, fun h => hmid ⟨x, hx, h⟩⟩⟩

/-- Equal verdicts on reordered intervals have equal effects. -/
lemma isRun_of_perm {w : TWorkIntervals} {run : Bool} {es es' : List Interval} (hp : es.Perm es')
    (h : (w.update ⟨run, es⟩).2 = (w.update ⟨run, es'⟩).2) (t : LocalTime) :
    (w.update ⟨run, es⟩).1.isRun t = (w.update ⟨run, es'⟩).1.isRun t := by
  cases hv : (w.update ⟨run, es⟩).2 with
  | true =>
    rw [TWorkIntervals.update_true hv, TWorkIntervals.update_true (h ▸ hv),
      TWorkIntervals.isRun_of_ena rfl, TWorkIntervals.isRun_of_ena rfl]
    have hany := (hp.map fun e =>
      (⟨stringToTime e.begin, stringToTime e.ending⟩ : WorkInterval)).any_eq
        (f := fun e => e.isRun (getCurrTimeIntervals t))
    simp only [hany]
  | false =>
    simp only [TWorkIntervals.isRun, TWorkIntervals.update_false hv,
      TWorkIntervals.update_false (h ▸ hv), if_true]

/-- For every list of intervals and every reordering: `update` has the same verdict and effect
exactly when some interval is refused in every place, or both orders or none of them have an
interval from midnight behind the first place. -/
theorem update_reordered_iff (w : TWorkIntervals) (run : Bool) (es es' : List Interval)
    (hp : es.Perm es') :
    SameEffect w ⟨run, es⟩ ⟨run, es'⟩ ↔
      (∃ e ∈ es, ¬ e.Fits) ∨ (MidnightBehind es ↔ MidnightBehind es') := by
  have heffect : SameEffect w ⟨run, es⟩ ⟨run, es'⟩ ↔
      ((w.update ⟨run, es⟩).2 = true ↔ (w.update ⟨run, es'⟩).2 = true) := by
    rw [← Bool.eq_iff_iff]
    exact ⟨fun h => h.1, fun h => ⟨h, isRun_of_perm hp h⟩⟩
  have hfits : (∀ e ∈ es', e.Fits) ↔ ∀ e ∈ es, e.Fits := by simp only [hp.mem_iff]
  have hsame : es' = [] ↔ es = [] := by
    rw [← List.length_eq_zero_iff, ← hp.length_eq, List.length_eq_zero_iff]
  have hnil : es' ≠ [] ↔ es ≠ [] := not_congr hsame
  rw [heffect, update_iff, update_iff, hfits, hnil]
  by_cases hempty : es = []
  · have hempty' : es' = [] := hsame.mpr hempty
    simp [hempty, hempty']
  · by_cases hall : ∀ e ∈ es, e.Fits
    · have hsome : ¬ ∃ e ∈ es, ¬ e.Fits := fun ⟨e, he, hn⟩ => hn (hall e he)
      rw [and_iff_right hempty, and_iff_right hempty, and_iff_right hall, and_iff_right hall,
        not_iff_not, or_iff_right hsome]
    · have hsome : ∃ e ∈ es, ¬ e.Fits := by
        simpa only [not_forall, exists_prop] using hall
      simp only [hall, false_and, and_false, hsome, true_or]

def nightHour : Interval := ⟨timeText 0 0 0, timeText 1 0 0⟩

def laterHour : Interval := ⟨timeText 2 0 0, timeText 3 0 0⟩

theorem update_reordered_iff_day : SameEffect {} twoShifts ⟨true, twoShifts.intervals.reverse⟩ :=
  (update_reordered_iff {} true twoShifts.intervals twoShifts.intervals.reverse
    (List.reverse_perm _).symm).mpr (.inr (by decide))

theorem update_order_matters : ¬ ∀ (w : TWorkIntervals) (run : Bool) (es es' : List Interval),
    es.Perm es' → SameEffect w ⟨run, es⟩ ⟨run, es'⟩ := by
  intro h
  have heffect := h {} true [nightHour, laterHour] [laterHour, nightHour] (List.Perm.swap _ _ _)
  exact absurd heffect.1 (by decide)

/-- The conversion `%02d` of `sprintf` for an `int`; a sign counts as a place. -/
def format02Int (i : ℤ) : Str :=
  if i < 0 then '-' :: toString i.natAbs else format02 i.toNat

def clockText (hour min sec : ℤ) : Str :=
  format02Int hour ++ ':' :: (format02Int min ++ ':' :: format02Int sec)

def makeTime (t : ℤ) : Str :=
  let sec := t.tmod 100
  let min := (t.tdiv 100).tmod 100
  let hour := t.tdiv 10000
  clockText hour min sec

inductive IsInteger : Str → ℤ → Prop
  | plain {digits : Str} (h : IsNumber digits) : IsInteger digits (decimal digits)
  | plus {digits : Str} (h : IsNumber digits) : IsInteger ('+' :: digits) (decimal digits)
  | minus {digits : Str} (h : IsNumber digits) : IsInteger ('-' :: digits) (-decimal digits)

/-- A decimal integer within the range of `int`. -/
structure IntText where
  text : Str
  value : ℤ
  isInteger : IsInteger text value
  lower : -2 ^ 31 ≤ value
  upper : value < 2 ^ 31

def joined (hh mm ss : IntText) : Str := hh.text ++ ':' :: (mm.text ++ ':' :: ss.text)

/-- A time of day, not later than 24:00:00. -/
def ValidTime (h m s : ℤ) : Prop :=
  0 ≤ h ∧ h ≤ 24 ∧ 0 ≤ m ∧ m < 60 ∧ 0 ≤ s ∧ s < 60 ∧ h * 3600 + m * 60 + s ≤ 86400

/-- Valid times, and no others, are accepted, and `makeTime` gives them back. -/
def TimeExact (hh mm ss : IntText) : Prop :=
  (0 ≤ stringToTime (joined hh mm ss) ↔ ValidTime hh.value mm.value ss.value) ∧
    (ValidTime hh.value mm.value ss.value →
      makeTime (stringToTime (joined hh mm ss)) = clockText hh.value mm.value ss.value) ∧
    (¬ ValidTime hh.value mm.value ss.value → stringToTime (joined hh mm ss) = -1)

/-- Hours and minutes are in range and the seconds are not, but the packed number is. -/
def SecondsSlip (h m s : ℤ) : Prop :=
  0 ≤ h ∧ h ≤ 24 ∧ 0 ≤ m ∧ m < 60 ∧ ¬ (0 ≤ s ∧ s < 60) ∧
    0 ≤ (h * 100 + m) * 100 + s ∧ (h * 100 + m) * 100 + s ≤ 240000

lemma scanInt_intText (i : IntText) (rest : Str) (hrest : rest.takeWhile Char.isDigit = []) :
    scanInt (i.text ++ rest) = some (i.value, rest) := by
  obtain ⟨text, value, hinteger, hlo, hhi⟩ := i
  cases hinteger with
  | plain hd =>
    have hlt : decimal text < 2 ^ 31 := by omega
    exact scanInt_number rest hd hlt hrest
  | @plus digits hd =>
    have hsign : scanSign (('+' :: digits ++ rest).dropWhile isSpace) = (1, digits ++ rest) := rfl
    have hscan := scanNumber_of_sign hsign hd hrest
    rw [one_mul] at hscan
    exact scanInt_of_scanNumber hscan hlo hhi
  | @minus digits hd =>
    have hsign : scanSign (('-' :: digits ++ rest).dropWhile isSpace) = (-1, digits ++ rest) := rfl
    have hscan := scanNumber_of_sign hsign hd hrest
    rw [neg_one_mul] at hscan
    exact scanInt_of_scanNumber hscan hlo hhi

lemma IsInteger.noNul {text : Str} {value : ℤ} (h : IsInteger text value) :
    ∀ c ∈ text, c ≠ '\x00' := by
  have hdigits : ∀ {digits : Str}, IsNumber digits → ∀ c ∈ digits, c ≠ '\x00' :=
    fun hd c hc => hd.ne_of_mem hc (by decide)
  intro c hc
  cases h with
  | plain hd => exact hdigits hd c hc
  | plus hd =>
    rcases List.mem_cons.mp hc with rfl | hc
    · decide
    · exact hdigits hd c hc
  | minus hd =>
    rcases List.mem_cons.mp hc with rfl | hc
    · decide
    · exact hdigits hd c hc

lemma scanTime_joined (hh mm ss : IntText) :
    scanTime ((joined hh mm ss).takeWhile (· ≠ '\x00')) =
      some (hh.value, mm.value, ss.value) := by
  have hnul : (joined hh mm ss).takeWhile (· ≠ '\x00') = joined hh mm ss := by
    rw [List.takeWhile_eq_self_iff]
    intro c hc
    simp only [joined, List.mem_append, List.mem_cons] at hc
    rcases hc with hc | rfl | hc | rfl | hc
    · simpa using hh.isInteger.noNul c hc
    · decide
    · simpa using mm.isInteger.noNul c hc
    · decide
    · simpa using ss.isInteger.noNul c hc
  have hlast := scanInt_intText ss [] rfl
  rw [List.append_nil] at hlast
  have hfirst := scanInt_intText hh (':' :: (mm.text ++ ':' :: ss.text)) rfl
  have hsecond := scanInt_intText mm (':' :: ss.text) rfl
  rw [hnul, joined]
  simp only [scanTime, hfirst, hsecond, hlast, Option.map_some]

/-- Seconds so large that the packed number leaves the range of `int` are refused too. -/
lemma stringToTime_joined (hh mm ss : IntText) :
    stringToTime (joined hh mm ss) =
      if (0 ≤ hh.value ∧ hh.value ≤ 24 ∧ 0 ≤ mm.value ∧ mm.value < 60) ∧
          0 ≤ (hh.value * 100 + mm.value) * 100 + ss.value ∧
          (hh.value * 100 + mm.value) * 100 + ss.value ≤ 240000 then
        (hh.value * 100 + mm.value) * 100 + ss.value
      else -1 := by
  have hpos : (joined hh mm ss).length > 0 := by simp [joined]
  have hlo := ss.lower
  have hhi := ss.upper
  rw [stringToTime, if_pos hpos, scanTime_joined]
  simp only [int32_eq]
  split_ifs <;> omega

lemma makeTime_packed {h m s : ℤ} (hh : 0 ≤ h) (hm : 0 ≤ m ∧ m < 60) (hs : 0 ≤ s ∧ s < 60) :
    makeTime ((h * 100 + m) * 100 + s) = clockText h m s := by
  have hsec : ((h * 100 + m) * 100 + s).tmod 100 = s := by
    rw [Int.tmod_eq_emod_of_nonneg (by omega)]
    omega
  have hmin : (((h * 100 + m) * 100 + s).tdiv 100).tmod 100 = m := by
    rw [Int.tdiv_eq_ediv_of_nonneg (by omega), Int.tmod_eq_emod_of_nonneg (by omega)]
    omega
  have hhour : ((h * 100 + m) * 100 + s).tdiv 10000 = h := by
    rw [Int.tdiv_eq_ediv_of_nonneg (by omega)]
    omega
  simp only [makeTime, hsec, hmin, hhour]

/-- For all three numbers: `stringToTime` is exact on them unless hours and minutes are in range,
the seconds are not, and the packed number is between 0 and 240000. -/
theorem stringToTime_exact_iff (hh mm ss : IntText) :
    TimeExact hh mm ss ↔ ¬ SecondsSlip hh.value mm.value ss.value := by
  unfold TimeExact SecondsSlip ValidTime
  rw [stringToTime_joined]
  split_ifs with haccepted
  · obtain ⟨⟨hhour, hhour24, hmin, hmin60⟩, hpos, hmost⟩ := haccepted
    by_cases hsec : 0 ≤ ss.value ∧ ss.value < 60
    · have hmake := makeTime_packed hhour ⟨hmin, hmin60⟩ hsec
      refine iff_of_true ⟨by omega, fun _ => hmake, by omega⟩ (by omega)
    · refine iff_of_false ?_ (by omega)
      rintro ⟨hvalid, -⟩
      omega
  · refine iff_of_true ⟨by omega, by omega, fun _ => rfl⟩ (by omega)

def IntText.ofDigits (digits : Str) (h : IsNumber digits) (hlt : decimal digits < 2 ^ 31) :
    IntText :=
  ⟨digits, decimal digits, .plain h, by omega, by omega⟩

/-- Half past ten and 75 seconds. -/
theorem stringToTime_seconds_slip : ¬ ∀ hh mm ss : IntText, TimeExact hh mm ss := by
  intro h
  have hexact := h (.ofDigits (format02 10) (isNumber_format02 10) (by rw [decimal_format02]; omega))
    (.ofDigits (format02 30) (isNumber_format02 30) (by rw [decimal_format02]; omega))
    (.ofDigits (format02 75) (isNumber_format02 75) (by rw [decimal_format02]; omega))
  obtain ⟨-, -, -, -, -, hsec, -⟩ := hexact.1.mp (by decide)
  exact absurd hsec (by decide)

end ToolkitCpp.WorkIntervals

import ToolkitCpp.Calendar
import ToolkitCpp.Numerals

/-!
# Times as texts

`MTime::utcToHuman` and `MTime::utcFromHuman` with the default format. The functions of the C
library for local times are a parameter with the laws that relate them; a zone with a fixed offset
satisfies them. A point of time of `system_clock` is a 64-bit number of nanoseconds, beyond which
the behaviour is undefined.
-/
namespace ToolkitCpp.MTime

/-- Local times, and their texts in the format `%Y-%m-%d %H:%M:%S`. `getTime` is `std::get_time` on
a stream and leaves the rest of it. -/
structure TimeLibrary where
  Tm : Type
  localtime : ℤ → Tm
  mktime : Tm → ℤ
  year : Tm → ℤ
  strftime : Tm → Str
  getTime : Str → Option (Tm × Str)
  mktime_localtime : ∀ s, mktime (localtime s) = s
  length_strftime : ∀ s, 1000 ≤ year (localtime s) → year (localtime s) ≤ 9999 →
    (strftime (localtime s)).length = 19
  getTime_strftime : ∀ s, 1000 ≤ year (localtime s) → year (localtime s) ≤ 9999 →
    ∀ rest, getTime (strftime (localtime s) ++ rest) = some (localtime s, rest)

/-- A number of nanoseconds that a `time_point` of `system_clock` can hold. -/
def IsTimePoint (ns : ℤ) : Prop := -2 ^ 63 ≤ ns ∧ ns < 2 ^ 63

instance (ns : ℤ) : Decidable (IsTimePoint ns) := inferInstanceAs (Decidable (_ ∧ _))

/-- The conversion `%06ld` of `snprintf`. -/
def format06 (n : ℤ) : Str :=
  if n < 0 then '-' :: (toString n.natAbs).leftpad 5 '0'
  else (toString n.toNat).leftpad 6 '0'

variable (lib : TimeLibrary)

/-- `none` is undefined behaviour. -/
def utcToHuman (timeUTCMks : Int64) : Option Str :=
  let tp := timeUTCMks.toInt * 1000
  if ¬ IsTimePoint tp then none
  else
    let seconds := tp.tdiv 1000000000
    let fraction := tp - seconds * 1000000000
    let microseconds := fraction.tdiv 1000
    let outTime := lib.strftime (lib.localtime (tp.tdiv 1000000000))
    -- the buffers have 24 and 35 bytes
    if 0 < outTime.length ∧ outTime.length < 24 then
      some ((outTime ++ '.' :: format06 microseconds).take 34)
    else some (txt "1970-01-01 23:59:59")

/-- `ss >> us` for an `int`. -/
def readInt (s : Str) : Option ℤ :=
  match scanNumber s with
  | none => none
  | some (value, _) => if -2 ^ 31 ≤ value ∧ value < 2 ^ 31 then some value else none

/-- The microseconds, if `ss >> dot >> us` succeeds and the first letter is a dot. -/
def readFraction (s : Str) : Option ℤ :=
  match s.dropWhile isSpace with
  | [] => none
  | dot :: s => if dot = '.' then readInt s else none

def utcFromHuman (timestamp : Str) : Option ℤ :=
  match lib.getTime timestamp with
  | none => some 0
  | some (tm, s) =>
      match readFraction s with
      | none => some 0
      | some us =>
          let timeC := lib.mktime tm
          if timeC = -1 then some 0
          else
            let timePoint := timeC * 1000000000
            if ¬ IsTimePoint timePoint then none
            else
              let timePoint := timePoint + us * 1000
              if ¬ IsTimePoint timePoint then none else some (timePoint.tdiv 1000)

/-- The time of the text of a time. -/
def roundTrip (t : Int64) : Option ℤ := (utcToHuman lib t).bind (utcFromHuman lib)

/-- The year that the text of the time shows. -/
def localYear (t : Int64) : ℤ := lib.year (lib.localtime (t.toInt.tdiv 1000000))

/-- The division that cuts toward zero: the rest has the sign of the number. -/
lemma tdiv_spec (t : ℤ) : ∃ us, t = t.tdiv 1000000 * 1000000 + us ∧
    (0 ≤ t → 0 ≤ us ∧ us < 1000000) ∧ (t < 0 → -1000000 < us ∧ us ≤ 0) := by
  rcases le_or_gt 0 t with h | h
  · rw [Int.tdiv_eq_ediv_of_nonneg h]
    exact ⟨t % 1000000, by omega, by omega, by omega⟩
  · obtain ⟨u, rfl⟩ : ∃ u, t = -u := ⟨-t, by omega⟩
    rw [Int.neg_tdiv, Int.tdiv_eq_ediv_of_nonneg (by omega)]
    exact ⟨-(u % 1000000), by omega, by omega, by omega⟩

lemma tdiv_nanoseconds (t : ℤ) : (t * 1000).tdiv 1000000000 = t.tdiv 1000000 := by
  have hpow : (1000000000 : ℤ) = 1000000 * 1000 := by decide
  rw [hpow, Int.mul_tdiv_mul_of_pos_left _ _ (by decide)]

lemma tdiv_eq_neg_one_iff (t : ℤ) : t.tdiv 1000000 = -1 ↔ -1999999 ≤ t ∧ t ≤ -1000000 := by
  obtain ⟨us, ht, hpos, hneg⟩ := tdiv_spec t
  omega

lemma readInt_of_scanNumber {s rest : Str} {i : ℤ} (h : scanNumber s = some (i, rest))
    (hlo : -2 ^ 31 ≤ i) (hhi : i < 2 ^ 31) : readInt s = some i := by
  simp only [readInt, h]
  exact if_pos ⟨hlo, hhi⟩

/-- The microseconds are read as they are written, those below zero with their sign. -/
lemma readInt_format06 {n : ℤ} (hlo : -1000000 < n) (hhi : n < 1000000) :
    readInt (format06 n) = some n := by
  have hscan : scanNumber (format06 n) = some (n, []) := by
    by_cases h : n < 0
    · have hsign : scanSign (('-' :: (toString n.natAbs).leftpad 5 '0').dropWhile isSpace) =
          (-1, (toString n.natAbs).leftpad 5 '0' ++ []) := by
        rw [List.append_nil]
        rfl
      rw [format06, if_pos h, scanNumber_of_sign hsign (isNumber_leftpad (by decide) _) rfl,
        decimal_leftpad]
      congr 2
      omega
    · have hnumber : IsNumber ((toString n.toNat).leftpad 6 '0') := isNumber_leftpad (by decide) _
      rw [format06, if_neg h, ← List.append_nil ((toString n.toNat).leftpad 6 '0'),
        scanNumber_number hnumber rfl, decimal_leftpad]
      congr 2
      omega
  exact readInt_of_scanNumber hscan (by omega) (by omega)

lemma length_format06_le {n : ℤ} (hlo : -1000000 < n) (hhi : n < 1000000) :
    (format06 n).length ≤ 7 := by
  have hdigits : ∀ m < 10 ^ 6, (toString m).length ≤ 6 := fun m hm =>
    (Nat.length_toDigits_le_iff (by decide) (by decide)).mpr hm
  by_cases h : n < 0
  · have hlen := hdigits n.natAbs (by omega)
    rw [format06, if_pos h, List.length_cons, List.length_leftpad]
    omega
  · have hlen := hdigits n.toNat (by omega)
    rw [format06, if_neg h, List.length_leftpad]
    omega

structure Tm where
  date : Calendar.Date
  hour : ℕ
  min : ℕ
  sec : ℕ
  deriving DecidableEq, Repr

/-- The days from the first day of the calendar to the epoch. -/
def epochDay : ℤ := 719162

def localtime (offset s : ℤ) : Tm :=
  let ofDay := ((s + offset) % 86400).toNat
  ⟨.ofDays ((s + offset) / 86400 + epochDay), ofDay / 3600, ofDay / 60 % 60, ofDay % 60⟩

def mktime (offset : ℤ) (tm : Tm) : ℤ :=
  (tm.date.days - epochDay) * 86400 + (tm.hour * 3600 + tm.min * 60 + tm.sec : ℕ) - offset

def yearText (year : ℤ) : Str :=
  if year < 0 then '-' :: toString year.natAbs else toString year.toNat

def dateText (d : Calendar.Date) : Str :=
  yearText d.year ++ '-' :: (format02 d.month ++ '-' :: format02 d.day)

def clockText (hour min sec : ℕ) : Str :=
  format02 hour ++ ':' :: (format02 min ++ ':' :: format02 sec)

def strftime (tm : Tm) : Str := dateText tm.date ++ ' ' :: clockText tm.hour tm.min tm.sec

/-- A field of at most so many digits, with its limits. -/
def readField (width lo hi : ℕ) (s : Str) : Option (ℕ × Str) :=
  let digits := (s.take width).takeWhile Char.isDigit
  if digits ≠ [] ∧ lo ≤ decimal digits ∧ decimal digits ≤ hi then
    some (decimal digits, s.drop digits.length)
  else none

def expect (c : Char) : Str → Option Str
  | [] => none
  | x :: s => if x = c then some s else none

def readDate (s : Str) : Option (Calendar.Date × Str) := do
  let (year, s) ← readField 4 0 9999 (s.dropWhile isSpace)
  let s ← expect '-' s
  let (month, s) ← readField 2 1 12 s
  let s ← expect '-' s
  let (day, s) ← readField 2 1 31 s
  return (⟨year, month, day⟩, s)

def readClock (s : Str) : Option ((ℕ × ℕ × ℕ) × Str) := do
  let (hour, s) ← readField 2 0 23 (s.dropWhile isSpace)
  let s ← expect ':' s
  let (min, s) ← readField 2 0 59 s
  let s ← expect ':' s
  let (sec, s) ← readField 2 0 60 s
  return ((hour, min, sec), s)

def getTime (s : Str) : Option (Tm × Str) := do
  let (date, s) ← readDate s
  let ((hour, min, sec), s) ← readClock s
  return (⟨date, hour, min, sec⟩, s)

lemma mktime_localtime (offset s : ℤ) : mktime offset (localtime offset s) = s := by
  rw [mktime, localtime]
  dsimp only
  rw [Calendar.Date.days_ofDays]
  omega

/-- A field that is written with its whole width is read back. -/
lemma readField_number {digits : Str} {lo hi : ℕ} (hd : IsNumber digits) (hlo : lo ≤ decimal digits)
    (hhi : decimal digits ≤ hi) (rest : Str) :
    readField digits.length lo hi (digits ++ rest) = some (decimal digits, rest) := by
  have htake : digits.takeWhile Char.isDigit = digits := List.takeWhile_eq_self_iff.mpr hd.2
  rw [readField, List.take_left, htake, if_pos ⟨hd.1, hlo, hhi⟩, List.drop_left]

lemma readField_format02 {n lo hi : ℕ} (hn : n < 60) (hlo : lo ≤ n) (hhi : n ≤ hi) (rest : Str) :
    readField 2 lo hi (format02 n ++ rest) = some (n, rest) := by
  have hlo' : lo ≤ decimal (format02 n) := by rwa [decimal_format02]
  have hhi' : decimal (format02 n) ≤ hi := by rwa [decimal_format02]
  have hread := readField_number (isNumber_format02 n) hlo' hhi' rest
  rwa [length_format02 hn, decimal_format02] at hread

/-- A year of four digits as a text. -/
lemma yearText_spec {year : ℤ} (hlo : 1000 ≤ year) (hhi : year ≤ 9999) :
    IsNumber (yearText year) ∧ (yearText year).length = 4 ∧ (decimal (yearText year) : ℤ) = year := by
  have hdecimal : decimal (toString year.toNat) = year.toNat := Nat.ofDigitChars_ten_toDigits
  have hmost : (toString year.toNat).length ≤ 4 :=
    (Nat.length_toDigits_le_iff (by decide) (by decide)).mpr (by omega)
  have hleast : ¬ (toString year.toNat).length ≤ 3 :=
    mt (Nat.length_toDigits_le_iff (by decide) (by decide)).mp (by omega)
  rw [yearText, if_neg (by omega)]
  refine ⟨⟨?_, ?_⟩, by omega, by omega⟩
  · intro hnil
    rw [hnil] at hleast
    exact hleast (Nat.zero_le 3)
  · intro c hc
    exact Nat.isDigit_of_mem_toDigits (by decide) (by decide) hc

/-- The fields have values of a calendar and a clock, with a year of four digits. -/
structure Tm.InRange (tm : Tm) : Prop where
  year_ge : 1000 ≤ tm.date.year
  year_le : tm.date.year ≤ 9999
  month_ge : 1 ≤ tm.date.month
  month_le : tm.date.month ≤ 12
  day_ge : 1 ≤ tm.date.day
  day_le : tm.date.day ≤ 31
  hour_le : tm.hour ≤ 23
  min_le : tm.min ≤ 59
  sec_le : tm.sec ≤ 59

lemma localtime_inRange {offset s : ℤ} (hlo : 1000 ≤ (localtime offset s).date.year)
    (hhi : (localtime offset s).date.year ≤ 9999) : (localtime offset s).InRange := by
  obtain ⟨hmonth, hday⟩ := Calendar.Date.ofDays_bounds ((s + offset) / 86400 + epochDay)
  have hclock : (localtime offset s).hour ≤ 23 ∧ (localtime offset s).min ≤ 59 ∧
      (localtime offset s).sec ≤ 59 := by
    rw [localtime]
    dsimp only
    omega
  exact ⟨hlo, hhi, hmonth.1, hmonth.2, hday.1, hday.2, hclock.1, hclock.2.1, hclock.2.2⟩

lemma Tm.InRange.length_strftime {tm : Tm} (h : tm.InRange) : (strftime tm).length = 19 := by
  obtain ⟨-, hyear, -⟩ := yearText_spec h.year_ge h.year_le
  simp only [strftime, dateText, clockText, List.length_append, List.length_cons, hyear,
    length_format02 (lt_of_le_of_lt h.month_le (by decide : 12 < 60)),
    length_format02 (lt_of_le_of_lt h.day_le (by decide : 31 < 60)),
    length_format02 (lt_of_le_of_lt h.hour_le (by decide : 23 < 60)),
    length_format02 (lt_of_le_of_lt h.min_le (by decide : 59 < 60)),
    length_format02 (lt_of_le_of_lt h.sec_le (by decide : 59 < 60))]

lemma expect_cons (c : Char) (s : Str) : expect c (c :: s) = some s := if_pos rfl

lemma Tm.InRange.readDate_dateText {tm : Tm} (h : tm.InRange) (rest : Str) :
    readDate (dateText tm.date ++ rest) = some (tm.date, rest) := by
  obtain ⟨hnumber, hlength, hdecimal⟩ := yearText_spec h.year_ge h.year_le
  have hyear : ∀ rest, readField 4 0 9999 (yearText tm.date.year ++ rest) =
      some (decimal (yearText tm.date.year), rest) := by
    have hle := h.year_le
    have hmost : decimal (yearText tm.date.year) ≤ 9999 := by omega
    have hread := readField_number hnumber (Nat.zero_le _) hmost
    rwa [hlength] at hread
  have hmonth := readField_format02 (lt_of_le_of_lt h.month_le (by decide)) h.month_ge h.month_le
  have hday := readField_format02 (lt_of_le_of_lt h.day_le (by decide)) h.day_ge h.day_le
  simp only [readDate, dateText, List.append_assoc, List.cons_append,
    hnumber.dropWhile_isSpace, hyear, expect_cons, hmonth, hday, hdecimal,
    Option.bind_eq_bind, Option.bind_some, Option.pure_def]

lemma Tm.InRange.readClock_clockText {tm : Tm} (h : tm.InRange) (rest : Str) :
    readClock (' ' :: (clockText tm.hour tm.min tm.sec ++ rest)) =
      some ((tm.hour, tm.min, tm.sec), rest) := by
  have hblank : ∀ rest, (' ' :: (format02 tm.hour ++ rest)).dropWhile isSpace =
      format02 tm.hour ++ rest := by
    intro rest
    rw [List.dropWhile_cons_of_pos (by decide)]
    exact (isNumber_format02 tm.hour).dropWhile_isSpace rest
  have hhour := readField_format02 (lt_of_le_of_lt h.hour_le (by decide)) (Nat.zero_le _) h.hour_le
  have hmin := readField_format02 (lt_of_le_of_lt h.min_le (by decide)) (Nat.zero_le _) h.min_le
  have hsec := readField_format02 (lt_of_le_of_lt h.sec_le (by decide)) (Nat.zero_le _)
    (h.sec_le.trans (by decide : 59 ≤ 60))
  simp only [readClock, clockText, List.append_assoc, List.cons_append, hblank, expect_cons, hhour,
    hmin, hsec, Option.bind_eq_bind, Option.bind_some, Option.pure_def]

/-- What was written is read back. -/
lemma Tm.InRange.getTime_strftime {tm : Tm} (h : tm.InRange) (rest : Str) :
    getTime (strftime tm ++ rest) = some (tm, rest) := by
  simp only [getTime, strftime, List.append_assoc, List.cons_append, h.readDate_dateText,
    h.readClock_clockText, Option.bind_eq_bind, Option.bind_some, Option.pure_def]

/-- Local times at a fixed offset from UTC, in seconds. -/
def fixedZone (offset : ℤ) : TimeLibrary where
  Tm := Tm
  localtime := localtime offset
  mktime := mktime offset
  year tm := tm.date.year
  strftime := strftime
  getTime := getTime
  mktime_localtime := mktime_localtime offset
  length_strftime _ hlo hhi := (localtime_inRange hlo hhi).length_strftime
  getTime_strftime _ hlo hhi := (localtime_inRange hlo hhi).getTime_strftime

variable {lib}

/-- The text of a time with a year of four digits. -/
lemma utcToHuman_eq {t : Int64} {us : ℤ} (hfits : IsTimePoint (t.toInt * 1000))
    (ht : t.toInt = t.toInt.tdiv 1000000 * 1000000 + us) (hlo : -1000000 < us) (hhi : us < 1000000)
    (hyear : 1000 ≤ localYear lib t ∧ localYear lib t ≤ 9999) : utcToHuman lib t =
      some (lib.strftime (lib.localtime (t.toInt.tdiv 1000000)) ++ '.' :: format06 us) := by
  have hlen := lib.length_strftime _ hyear.1 hyear.2
  have hroom : 0 < 19 ∧ 19 < 24 := by decide
  have hshort := length_format06_le hlo hhi
  have hfraction : (t.toInt * 1000 - t.toInt.tdiv 1000000 * 1000000000).tdiv 1000 = us := by
    have hmul : t.toInt * 1000 - t.toInt.tdiv 1000000 * 1000000000 = us * 1000 := by omega
    rw [hmul, Int.mul_tdiv_cancel _ (by decide)]
  simp only [utcToHuman, tdiv_nanoseconds, hfits, not_true_eq_false, if_false, hlen, if_pos hroom,
    hfraction]
  rw [List.take_of_length_le]
  rw [List.length_append, List.length_cons, hlen]
  omega

/-- The time of a text; the second before the epoch is taken for an error. -/
lemma utcFromHuman_eq {s us : ℤ} (hfits : IsTimePoint (s * 1000000000))
    (hall : IsTimePoint (s * 1000000000 + us * 1000)) (hlo : -1000000 < us) (hhi : us < 1000000)
    (hyear : 1000 ≤ lib.year (lib.localtime s) ∧ lib.year (lib.localtime s) ≤ 9999) :
    utcFromHuman lib (lib.strftime (lib.localtime s) ++ '.' :: format06 us) =
      some (if s = -1 then 0 else s * 1000000 + us) := by
  have hget := lib.getTime_strftime s hyear.1 hyear.2 ('.' :: format06 us)
  have hread : readFraction ('.' :: format06 us) = some us := by
    rw [readFraction, List.dropWhile_cons_of_neg (by decide)]
    exact readInt_format06 hlo hhi
  have hmicro : (s * 1000000000 + us * 1000).tdiv 1000 = s * 1000000 + us := by
    have hmul : s * 1000000000 + us * 1000 = (s * 1000000 + us) * 1000 := by omega
    rw [hmul, Int.mul_tdiv_cancel _ (by decide)]
  simp only [utcFromHuman, hget, hread, lib.mktime_localtime, hfits, hall, not_true_eq_false,
    if_false, hmicro]
  split_ifs <;> rfl

/-- What comes back is the time, but for the second before the epoch. -/
lemma roundTrip_eq {t : Int64} (hfits : IsTimePoint (t.toInt * 1000))
    (hyear : 1000 ≤ localYear lib t ∧ localYear lib t ≤ 9999) :
    roundTrip lib t = some (if t.toInt.tdiv 1000000 = -1 then 0 else t.toInt) := by
  obtain ⟨us, ht, hpos, hneg⟩ := tdiv_spec t.toInt
  have hlo : -1000000 < us := by omega
  have hhi : us < 1000000 := by omega
  have hwhole : IsTimePoint (t.toInt.tdiv 1000000 * 1000000000) := by
    obtain ⟨hle, hlt⟩ := hfits
    constructor <;> omega
  have hall : IsTimePoint (t.toInt.tdiv 1000000 * 1000000000 + us * 1000) := by
    have hsum : t.toInt.tdiv 1000000 * 1000000000 + us * 1000 = t.toInt * 1000 := by omega
    rw [hsum]
    exact hfits
  rw [roundTrip, utcToHuman_eq hfits ht hlo hhi hyear, Option.bind_some,
    utcFromHuman_eq hwhole hall hlo hhi hyear, ← ht]

lemma roundTrip_undefined {t : Int64} (h : ¬ IsTimePoint (t.toInt * 1000)) :
    roundTrip lib t = none := by
  simp only [roundTrip, utcToHuman, h, not_false_eq_true, if_true, Option.bind_none]

/-- Only times whose nanoseconds fit into 64 bits need a year of four digits. -/
lemma roundTrip_eq_some_iff {t : Int64} (hyear : IsTimePoint (t.toInt * 1000) →
      1000 ≤ localYear lib t ∧ localYear lib t ≤ 9999) :
    roundTrip lib t = some t.toInt ↔
      IsTimePoint (t.toInt * 1000) ∧ ¬ (-1999999 ≤ t.toInt ∧ t.toInt ≤ -1000000) := by
  by_cases hfits : IsTimePoint (t.toInt * 1000)
  · rw [roundTrip_eq hfits (hyear hfits), Option.some.injEq, ← tdiv_eq_neg_one_iff]
    have hzero : t.toInt.tdiv 1000000 = -1 → (0 : ℤ) ≠ t.toInt := by
      rw [tdiv_eq_neg_one_iff]
      omega
    split_ifs with hsec
    · exact iff_of_false (hzero hsec) (fun h => h.2 hsec)
    · exact iff_of_true rfl ⟨hfits, hsec⟩
  · rw [roundTrip_undefined hfits]
    exact iff_of_false (Option.some_ne_none _).symm (fun h => hfits h.1)

/-- In a zone with a fixed offset of at most a day no time that fits has another year. -/
theorem roundTrip_fixedZone_iff {offset : ℤ} (hlo : -86400 ≤ offset) (hhi : offset ≤ 86400)
    (t : Int64) : roundTrip (fixedZone offset) t = some t.toInt ↔
      IsTimePoint (t.toInt * 1000) ∧ ¬ (-1999999 ≤ t.toInt ∧ t.toInt ≤ -1000000) := by
  apply roundTrip_eq_some_iff
  rintro ⟨hge, hlt⟩
  obtain ⟨us, ht, hpos, hneg⟩ := tdiv_spec t.toInt
  apply Calendar.year_bounds
  · rw [epochDay]
    omega
  · rw [epochDay]
    omega

/-- A time with a year of four digits comes back exactly when its nanoseconds fit into 64 bits and
it does not lie in the second that `mktime` reports like an error. -/
theorem roundTrip_iff (lib : TimeLibrary) (t : Int64) (hlo : 1000 ≤ localYear lib t)
    (hhi : localYear lib t ≤ 9999) :
    roundTrip lib t = some t.toInt ↔
      (-2 ^ 63 ≤ t.toInt * 1000 ∧ t.toInt * 1000 < 2 ^ 63) ∧
        ¬ (-1999999 ≤ t.toInt ∧ t.toInt ≤ -1000000) :=
  roundTrip_eq_some_iff fun _ => ⟨hlo, hhi⟩

theorem roundTrip_iff_microseconds : localYear (fixedZone 10800) 1711791296123456 = 2024 ∧
    roundTrip (fixedZone 10800) 1711791296123456 = some (1711791296123456 : Int64).toInt := by
  have hyear : localYear (fixedZone 10800) 1711791296123456 = 2024 := by decide
  exact ⟨hyear, (roundTrip_iff (fixedZone 10800) 1711791296123456 (by omega) (by omega)).mpr
    (by decide)⟩

/-- The text of the second before the epoch is read as the epoch. -/
theorem roundTrip_fails : ¬ ∀ (lib : TimeLibrary) (t : Int64), 1000 ≤ localYear lib t →
    localYear lib t ≤ 9999 → roundTrip lib t = some t.toInt := by
  intro h
  have hyear : localYear (fixedZone 0) (-1000000) = 1969 := by decide
  have hback := h (fixedZone 0) (-1000000) (by omega) (by omega)
  rw [roundTrip_eq (by decide) (by omega)] at hback
  exact absurd hback (by decide)

end ToolkitCpp.MTime

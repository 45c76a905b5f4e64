import ToolkitCpp.GuardedRuns
import ToolkitCpp.Machine
import ToolkitCpp.Numerals

/-!
# Work intervals

`TWorkIntervals` keeps the times of day as decimal numbers `hhmmss`. On valid times this packing
has the order of the seconds of the day, so that `isRun` decides by the time in seconds, after
every sequence of `update` and `clear`.
-/
namespace ToolkitCpp.WorkIntervals
open GuardedRuns

/-- A number that was read as a `long`, with its limits, and then stored in an `int`. -/
def storeInt (i : ℤ) : ℤ := int32 (max (-2 ^ 63) (min i (2 ^ 63 - 1)))

/-- The conversion `%d` of `sscanf`: the number and the rest of the text. -/
def scanInt (s : Str) : Option (ℤ × Str) := (scanNumber s).map fun r => (storeInt r.1, r.2)

/-- `sscanf` with the format `%d:%d:%d`, when it returns 3. -/
def scanTime (s : Str) : Option (ℤ × ℤ × ℤ) :=
  match scanInt s with
  | some (dHour, ':' :: s) =>
      match scanInt s with
      | some (dMin, ':' :: s) => (scanInt s).map fun r => (dHour, dMin, r.1)
      | _ => none
  | _ => none

def atoi (s : Str) : ℤ := (scanInt s).elim 0 Prod.fst

structure WorkInterval where
  timeFrom : ℤ
  timeTo : ℤ
  deriving DecidableEq, Repr

def WorkInterval.isRun (e : WorkInterval) (currTime : ℤ) : Bool :=
  decide (currTime ≥ e.timeFrom) && decide (currTime < e.timeTo)

structure TWorkIntervals where
  run : Bool := false
  intervals : List WorkInterval := []
  ena : Bool := false
  deriving DecidableEq, Repr

/-- `Interval_t`. -/
structure Interval where
  begin : Str
  ending : Str
  deriving DecidableEq, Repr

/-- The configuration; its own `m_Ena` is not read. -/
structure TWorkIntervalsList where
  run : Bool
  intervals : List Interval
  deriving DecidableEq, Repr

/-- The fields of `struct tm` for a local time of day. -/
structure LocalTime where
  hour : Fin 24
  min : Fin 60
  sec : Fin 60
  deriving DecidableEq, Repr

def getCurrTimeIntervals (t : LocalTime) : ℤ :=
  atoi (format02 t.hour ++ format02 t.min ++ format02 t.sec)

def stringToTime (s : Str) : ℤ :=
  if s.length > 0 then
    -- `sscanf` sees the text up to the first zero byte
    match scanTime (s.takeWhile (· ≠ '\x00')) with
    | some (dHour, dMin, dSec) =>
        if 0 ≤ dHour ∧ dHour ≤ 24 ∧ 0 ≤ dMin ∧ dMin < 60 then
          let d := int32 ((dHour * 100 + dMin) * 100 + dSec)
          if 0 ≤ d ∧ d ≤ 240000 then d else -1
        else -1
    | none => -1
  else -1

/-- `clear` forgets everything. -/
def TWorkIntervals.clear (_ : TWorkIntervals) : TWorkIntervals :=
  { ena := false, run := false, intervals := [] }

/-- The loop of `update` over the configured intervals. -/
def TWorkIntervals.fill (w : TWorkIntervals) : Bool → List Interval → TWorkIntervals × Bool
  | _, [] => ({ w with ena := true }, true)
  | isFirst, e :: es =>
      let timeFrom := stringToTime e.begin
      let timeTo := stringToTime e.ending
      if isFirst ∧ timeFrom < 0 then (w, false)
      else if ¬ isFirst ∧ timeFrom ≤ 0 then (w, false)
      else if timeTo ≤ 0 then (w, false)
      else if timeTo ≤ timeFrom then (w, false)
      else
        TWorkIntervals.fill { w with intervals := w.intervals ++ [⟨timeFrom, timeTo⟩] } false es

def TWorkIntervals.update (w : TWorkIntervals) (workIntervListConf : TWorkIntervalsList) :
    TWorkIntervals × Bool :=
  let w := w.clear
  if workIntervListConf.intervals.length > 0 then
    TWorkIntervals.fill { w with run := workIntervListConf.run } true workIntervListConf.intervals
  else (w, false)

def TWorkIntervals.isRun (w : TWorkIntervals) (t : LocalTime) : Bool :=
  if w.ena = false then true
  else if w.intervals.length > 0 ∧ w.intervals.any fun e => e.isRun (getCurrTimeIntervals t) then
    w.run
  else !w.run

def LocalTime.seconds (t : LocalTime) : ℕ := t.hour * 3600 + t.min * 60 + t.sec

/-- A valid time of day, by its seconds. -/
structure IsTime (text : Str) (seconds : ℕ) : Prop where
  parts : ∃ hh mm ss : Str, text = hh ++ ':' :: (mm ++ ':' :: ss) ∧
    IsNumber hh ∧ IsNumber mm ∧ IsNumber ss ∧ decimal mm < 60 ∧ decimal ss < 60 ∧
    seconds = decimal hh * 3600 + decimal mm * 60 + decimal ss
  atMost : seconds ≤ 86400

def TWorkIntervalsList.Valid (conf : TWorkIntervalsList) : Prop :=
  ∀ e ∈ conf.intervals, (∃ b, IsTime e.begin b) ∧ ∃ b, IsTime e.ending b

/-- The time lies between the two ends of the interval, the second one excluded. -/
def Interval.Covers (e : Interval) (t : LocalTime) : Prop :=
  ∃ b b', IsTime e.begin b ∧ IsTime e.ending b' ∧ b ≤ t.seconds ∧ t.seconds < b'

inductive Call
  | update (workIntervListConf : TWorkIntervalsList)
  | clear
  deriving DecidableEq, Repr

def calls : System TWorkIntervals Call where
  possible _ _ := True
  step w
    | .update conf => (w.update conf).1
    | .clear => w.clear

/-- A number that an `int` holds is stored as it is. -/
lemma scanInt_of_scanNumber {s rest : Str} {i : ℤ} (h : scanNumber s = some (i, rest))
    (hlo : -2 ^ 31 ≤ i) (hhi : i < 2 ^ 31) : scanInt s = some (i, rest) := by
  have hstore : storeInt i = i := by
    rw [storeInt, int32_eq]
    omega
  rw [scanInt, h, Option.map_some, hstore]

lemma scanInt_number {digits : Str} (rest : Str) (hd : IsNumber digits)
    (hlt : decimal digits < 2 ^ 31) (hrest : rest.takeWhile Char.isDigit = []) :
    scanInt (digits ++ rest) = some ((decimal digits : ℤ), rest) :=
  scanInt_of_scanNumber (scanNumber_number hd hrest) (by omega) (by omega)

/-- Seconds of the day as the number `hhmmss`. -/
def packed (seconds : ℕ) : ℤ :=
  (seconds / 3600 * 10000 + seconds / 60 % 60 * 100 + seconds % 60 : ℕ)

lemma packed_eq {h m s : ℕ} (hm : m < 60) (hs : s < 60) :
    packed (h * 3600 + m * 60 + s) = (h * 100 + m) * 100 + s := by
  have hhour : (h * 3600 + m * 60 + s) / 3600 = h := by omega
  have hmin : (h * 3600 + m * 60 + s) / 60 % 60 = m := by omega
  have hsec : (h * 3600 + m * 60 + s) % 60 = s := by omega
  rw [packed, hhour, hmin, hsec]
  push_cast
  ring

lemma packed_lt_succ (n : ℕ) : packed n < packed (n + 1) := by
  have hn : n / 3600 = n / 60 / 60 := by rw [Nat.div_div_eq_div_mul]
  have hn' : (n + 1) / 3600 = (n + 1) / 60 / 60 := by rw [Nat.div_div_eq_div_mul]
  unfold packed
  rw [hn, hn']
  omega

lemma packed_lt_of_lt {a b : ℕ} (h : a < b) : packed a < packed b := by
  induction h with
  | refl => exact packed_lt_succ a
  | step _ ih => exact Int.lt_trans ih (packed_lt_succ _)

lemma packed_le_iff {a b : ℕ} : packed a ≤ packed b ↔ a ≤ b := by
  rcases Nat.lt_trichotomy a b with h | rfl | h
  · have hlt := packed_lt_of_lt h
    omega
  · omega
  · have hlt := packed_lt_of_lt h
    omega

lemma packed_lt_iff {a b : ℕ} : packed a < packed b ↔ a < b := by
  rw [← Int.not_le, packed_le_iff, Nat.not_le]

lemma packed_inj {a b : ℕ} (h : packed a = packed b) : a = b :=
  Nat.le_antisymm (packed_le_iff.mp h.le) (packed_le_iff.mp h.ge)

lemma stringToTime_eq {text : Str} {seconds : ℕ} (h : IsTime text seconds) :
    stringToTime text = packed seconds := by
  obtain ⟨⟨hh, mm, ss, rfl, hhour, hmin, hsec, hmin60, hsec60, rfl⟩, hmost⟩ := h
  have hnul : (hh ++ ':' :: (mm ++ ':' :: ss)).takeWhile (· ≠ '\x00') =
      hh ++ ':' :: (mm ++ ':' :: ss) := by
    rw [List.takeWhile_eq_self_iff]
    intro c hc
    simp only [List.mem_append, List.mem_cons] at hc
    rcases hc with hc | rfl | hc | rfl | hc
    · simpa using hhour.ne_of_mem hc (by decide)
    · decide
    · simpa using hmin.ne_of_mem hc (by decide)
    · decide
    · simpa using hsec.ne_of_mem hc (by decide)
  have hscan : scanTime (hh ++ ':' :: (mm ++ ':' :: ss)) =
      some ((decimal hh : ℤ), (decimal mm : ℤ), (decimal ss : ℤ)) := by
    have hlast := scanInt_number [] hsec (by omega) rfl
    rw [List.append_nil] at hlast
    have hfirst := scanInt_number (':' :: (mm ++ ':' :: ss)) hhour (by omega) rfl
    have hsecond := scanInt_number (':' :: ss) hmin (by omega) rfl
    simp only [scanTime, hfirst, hsecond, hlast, Option.map_some]
  have hpos : (hh ++ ':' :: (mm ++ ':' :: ss)).length > 0 := by simp
  rw [stringToTime, if_pos hpos, hnul, hscan]
  have hint : int32 ((decimal hh * 100 + decimal mm) * 100 + decimal ss) =
      (decimal hh * 100 + decimal mm) * 100 + decimal ss := by
    rw [int32_eq]
    omega
  simp only [hint, packed_eq hmin60 hsec60]
  split_ifs <;> omega

lemma getCurrTimeIntervals_eq (t : LocalTime) : getCurrTimeIntervals t = packed t.seconds := by
  obtain ⟨⟨h, hh⟩, ⟨m, hm⟩, ⟨s, hs⟩⟩ := t
  have hnumber : IsNumber (format02 h ++ format02 m ++ format02 s) :=
    ((isNumber_format02 h).append (isNumber_format02 m)).append (isNumber_format02 s)
  have hvalue : decimal (format02 h ++ format02 m ++ format02 s) = (h * 100 + m) * 100 + s := by
    rw [decimal_append, decimal_append, length_format02 hm, length_format02 hs, decimal_format02,
      decimal_format02, decimal_format02]
    ring
  have hscan := scanInt_number [] hnumber (by omega) rfl
  rw [List.append_nil] at hscan
  rw [getCurrTimeIntervals, atoi, hscan, LocalTime.seconds, packed_eq hm hs, Option.elim_some, hvalue]
  push_cast
  rfl

/-- A loop that comes to its end has taken over all intervals, and one that breaks off leaves the
flag as it was. -/
lemma TWorkIntervals.fill_spec (w : TWorkIntervals) (isFirst : Bool) (es : List Interval) :
    ((w.fill isFirst es).2 = true → (w.fill isFirst es).1 =
        ⟨w.run, w.intervals ++ es.map fun e => ⟨stringToTime e.begin, stringToTime e.ending⟩,
          true⟩) ∧
      ((w.fill isFirst es).2 = false → (w.fill isFirst es).1.ena = w.ena) := by
  induction es generalizing w isFirst with
  | nil => simp [TWorkIntervals.fill]
  | cons e es ih =>
    unfold TWorkIntervals.fill
    dsimp only
    split_ifs
    · simp
    · simp
    · simp
    · simp
    · obtain ⟨htrue, hfalse⟩ := ih
        { w with intervals := w.intervals ++ [⟨stringToTime e.begin, stringToTime e.ending⟩] } false
      refine ⟨fun h => ?_, hfalse⟩
      rw [htrue h]
      simp

lemma TWorkIntervals.update_true {w : TWorkIntervals} {conf : TWorkIntervalsList}
    (h : (w.update conf).2 = true) : (w.update conf).1 =
      ⟨conf.run, conf.intervals.map fun e => ⟨stringToTime e.begin, stringToTime e.ending⟩,
        true⟩ := by
  unfold TWorkIntervals.update at h ⊢
  dsimp only at h ⊢
  split_ifs at h ⊢ with hsize
  exact (TWorkIntervals.fill_spec _ _ _).1 h

lemma TWorkIntervals.update_false {w : TWorkIntervals} {conf : TWorkIntervalsList}
    (h : (w.update conf).2 = false) : (w.update conf).1.ena = false := by
  unfold TWorkIntervals.update at h ⊢
  dsimp only at h ⊢
  split_ifs at h ⊢ with hsize
  · exact (TWorkIntervals.fill_spec _ _ _).2 h
  · rfl

/-- The interval of packed times holds the current time exactly if the configured one covers it. -/
lemma covers_iff {e : Interval} {t : LocalTime} {b b' : ℕ} (hb : IsTime e.begin b)
    (hb' : IsTime e.ending b') :
    (⟨stringToTime e.begin, stringToTime e.ending⟩ : WorkInterval).isRun (getCurrTimeIntervals t) =
      true ↔ e.Covers t := by
  have hisRun : (⟨stringToTime e.begin, stringToTime e.ending⟩ : WorkInterval).isRun
      (getCurrTimeIntervals t) = true ↔ b ≤ t.seconds ∧ t.seconds < b' := by
    simp [WorkInterval.isRun, stringToTime_eq hb, stringToTime_eq hb', getCurrTimeIntervals_eq,
      packed_le_iff, packed_lt_iff]
  rw [hisRun]
  constructor
  · rintro ⟨hle, hlt⟩
    exact ⟨b, b', hb, hb', hle, hlt⟩
  · rintro ⟨c, c', hc, hc', hle, hlt⟩
    have hbegin : b = c := packed_inj
      ((stringToTime_eq hb).symm.trans (stringToTime_eq hc))
    have hending : b' = c' := packed_inj
      ((stringToTime_eq hb').symm.trans (stringToTime_eq hc'))
    rw [hbegin, hending]
    exact ⟨hle, hlt⟩

lemma TWorkIntervals.isRun_of_disabled {w : TWorkIntervals} (h : w.ena = false) (t : LocalTime) :
    w.isRun t = true :=
  if_pos h

lemma TWorkIntervals.isRun_of_ena {w : TWorkIntervals} (h : w.ena = true) (t : LocalTime) :
    w.isRun t =
      if w.intervals.any fun e => e.isRun (getCurrTimeIntervals t) then w.run else !w.run := by
  have hsize : (w.intervals.any fun e => e.isRun (getCurrTimeIntervals t)) = true →
      w.intervals.length > 0 := by
    intro hany
    obtain ⟨e, he, -⟩ := List.any_eq_true.mp hany
    exact List.length_pos_of_mem he
  simp only [TWorkIntervals.isRun, h, and_iff_right_of_imp hsize]
  rfl

lemma isRun_of_update {w : TWorkIntervals} {conf : TWorkIntervalsList}
    (h : (w.update conf).2 = true) (hvalid : conf.Valid) (t : LocalTime) :
    ((∃ e ∈ conf.intervals, e.Covers t) → (w.update conf).1.isRun t = conf.run) ∧
      ((¬ ∃ e ∈ conf.intervals, e.Covers t) → (w.update conf).1.isRun t = !conf.run) := by
  have hany : (conf.intervals.map fun e =>
        (⟨stringToTime e.begin, stringToTime e.ending⟩ : WorkInterval)).any
        (fun e => e.isRun (getCurrTimeIntervals t)) = true ↔ ∃ e ∈ conf.intervals, e.Covers t := by
    rw [List.any_map, List.any_eq_true]
    apply exists_congr
    intro e
    apply and_congr_right
    intro he
    obtain ⟨⟨b, hb⟩, b', hb'⟩ := hvalid e he
    rw [Function.comp_apply]
    exact covers_iff hb hb'
  rw [TWorkIntervals.update_true h, TWorkIntervals.isRun_of_ena rfl, ← hany]
  exact ⟨fun hin => if_pos hin, fun hout => if_neg hout⟩

/-- After every sequence of calls. Following an `update` that returned true on valid times, `isRun`
returns the configured value exactly within the intervals, measured in seconds of the day;
following one that returned false, or `clear`, it returns true. -/
theorem isRun_after_calls (cs : List Call) (t : LocalTime) :
    (∀ conf : TWorkIntervalsList, conf.Valid → ((calls.run {} cs).update conf).2 = true →
      ((∃ e ∈ conf.intervals, e.Covers t) →
        (calls.run {} (cs ++ [.update conf])).isRun t = conf.run) ∧
      ((¬ ∃ e ∈ conf.intervals, e.Covers t) →
        (calls.run {} (cs ++ [.update conf])).isRun t = !conf.run)) ∧
    (∀ conf, ((calls.run {} cs).update conf).2 = false →
      (calls.run {} (cs ++ [.update conf])).isRun t = true) ∧
    (calls.run {} (cs ++ [.clear])).isRun t = true := by
  have hlast (c : Call) : calls.run {} (cs ++ [c]) = calls.step (calls.run {} cs) c := by
    rw [System.run, List.foldl_append]
    rfl
  simp only [hlast]
  refine ⟨?_, ?_, rfl⟩
  · intro conf hvalid htrue
    exact isRun_of_update htrue hvalid t
  · intro conf hfalse
    exact TWorkIntervals.isRun_of_disabled (TWorkIntervals.update_false hfalse) t

def timeText (h m s : ℕ) : Str := format02 h ++ ':' :: (format02 m ++ ':' :: format02 s)

/-- The texts `hh:mm:ss` of two digits each are among the valid times. -/
lemma isTime_timeText {h m s : ℕ} (hm : m < 60) (hs : s < 60)
    (hmost : h * 3600 + m * 60 + s ≤ 86400) : IsTime (timeText h m s) (h * 3600 + m * 60 + s) := by
  refine ⟨⟨_, _, _, rfl, isNumber_format02 h, isNumber_format02 m, isNumber_format02 s, ?_, ?_, ?_⟩,
    hmost⟩
  · rwa [decimal_format02]
  · rwa [decimal_format02]
  · rw [decimal_format02, decimal_format02, decimal_format02]

/-- From nine to half past twelve and from one to midnight. -/
def twoShifts : TWorkIntervalsList :=
  ⟨true, [⟨timeText 9 0 0, timeText 12 30 0⟩, ⟨timeText 13 0 0, timeText 24 0 0⟩]⟩

lemma twoShifts_valid : twoShifts.Valid := by
  intro e he
  rw [twoShifts, List.mem_pair] at he
  rcases he with rfl | rfl
  · exact ⟨⟨_, isTime_timeText (by decide) (by decide) (by decide)⟩,
      _, isTime_timeText (by decide) (by decide) (by decide)⟩
  · exact ⟨⟨_, isTime_timeText (by decide) (by decide) (by decide)⟩,
      _, isTime_timeText (by decide) (by decide) (by decide)⟩

theorem isRun_after_calls_twoShifts :
    (calls.run {} [.clear, .update twoShifts]).isRun ⟨12, 29, 59⟩ = true := by
  refine ((isRun_after_calls [.clear] ⟨12, 29, 59⟩).1 twoShifts twoShifts_valid (by decide)).1 ?_
  exact ⟨_, List.mem_cons_self, _, _, isTime_timeText (by decide) (by decide) (by decide),
    isTime_timeText (by decide) (by decide) (by decide), by decide, by decide⟩

end ToolkitCpp.WorkIntervals

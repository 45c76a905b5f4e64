import ToolkitCpp.GuardedRuns
import ToolkitCpp.JsonValue

/-!
# Watching a configuration file

`FileMonitor::checkFileChange` and `ConfigMonitor::checkConfigNow`. A poll passes three
filters: the nanoseconds of the modification time and the size, the text of the file, and
the JSON value. Each is compared with what was recorded at an earlier poll. What the file
system answers comes from outside, and so does the parser of the JSON library.
-/
namespace ToolkitCpp.Monitor
open GuardedRuns Json

structure FileStat where
  stDev : ℕ
  tvSec : ℤ
  tvNsec : ℤ
  stSize : ℤ
  deriving DecidableEq, Repr

/-- What `stat` and `dumpFile` answer at one poll. -/
structure Poll where
  stat : Option FileStat
  dump : Option Str
  deriving DecidableEq, Repr

structure FileMonitor where
  pathToFile : Str
  lastFileStat : FileStat
  lastFileDump : Str
  lastError : Str
  deriving DecidableEq, Repr

def FileMonitor.rewriteLastDump (m : FileMonitor) (newFileDump : Str) (newFileStat : FileStat) :
    FileMonitor :=
  { m with lastFileDump := newFileDump, lastFileStat := newFileStat }

/-- A file has been recorded. -/
def FileMonitor.opened (m : FileMonitor) : Bool := m.lastFileStat.stDev != 0

/-- The seconds of the modification time are not compared. -/
def FileMonitor.sameStamp (m : FileMonitor) (newFileStat : FileStat) : Bool :=
  m.opened && (newFileStat.tvNsec == m.lastFileStat.tvNsec &&
    newFileStat.stSize == m.lastFileStat.stSize)

def FileMonitor.sameDump (m : FileMonitor) (newFileDump : Str) : Bool :=
  m.opened && m.lastFileDump == newFileDump

def FileMonitor.statError (m : FileMonitor) : Str :=
  txt "Невозможно проверить файл " ++ m.pathToFile ++
    txt ", ошибка доступа или файл не существует"

def FileMonitor.dumpError (m : FileMonitor) : Str :=
  txt "Не удалось взять дамп от файла: " ++ m.pathToFile

/-- The monitor afterwards and, if the file has changed, its new text and status. -/
def FileMonitor.checkFileChange (m : FileMonitor) (p : Poll) :
    FileMonitor × Option (Str × FileStat) :=
  match p.stat with
  | none => ({ m with lastError := m.statError }, none)
  | some newFileStat =>
      if m.sameStamp newFileStat then (m, none)
      else match p.dump with
        | none => ({ m with lastError := m.dumpError }, none)
        | some newFileDump =>
            if m.sameDump newFileDump then (m.rewriteLastDump newFileDump newFileStat, none)
            else (m, some (newFileDump, newFileStat))

structure ConfigMonitor where
  files : FileMonitor
  lastConfigContent : JSON

/-- The monitor afterwards, the argument of the callback if it is called, and the result. -/
def ConfigMonitor.checkConfigNow (parse : Str → Option JSON) (m : ConfigMonitor)
    (hasCallback : Bool) (p : Poll) : ConfigMonitor × Option JSON × Bool :=
  match m.files.checkFileChange p with
  | (files, none) => ({ m with files := files }, none, false)
  | (files, some (newFileDump, newFileStat)) =>
      match parse newFileDump with
      | none => ({ m with files := files }, none, false)
      | some newJson =>
          let kept : ConfigMonitor := ⟨files.rewriteLastDump newFileDump newFileStat, newJson⟩
          if !m.lastConfigContent.empty && newJson.eqv m.lastConfigContent then
            (kept, none, false)
          else (kept, if hasCallback then some newJson else none, true)

/-- A monitor with a callback, and the value of the last call of it. -/
structure Watch where
  monitor : ConfigMonitor
  reported : Option JSON

def Watch.initial (pathToFile : Str) : Watch :=
  ⟨⟨⟨pathToFile, ⟨0, 0, 0, 0⟩, [], []⟩, .null⟩, none⟩

variable (parse : Str → Option JSON)

def Watch.called (s : Watch) (p : Poll) : Option JSON :=
  (s.monitor.checkConfigNow parse true p).2.1

def Watch.step (s : Watch) (p : Poll) : Watch :=
  ⟨(s.monitor.checkConfigNow parse true p).1, (s.called parse p).or s.reported⟩

def watch : System Watch Poll := ⟨fun _ _ => True, Watch.step parse⟩

/-- The value in the file. -/
def Poll.read (p : Poll) : Option JSON := (p.stat.bind fun _ => p.dump).bind parse

/-- The value the callback should get: the one in the file, unless it is equal to the value
last reported. -/
def Watch.due (s : Watch) (p : Poll) : Option JSON :=
  (p.read parse).filter fun j => s.reported.all fun r => !j.eqv r

def Watch.Exact (s : Watch) (p : Poll) : Prop := s.called parse p = s.due parse p

instance (s : Watch) (p : Poll) : Decidable (s.Exact parse p) :=
  inferInstanceAs (Decidable (_ = _))

/-- What the filters need in order to decide rightly about a value `j` when `r` was reported
last. Behind an unchanged stamp the value is still equal to `r`. Otherwise the text is the
recorded one, or the recorded value decides: an empty one must have been followed by a
different value, and `j` must be equal to it exactly when it is equal to `r`. -/
def Watch.Clear (s : Watch) (p : Poll) : Prop :=
  ∀ st ∈ p.stat, ∀ c ∈ p.dump, ∀ j ∈ parse c, ∀ r ∈ s.reported,
    if s.monitor.files.sameStamp st then j.eqv r = true
    else s.monitor.files.sameDump c = true ∨
      if s.monitor.lastConfigContent.empty then j.eqv r = false
      else j.eqv s.monitor.lastConfigContent = j.eqv r

/-- The recorded value stands for the reported one. -/
structure Watch.Settled (s : Watch) : Prop where
  fresh : s.reported = none → s.monitor.files.opened = false ∧ s.monitor.lastConfigContent = .null
  told : ∀ r ∈ s.reported, s.monitor.lastConfigContent.eqv r = true
  kept : s.monitor.files.opened = true →
    parse s.monitor.files.lastFileDump = some s.monitor.lastConfigContent

variable {m : ConfigMonitor} {p : Poll} {st : FileStat} {c : Str} {j : JSON}

section Outcomes

lemma checkConfigNow_noStat (hst : p.stat = none) : m.checkConfigNow parse true p =
    ({ m with files := { m.files with lastError := m.files.statError } }, none, false) := by
  simp only [ConfigMonitor.checkConfigNow, FileMonitor.checkFileChange, hst]

lemma checkConfigNow_sameStamp (hst : p.stat = some st) (h : m.files.sameStamp st = true) :
    m.checkConfigNow parse true p = (m, none, false) := by
  simp only [ConfigMonitor.checkConfigNow, FileMonitor.checkFileChange, hst, h, if_true]

lemma checkConfigNow_noDump (hst : p.stat = some st) (h : m.files.sameStamp st = false)
    (hc : p.dump = none) : m.checkConfigNow parse true p =
      ({ m with files := { m.files with lastError := m.files.dumpError } }, none, false) := by
  simp only [ConfigMonitor.checkConfigNow, FileMonitor.checkFileChange, hst, h, hc,
    Bool.false_eq_true, if_false]

lemma checkConfigNow_sameDump (hst : p.stat = some st) (h : m.files.sameStamp st = false)
    (hc : p.dump = some c) (hd : m.files.sameDump c = true) :
    m.checkConfigNow parse true p =
      ({ m with files := m.files.rewriteLastDump c st }, none, false) := by
  simp only [ConfigMonitor.checkConfigNow, FileMonitor.checkFileChange, hst, h, hc, hd,
    Bool.false_eq_true, if_false, if_true]

lemma checkConfigNow_changed (hst : p.stat = some st) (h : m.files.sameStamp st = false)
    (hc : p.dump = some c) (hd : m.files.sameDump c = false) :
    m.checkConfigNow parse true p =
      match parse c with
      | none => (m, none, false)
      | some j =>
          if !m.lastConfigContent.empty && j.eqv m.lastConfigContent then
            (⟨m.files.rewriteLastDump c st, j⟩, none, false)
          else (⟨m.files.rewriteLastDump c st, j⟩, some j, true) := by
  simp only [ConfigMonitor.checkConfigNow, FileMonitor.checkFileChange, hst, h, hc, hd,
    Bool.false_eq_true, if_false, if_true]

end Outcomes

section Polls

variable {parse} {s : Watch}

lemma Watch.called_eq {files : FileMonitor} {content : JSON} {told : Option JSON} {ret : Bool}
    (h : s.monitor.checkConfigNow parse true p = (⟨files, content⟩, told, ret)) :
    s.called parse p = told ∧ s.step parse p = ⟨⟨files, content⟩, told.or s.reported⟩ := by
  have hc : s.called parse p = told := by rw [Watch.called, h]
  exact ⟨hc, by rw [Watch.step, hc, h]⟩

/-- A poll that changes neither the recorded text nor the recorded value. -/
lemma Watch.Settled.unchanged (hs : s.Settled parse) {files : FileMonitor}
    (hdump : files.lastFileDump = s.monitor.files.lastFileDump)
    (hopen : files.opened = true → s.monitor.files.opened = true) :
    (⟨⟨files, s.monitor.lastConfigContent⟩, s.reported⟩ : Watch).Settled parse := by
  refine ⟨?_, hs.told, ?_⟩
  · intro hr
    obtain ⟨hclosed, hnull⟩ := hs.fresh hr
    refine ⟨Bool.eq_false_iff.mpr fun h => ?_, hnull⟩
    rw [hopen h] at hclosed
    cases hclosed
  · intro h
    rw [hdump]
    exact hs.kept (hopen h)

lemma opened_of_sameDump {f : FileMonitor} (h : f.sameDump c = true) :
    f.opened = true ∧ f.lastFileDump = c := by
  simpa [FileMonitor.sameDump] using h

/-- A file that cannot be read as a value changes nothing that matters. -/
lemma Watch.Settled.unread (hs : s.Settled parse) (hread : p.read parse = none) :
    s.called parse p = none ∧ (s.step parse p).Settled parse := by
  cases hst : p.stat with
  | none =>
    obtain ⟨hcall, hstep⟩ := Watch.called_eq (checkConfigNow_noStat parse hst)
    exact ⟨hcall, hstep ▸ hs.unchanged rfl id⟩
  | some st =>
    cases hstamp : s.monitor.files.sameStamp st with
    | true =>
      obtain ⟨hcall, hstep⟩ := Watch.called_eq (checkConfigNow_sameStamp parse hst hstamp)
      exact ⟨hcall, hstep ▸ hs⟩
    | false =>
      cases hc : p.dump with
      | none =>
        obtain ⟨hcall, hstep⟩ :=
          Watch.called_eq (checkConfigNow_noDump parse hst hstamp hc)
        exact ⟨hcall, hstep ▸ hs.unchanged rfl id⟩
      | some c =>
        have hparse : parse c = none := by simpa [Poll.read, hst, hc] using hread
        cases hd : s.monitor.files.sameDump c with
        | true =>
          obtain ⟨hopen, hdump⟩ := opened_of_sameDump hd
          have hkept := hs.kept hopen
          rw [hdump, hparse] at hkept
          cases hkept
        | false =>
          have h := checkConfigNow_changed parse hst hstamp hc hd
          rw [hparse] at h
          obtain ⟨hcall, hstep⟩ := Watch.called_eq h
          exact ⟨hcall, hstep ▸ hs⟩

lemma Watch.due_eq (hst : p.stat = some st) (hc : p.dump = some c) (hj : parse c = some j) :
    s.due parse p = if s.reported.all fun r => !j.eqv r then some j else none := by
  simp [Watch.due, Poll.read, hst, hc, hj, Option.filter]

lemma Watch.clear_iff (hst : p.stat = some st) (hc : p.dump = some c) (hj : parse c = some j) :
    s.Clear parse p ↔ ∀ r ∈ s.reported,
      if s.monitor.files.sameStamp st then j.eqv r = true
      else s.monitor.files.sameDump c = true ∨
        if s.monitor.lastConfigContent.empty then j.eqv r = false
        else j.eqv s.monitor.lastConfigContent = j.eqv r := by
  simp [Watch.Clear, hst, hc, hj]

/-- The callback has been called with `j`. -/
lemma Watch.settled_told {files : FileMonitor} (hdump : parse files.lastFileDump = some j) :
    (⟨⟨files, j⟩, some j⟩ : Watch).Settled parse := by
  refine ⟨by simp, ?_, fun _ => hdump⟩
  intro r hr
  rw [← Option.some.inj hr]
  exact JSON.eqv_self j

/-- The first value ever read is reported. -/
lemma Watch.Settled.first (hs : s.Settled parse) (hr : s.reported = none) (hst : p.stat = some st)
    (hc : p.dump = some c) (hj : parse c = some j) :
    s.Exact parse p ∧ (s.step parse p).Settled parse := by
  obtain ⟨hclosed, hnull⟩ := hs.fresh hr
  have hstamp : s.monitor.files.sameStamp st = false := by simp [FileMonitor.sameStamp, hclosed]
  have hd : s.monitor.files.sameDump c = false := by simp [FileMonitor.sameDump, hclosed]
  have h := checkConfigNow_changed parse hst hstamp hc hd
  have hempty : JSON.null.empty = true := rfl
  simp only [hj, hnull, hempty, Bool.not_true, Bool.false_and, Bool.false_eq_true, if_false] at h
  obtain ⟨hcall, hstep⟩ := Watch.called_eq h
  constructor
  · rw [Watch.Exact, hcall, Watch.due_eq hst hc hj, hr]
    rfl
  · rw [hstep]
    exact Watch.settled_told hj

section Later

variable {r : JSON}

lemma Watch.exact_iff_called (hr : s.reported = some r) (hst : p.stat = some st)
    (hc : p.dump = some c) (hj : parse c = some j) :
    s.Exact parse p ↔ s.called parse p = if j.eqv r then none else some j := by
  have hdue : s.due parse p = if j.eqv r then none else some j := by
    rw [Watch.due_eq hst hc hj, hr, Option.all_some]
    cases j.eqv r <;> rfl
  rw [Watch.Exact, hdue]

lemma Watch.clear_iff_told (hr : s.reported = some r) (hst : p.stat = some st)
    (hc : p.dump = some c) (hj : parse c = some j) :
    s.Clear parse p ↔
      if s.monitor.files.sameStamp st then j.eqv r = true
      else s.monitor.files.sameDump c = true ∨
        if s.monitor.lastConfigContent.empty then j.eqv r = false
        else j.eqv s.monitor.lastConfigContent = j.eqv r := by
  rw [Watch.clear_iff hst hc hj, hr]
  simp only [Option.mem_def, Option.some.injEq, forall_eq']

/-- Behind a new stamp and a new text the recorded value decides. -/
lemma Watch.compared (hr : s.reported = some r) (hst : p.stat = some st)
    (hc : p.dump = some c) (hj : parse c = some j)
    (hstamp : s.monitor.files.sameStamp st = false)
    (hd : s.monitor.files.sameDump c = false) :
    (s.Exact parse p ↔ s.Clear parse p) ∧
      (s.Clear parse p → (s.step parse p).Settled parse) := by
  rw [Watch.exact_iff_called hr hst hc hj, Watch.clear_iff_told hr hst hc hj, hstamp, hd]
  simp only [Bool.false_eq_true, if_false, false_or]
  have h := checkConfigNow_changed parse hst hstamp hc hd
  simp only [hj] at h
  cases hempty : s.monitor.lastConfigContent.empty with
  | true =>
    simp only [hempty, Bool.not_true, Bool.false_and, Bool.false_eq_true, if_false] at h
    obtain ⟨hcall, hstep⟩ := Watch.called_eq h
    refine ⟨?_, fun _ => hstep ▸ Watch.settled_told hj⟩
    rw [hcall]
    cases j.eqv r <;> simp
  | false =>
    simp only [hempty, Bool.not_false, Bool.true_and] at h
    simp only [Bool.false_eq_true, if_false]
    cases heq : j.eqv s.monitor.lastConfigContent with
    | true =>
      simp only [heq, if_true] at h
      obtain ⟨hcall, hstep⟩ := Watch.called_eq h
      constructor
      · rw [hcall]
        cases j.eqv r <;> simp
      · intro hsame
        rw [hstep, hr]
        refine ⟨by simp, ?_, fun _ => hj⟩
        intro r' hr'
        rw [← Option.some.inj hr']
        exact hsame.symm
    | false =>
      simp only [heq, Bool.false_eq_true, if_false] at h
      obtain ⟨hcall, hstep⟩ := Watch.called_eq h
      refine ⟨?_, fun _ => hstep ▸ Watch.settled_told hj⟩
      rw [hcall]
      cases j.eqv r <;> simp

/-- A later value is treated rightly exactly when the filters can tell. -/
lemma Watch.Settled.later (hs : s.Settled parse) (hr : s.reported = some r)
    (hst : p.stat = some st) (hc : p.dump = some c) (hj : parse c = some j) :
    (s.Exact parse p ↔ s.Clear parse p) ∧
      (s.Clear parse p → (s.step parse p).Settled parse) := by
  cases hstamp : s.monitor.files.sameStamp st with
  | true =>
    obtain ⟨hcall, hstep⟩ := Watch.called_eq (checkConfigNow_sameStamp parse hst hstamp)
    refine ⟨?_, fun _ => hstep ▸ hs⟩
    rw [Watch.exact_iff_called hr hst hc hj, Watch.clear_iff_told hr hst hc hj, hcall, hstamp]
    cases j.eqv r <;> simp
  | false =>
    cases hd : s.monitor.files.sameDump c with
    | true =>
      obtain ⟨hcall, hstep⟩ :=
        Watch.called_eq (checkConfigNow_sameDump parse hst hstamp hc hd)
      obtain ⟨hopen, hdump⟩ := opened_of_sameDump hd
      have hvalue : j = s.monitor.lastConfigContent := by
        have hkept := hs.kept hopen
        rw [hdump, hj] at hkept
        exact Option.some.inj hkept
      have htold := hs.told r hr
      rw [← hvalue] at htold
      refine ⟨?_, fun _ => hstep ▸ hs.unchanged hdump.symm fun _ => hopen⟩
      rw [Watch.exact_iff_called hr hst hc hj, Watch.clear_iff_told hr hst hc hj, hcall, htold,
        hstamp, hd]
      simp
    | false => exact Watch.compared hr hst hc hj hstamp hd

end Later

lemma Watch.Settled.poll (hs : s.Settled parse) (p : Poll) :
    (s.Exact parse p ↔ s.Clear parse p) ∧
      (s.Clear parse p → (s.step parse p).Settled parse) := by
  cases hread : p.read parse with
  | none =>
    obtain ⟨hcall, hstep⟩ := hs.unread hread
    refine ⟨iff_of_true ?_ ?_, fun _ => hstep⟩
    · rw [Watch.Exact, hcall, Watch.due, hread]
      rfl
    · intro st hst c hc j hj
      simp [Poll.read, Option.mem_def.mp hst, Option.mem_def.mp hc, Option.mem_def.mp hj] at hread
  | some j =>
    obtain ⟨c, hfile, hj⟩ := Option.bind_eq_some_iff.mp hread
    obtain ⟨st, hst, hc⟩ := Option.bind_eq_some_iff.mp hfile
    cases hr : s.reported with
    | none =>
      obtain ⟨hexact, hstep⟩ := hs.first hr hst hc hj
      refine ⟨iff_of_true hexact ?_, fun _ => hstep⟩
      rw [Watch.clear_iff hst hc hj, hr]
      intro r hmem
      cases hmem
    | some r => exact hs.later hr hst hc hj

end Polls

/-- Over every sequence of polls, the callback gets exactly the values that differ from the
one it got last, if and only if the three filters can tell at every poll. -/
theorem watch_exact_iff (parse : Str → Option JSON) (pathToFile : Str) (ps : List Poll) :
    (watch parse).EachStep (Watch.Exact parse) (Watch.initial pathToFile) ps ↔
      (watch parse).EachStep (Watch.Clear parse) (Watch.initial pathToFile) ps := by
  have hl := System.legal_of_forall (M := watch parse) (fun _ _ => trivial)
    (Watch.initial pathToFile) ps
  refine hl.eachStep_iff (G := Watch.Settled parse) (fun s p hs _ => (hs.poll p).1)
    (fun s p hs _ hc => (hs.poll p).2 hc) ⟨fun _ => ⟨rfl, rfl⟩, ?_, ?_⟩
  · intro r hr
    cases hr
  · intro h
    cases h

/-- Different texts have a different modification time or a different size. -/
def Stamped (ps : List Poll) : Prop :=
  ps.Pairwise fun p q => p.dump ≠ q.dump →
    (p.stat.map fun st => (st.tvSec, st.tvNsec, st.stSize)) ≠
      q.stat.map fun st => (st.tvSec, st.tvNsec, st.stSize)

instance (ps : List Poll) : Decidable (Stamped ps) :=
  inferInstanceAs (Decidable (List.Pairwise _ _))

/-- A second version of the same size, written a whole number of seconds after the first, is
never seen. -/
theorem watch_overlooks_change : ¬ ∀ parse : Str → Option JSON,
    parse (txt "1") = some (.unsigned 1) → parse (txt "2") = some (.unsigned 2) →
      ∀ (pathToFile : Str) (ps : List Poll), Stamped ps →
        (watch parse).EachStep (Watch.Exact parse) (Watch.initial pathToFile) ps := by
  intro h
  have hrun := h (fun t => if t = txt "1" then some (.unsigned 1)
    else if t = txt "2" then some (.unsigned 2) else none) rfl rfl []
    [⟨some ⟨1, 100, 0, 1⟩, some (txt "1")⟩, ⟨some ⟨1, 200, 0, 1⟩, some (txt "2")⟩] (by decide)
  exact absurd hrun.2.1 (by decide)

end ToolkitCpp.Monitor

import ToolkitCpp.Clock
import ToolkitCpp.GuardedRuns

/-!
# The status of a transport

`getStatus` is meant to report that the status has not been refreshed for too long. It stores this
report in place of the status, where `updateStatus` does not remove it, and it measures the time
in milliseconds of an `int`.
-/
namespace ToolkitCpp.TransportStatus
open GuardedRuns Clock

inductive TransportState
  | ok
  | errorConnect
  | errorMessage
  | errorUpdate
  | errorUndefined
  deriving DecidableEq, Repr

/-- `StatusTCS_t`. -/
structure Status where
  status : TransportState := .errorMessage
  updateTime : ℕ
  deriving DecidableEq, Repr

/-- `m_delayStatus`, in milliseconds; nothing changes it. -/
def delayStatus : ℤ := 1000

/-- The test in `getStatus`. -/
def Status.expire (c : Status) (now : ℕ) : Status :=
  if elapsed now c.updateTime > delayStatus * 2 then { c with status := .errorUpdate } else c

def Status.getStatus (c : Status) (now : ℕ) : Status × TransportState :=
  (c.expire now, (c.expire now).status)

def Status.updateStatus (c : Status) (now : ℕ) : Status := { c with updateTime := now }

def Status.changeStatus (c : Status) (newCurrStatus : TransportState) (now : ℕ) : Status :=
  Status.updateStatus { c with status := newCurrStatus } now

/-- `given` is the status of the last `changeStatus` and `refreshedAt` the time of the last
`changeStatus` or `updateStatus`. `reported` tells whether a `getStatus` since the last
`changeStatus` has measured too long a time. -/
structure History where
  curr : Status
  now : ℕ
  given : TransportState
  refreshedAt : ℕ
  reported : Bool
  deriving DecidableEq, Repr

inductive Call
  | changeStatus (newCurrStatus : TransportState)
  | updateStatus
  | getStatus
  | tick (ns : ℕ)
  deriving DecidableEq, Repr

/-- The time that `getStatus` measures is too long. -/
def History.overdue (s : History) : Bool := decide (elapsed s.now s.refreshedAt > delayStatus * 2)

def History.step (s : History) : Call → History
  | .changeStatus new =>
      { s with
        curr := s.curr.changeStatus new s.now
        given := new
        refreshedAt := s.now
        reported := false }
  | .updateStatus => { s with curr := s.curr.updateStatus s.now, refreshedAt := s.now }
  | .getStatus =>
      { s with curr := (s.curr.getStatus s.now).1, reported := s.reported || s.overdue }
  | .tick ns => { s with now := s.now + ns }

def histories : System History Call := ⟨fun _ _ => True, History.step⟩

def History.initial (now : ℕ) : History where
  curr := { updateTime := now }
  now := now
  given := .errorMessage
  refreshedAt := now
  reported := false

/-- More than `2 * m_delayStatus` milliseconds have passed since the last refresh. -/
def History.Late (s : History) : Prop :=
  ((s.now - s.refreshedAt : ℕ) : ℤ) > delayStatus * 2 * 1000000

instance (s : History) : Decidable s.Late := inferInstanceAs (Decidable (_ < _))

def TellsTruth (s : History) (e : Call) : Prop :=
  e = .getStatus →
    (s.curr.getStatus s.now).2 = if s.Late then .errorUpdate else s.given

instance (s : History) (e : Call) : Decidable (TellsTruth s e) :=
  inferInstanceAs (Decidable (_ → _))

/-- The time is found too long, now or earlier under the same status, exactly if it is. -/
def MeasuresRight (s : History) (e : Call) : Prop :=
  e = .getStatus → s.given ≠ .errorUpdate →
    (s.reported = true ∨ s.overdue = true ↔ s.Late)

/-- What is stored. -/
structure History.Kept (s : History) : Prop where
  time : s.curr.updateTime = s.refreshedAt
  status : s.curr.status = if s.reported then .errorUpdate else s.given

lemma History.Kept.expire {s : History} (hs : s.Kept) : s.curr.expire s.now =
    { s.curr with status := if s.reported || s.overdue then .errorUpdate else s.given } := by
  obtain ⟨htime, hstatus⟩ := hs
  have hcond : elapsed s.now s.curr.updateTime > delayStatus * 2 ↔ s.overdue = true := by
    rw [htime, History.overdue, decide_eq_true_eq]
  simp only [Status.expire, hcond]
  cases s.overdue with
  | true => simp
  | false => simp [← hstatus]

lemma History.Kept.step {s : History} (hs : s.Kept) (e : Call) : (s.step e).Kept := by
  cases e with
  | changeStatus new => exact ⟨rfl, rfl⟩
  | updateStatus => exact ⟨rfl, hs.status⟩
  | getStatus =>
    constructor
    · rw [History.step, Status.getStatus, hs.expire]
      exact hs.time
    · rw [History.step, Status.getStatus, hs.expire]
  | tick ns => exact ⟨hs.time, hs.status⟩

lemma tellsTruth_iff {s : History} (hs : s.Kept) (e : Call) :
    TellsTruth s e ↔ MeasuresRight s e := by
  apply forall_congr'
  intro _
  rw [Status.getStatus, hs.expire, ← Bool.or_eq_true]
  by_cases hgiven : s.given = .errorUpdate
  · simp [hgiven]
  · by_cases hlate : s.Late <;> cases s.reported || s.overdue <;>
      simp [hgiven, hlate, Ne.symm hgiven]

/-- Over every history: each `getStatus` returns the right status exactly when each time, unless
the status given is itself `STATUS_ERROR_UPDATE`, the time is found too long if and only if it
is. -/
theorem status_true_iff (now : ℕ) (es : List Call) :
    histories.EachStep TellsTruth (.initial now) es ↔
      histories.EachStep MeasuresRight (.initial now) es := by
  have hl := System.legal_of_forall (M := histories) (fun _ _ => trivial) (.initial now) es
  refine hl.eachStep_iff (G := History.Kept) ?_ ?_ ⟨rfl, rfl⟩
  · intro s e hs _
    exact tellsTruth_iff hs e
  · intro s e hs _ _
    exact hs.step e

/-- The report stays although the status is refreshed. -/
theorem status_not_restored :
    ¬ ∀ (now : ℕ) (es : List Call), histories.EachStep TellsTruth (.initial now) es := by
  intro h
  have hrun := h 0 [.changeStatus .ok, .tick 3000000000, .getStatus, .updateStatus, .getStatus]
  exact absurd hrun (by decide)

/-- After 2^31 milliseconds the measured time is negative. -/
example : ¬ histories.EachStep TellsTruth (.initial 0)
    [.changeStatus .ok, .tick 2147483648000000, .getStatus] := by decide

end ToolkitCpp.TransportStatus

import ToolkitCpp.Clock
import ToolkitCpp.GuardedRuns
import ToolkitCpp.Text

/-!
# The watchdog worker

`WatchDogWorker` over any `IWatchDogClient`: the thread of `worker()`, the owner's thread in
`start()` and `stop()`, and any number of `notify` calls from other threads. Each thread is cut
where another one can act between two of its accesses to the shared fields. The sleep of an
iteration is one step during which the clock may advance.

`calls` lists all calls of `notify` in the order of their beginning; what the worker has made of
the status of a call, and `last`, are a record of the past that no step reads.
-/
namespace ToolkitCpp.WatchDog
open GuardedRuns Clock

inductive Statuses
  | off
  | ok
  | startup
  | errStreamOpening
  | errtStreamInfo
  | errStreamLookup
  | errFrameReceiving
  | errDiskWrite
  | errFrameReceivingTimeout
  | errFrameReceivingTimeoutFIFO
  | errOutputReconnect
  | errOutputHeaderSend
  | errOutputFrameSend
  | errAsyncTimeOut
  | errBadFrameHeadLength
  deriving DecidableEq, Repr

/-- The text that the worker's `switch` passes to `createMsg`. -/
def message : Statuses → Option Str
  | .ok => some (txt "OK")
  | .errStreamOpening => some (txt "ERROR: Stream Opening")
  | .errtStreamInfo => some (txt "ERROR: Stream Info")
  | .errStreamLookup => some (txt "ERROR: Stream Lookup")
  | .errFrameReceiving => some (txt "ERROR: Frame Receiving")
  | .errDiskWrite => some (txt "FATAL: Disk Write")
  | .errFrameReceivingTimeout => some (txt "ERROR: Frame Receiving Timeout")
  | .errFrameReceivingTimeoutFIFO => some (txt "FATAL: Frame Receiving Timeout")
  | .errOutputReconnect => some (txt "FATAL: Output Reconnect")
  | .errOutputHeaderSend => some (txt "FATAL: Output Header Send")
  | .errOutputFrameSend => some (txt "FATAL: Output Frame Send")
  | .errAsyncTimeOut => some (txt "ERROR: Async Timeout")
  | .errBadFrameHeadLength => some (txt "FATAL: Invalid input frame header length")
  | .off => none
  | .startup => none

/-- The virtual functions of a client with state `C`; `O` is what the outside answers. -/
structure IWatchDogClient (C O : Type) where
  delaySendMessageMs : C → ℕ
  setWdSets : C → ℕ → C
  openClient : C → O → C × Bool
  createMsg : C → Str → C
  sendMsg : C → O → C × Bool
  close : C → C

inductive WorkerPc
  | notLaunched
  | setLocalWorks
  | clearSendOne
  | loopTest
  | createMsg
  | resetSendOne
  | sendMsg
  | sleep
  | testOff
  | testElapsed
  | setTimeOut
  | ended
  deriving DecidableEq, Repr

/-- The owner's thread: `start()` up to `launch`, then `stop()` from `running` on. -/
inductive OwnerPc
  | openClient
  | updateTime (ret : Bool)
  | startMsg
  | startSend
  | notifyOK
  | awaitNotify (call : ℕ)
  | launch
  | running
  | join
  | stopMsg
  | stopSend
  | close
  | stopped
  | refused
  deriving DecidableEq, Repr

inductive NotifyPc
  | setStatus
  | setSendOne
  | updateTime
  | done
  deriving DecidableEq, Repr

/-- A call of `notify`, and whether its status has since been passed to `createMsg` and then
`sendMsg` has been called. -/
structure Call where
  status : Statuses
  pc : NotifyPc
  created : Bool
  sent : Bool
  deriving DecidableEq, Repr

def Call.begin (status : Statuses) : Call := ⟨status, .setStatus, false, false⟩

def Call.create (status : Statuses) (c : Call) : Call :=
  if c.status = status ∧ c.pc ≠ .setStatus then { c with created := true } else c

def Call.send (c : Call) : Call := { c with sent := c.created }

/-- `isWorking` is the flag behind `p_isWorking`, `none` while that is null or points to
`m_localWorks`; `m_delay` is `delay` converted to `int`. -/
structure Worker (C : Type) where
  cli : C
  isWorking : Option Bool
  localWorks : Bool
  sendOne : Bool
  outputStatus : Statuses
  lastUpdate : ℕ
  delay : ℕ
  now : ℕ
  pc : WorkerPc
  owner : OwnerPc
  calls : List Call
  last : Option ℕ
  deriving DecidableEq, Repr

variable {C O : Type} (I : IWatchDogClient C O)

/-- `m_localWorks` and `m_sendOne` have no value before the worker starts. -/
def Worker.initial (cli : C) (isWorking : Option Bool) (localWorks sendOne : Bool) (now : ℕ) :
    Worker C where
  cli := cli
  isWorking := isWorking
  localWorks := localWorks
  sendOne := sendOne
  outputStatus := .off
  lastUpdate := now
  delay := I.delaySendMessageMs cli
  now := now
  pc := .notLaunched
  owner := .openClient
  calls := []
  last := none

/-- `(*p_isWorking && m_localWorks) || m_sendOne`. -/
def Worker.goesOn (s : Worker C) : Bool :=
  (s.isWorking.getD s.localWorks && s.localWorks) || s.sendOne

/-- `stop()` has cleared `m_localWorks`. -/
def OwnerPc.stopCalled : OwnerPc → Bool
  | .join => true
  | .stopMsg => true
  | .stopSend => true
  | .close => true
  | .stopped => true
  | _ => false

/-- The next step of the worker's thread. -/
def Worker.work (s : Worker C) (o : O) : Worker C :=
  match s.pc with
  | .notLaunched => s
  | .setLocalWorks => { s with localWorks := true, pc := .clearSendOne }
  | .clearSendOne => { s with sendOne := false, pc := .loopTest }
  | .loopTest => { s with pc := if s.goesOn then .createMsg else .ended }
  | .createMsg =>
      match message s.outputStatus with
      | some text =>
          { s with
            cli := I.createMsg s.cli text
            calls := s.calls.map (Call.create s.outputStatus)
            pc := .resetSendOne }
      | none => { s with pc := .resetSendOne }
  | .resetSendOne => { s with sendOne := false, pc := .sendMsg }
  | .sendMsg =>
      { s with cli := (I.sendMsg s.cli o).1, calls := s.calls.map Call.send, pc := .sleep }
  | .sleep => { s with pc := .testOff }
  | .testOff => { s with pc := if s.outputStatus = .off then .loopTest else .testElapsed }
  | .testElapsed =>
      { s with
        pc := if elapsed s.now s.lastUpdate > int32 (int32 s.delay * 2) then .setTimeOut
              else .loopTest }
  | .setTimeOut => { s with outputStatus := .errAsyncTimeOut, pc := .loopTest }
  | .ended => s

/-- A call of `notify` begins: it takes over the client's delay. -/
def Worker.notify (s : Worker C) (status : Statuses) : Worker C :=
  { s with delay := I.delaySendMessageMs s.cli, calls := s.calls ++ [Call.begin status] }

@[simp] lemma Worker.notify_calls (s : Worker C) (v : Statuses) :
    (s.notify I v).calls = s.calls ++ [Call.begin v] := by
  simp only [Worker.notify]

@[simp] lemma Worker.notify_last (s : Worker C) (v : Statuses) : (s.notify I v).last = s.last := by
  simp only [Worker.notify]

@[simp] lemma Worker.notify_pc (s : Worker C) (v : Statuses) : (s.notify I v).pc = s.pc := by
  simp only [Worker.notify]

@[simp] lemma Worker.notify_owner (s : Worker C) (v : Statuses) :
    (s.notify I v).owner = s.owner := by
  simp only [Worker.notify]

@[simp] lemma Worker.notify_cli (s : Worker C) (v : Statuses) : (s.notify I v).cli = s.cli := by
  simp only [Worker.notify]

@[simp] lemma Worker.notify_localWorks (s : Worker C) (v : Statuses) :
    (s.notify I v).localWorks = s.localWorks := by
  simp only [Worker.notify]

/-- The next step of a call of `notify`. It is the last completed one before `stop()` if it
returns before `stop()` was called. -/
def Worker.advance (s : Worker C) (i : ℕ) : Worker C :=
  match s.calls[i]? with
  | none => s
  | some c =>
      match c.pc with
      | .setStatus =>
          { s with outputStatus := c.status, calls := s.calls.set i { c with pc := .setSendOne } }
      | .setSendOne => { s with sendOne := true, calls := s.calls.set i { c with pc := .updateTime } }
      | .updateTime =>
          { s with
            lastUpdate := s.now
            calls := s.calls.set i { c with pc := .done }
            last := if s.owner.stopCalled then s.last else some i }
      | .done => s

/-- The next step of the owner's thread. -/
def Worker.own (s : Worker C) (o : O) : Worker C :=
  match s.owner with
  | .openClient =>
      { s with cli := (I.openClient s.cli o).1, owner := .updateTime (I.openClient s.cli o).2 }
  | .updateTime ret =>
      { s with lastUpdate := s.now, owner := if ret then .startMsg else .refused }
  | .startMsg => { s with cli := I.createMsg s.cli (txt "Module Start"), owner := .startSend }
  | .startSend => { s with cli := (I.sendMsg s.cli o).1, owner := .notifyOK }
  | .notifyOK => { s.notify I .ok with owner := .awaitNotify s.calls.length }
  | .awaitNotify i =>
      if (s.calls[i]?.map Call.pc) = some .done then { s with owner := .launch } else s
  | .launch => { s with pc := .setLocalWorks, owner := .running }
  | .running => { s with localWorks := false, owner := .join }
  | .join => if s.pc = .ended then { s with owner := .stopMsg } else s
  | .stopMsg => { s with cli := I.createMsg s.cli (txt "Module Stop"), owner := .stopSend }
  | .stopSend => { s with cli := (I.sendMsg s.cli o).1, owner := .close }
  | .close => { s with cli := I.close s.cli, owner := .stopped }
  | .stopped => s
  | .refused => s

variable {I}

/-- The worker's thread leaves the owner's alone. -/
lemma Worker.work_owner (s : Worker C) (o : O) : (s.work I o).owner = s.owner := by
  cases hpc : s.pc with
  | createMsg => cases hm : message s.outputStatus <;> simp only [Worker.work, hpc, hm]
  | _ => simp only [Worker.work, hpc]

/-- Only its first statement sets `m_localWorks`, and the thread does not come back to it. -/
lemma Worker.work_kept {s : Worker C} (hpc : s.pc ≠ .setLocalWorks) (o : O) :
    (s.work I o).localWorks = s.localWorks ∧ (s.work I o).pc ≠ .setLocalWorks := by
  cases h : s.pc with
  | setLocalWorks => exact absurd h hpc
  | createMsg => cases hm : message s.outputStatus <;> simp [Worker.work, h, hm]
  | loopTest => cases hg : s.goesOn <;> simp [Worker.work, h, hg]
  | testOff => by_cases hoff : s.outputStatus = .off <;> simp [Worker.work, h, hoff]
  | testElapsed =>
    simp only [Worker.work, h]
    split_ifs <;> simp
  | _ => simp [Worker.work, h]

/-- After `stop()` was called the owner's thread leaves the flag, the calls and the worker
alone. -/
lemma Worker.own_kept {s : Worker C} (hstop : s.owner.stopCalled = true) (o : O) :
    (s.own I o).localWorks = s.localWorks ∧ (s.own I o).calls = s.calls ∧
      (s.own I o).last = s.last ∧ (s.own I o).pc = s.pc ∧
      (s.own I o).owner.stopCalled = true := by
  cases h : s.owner with
  | join =>
    simp only [Worker.own, h]
    split_ifs <;> simp [OwnerPc.stopCalled, h]
  | stopMsg | stopSend | close | stopped => simp [Worker.own, h, OwnerPc.stopCalled]
  | _ => simp [h, OwnerPc.stopCalled] at hstop

lemma Worker.advance_kept (s : Worker C) (i : ℕ) : (s.advance i).localWorks = s.localWorks ∧
    (s.advance i).pc = s.pc ∧ (s.advance i).owner = s.owner ∧ (s.advance i).cli = s.cli := by
  unfold Worker.advance
  split
  · simp
  · split <;> simp

variable (I)

inductive Event (O : Type)
  | work (o : O)
  | own (o : O)
  | notify (status : Statuses)
  | advance (call : ℕ)
  | setWorking (isWorking : Bool)
  | setWdSets (delaySendMessageMs : ℕ)
  | tick (ns : ℕ)
  deriving DecidableEq, Repr

def Worker.step (s : Worker C) : Event O → Worker C
  | .work o => s.work I o
  | .own o => s.own I o
  | .notify status => s.notify I status
  | .advance i => s.advance i
  | .setWorking isWorking => { s with isWorking := s.isWorking.map fun _ => isWorking }
  | .setWdSets delay => { s with cli := I.setWdSets s.cli delay }
  | .tick ns => { s with now := s.now + ns }

/-- Whatever is not a step of the worker or of its owner leaves both threads and the flag alone, and
of the client at most the settings change. -/
lemma Worker.step_kept (s : Worker C) (e : Event O) : (∃ o, e = .work o) ∨ (∃ o, e = .own o) ∨
    (s.step I e).pc = s.pc ∧ (s.step I e).owner = s.owner ∧
      (s.step I e).localWorks = s.localWorks ∧
      ((s.step I e).cli = s.cli ∨ ∃ delay, (s.step I e).cli = I.setWdSets s.cli delay) := by
  cases e with
  | work o => exact .inl ⟨o, rfl⟩
  | own o => exact .inr (.inl ⟨o, rfl⟩)
  | notify v =>
    exact .inr (.inr ⟨s.notify_pc I v, s.notify_owner I v, s.notify_localWorks I v,
      .inl (s.notify_cli I v)⟩)
  | advance i =>
    obtain ⟨hlocal, hpc, howner, hcli⟩ := s.advance_kept i
    exact .inr (.inr ⟨hpc, howner, hlocal, .inl hcli⟩)
  | setWorking b => exact .inr (.inr ⟨rfl, rfl, rfl, .inl rfl⟩)
  | setWdSets d => exact .inr (.inr ⟨rfl, rfl, rfl, .inr ⟨d, rfl⟩⟩)
  | tick n => exact .inr (.inr ⟨rfl, rfl, rfl, .inl rfl⟩)

end ToolkitCpp.WatchDog

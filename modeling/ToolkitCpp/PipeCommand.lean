import ToolkitCpp.GuardedRuns
import ToolkitCpp.PipeFrame

/-!
# Failed sends on the command pipe

`PipeClient::sendToStream` makes two non-blocking writes, one for the header and one for the
message. The second one can fail or be partial after the first has succeeded.
-/
namespace ToolkitCpp.Pipe
open GuardedRuns

/-- `PIPE_BUF` on Linux. -/
def pipeBuf : ℕ := 4096

/-- What a non-blocking `write` of `n` bytes may return when the pipe has room for `free`:
up to `PIPE_BUF` bytes all or nothing, beyond that any part that fits. -/
def WriteReturns (free n : ℕ) (ret : ℤ) : Prop :=
  if n ≤ pipeBuf then ret = if n ≤ free then (n : ℤ) else -1
  else if free = 0 then ret = -1 else 0 < ret ∧ ret ≤ n ∧ ret ≤ free ∧ ret < 2 ^ 31

instance (free n : ℕ) (ret : ℤ) : Decidable (WriteReturns free n ret) := by
  unfold WriteReturns
  infer_instance

lemma WriteReturns.small {free n : ℕ} {ret : ℤ} (h : WriteReturns free n ret)
    (hn : n ≤ pipeBuf) : ret = if n ≤ free then (n : ℤ) else -1 := by
  rwa [WriteReturns, if_pos hn] at h

lemma WriteReturns.le {free n : ℕ} {ret : ℤ} (h : WriteReturns free n ret) : ret ≤ n := by
  unfold WriteReturns at h
  split_ifs at h <;> omega

lemma WriteReturns.lt {free n : ℕ} {ret : ℤ} (h : WriteReturns free n ret) : ret < 2 ^ 31 := by
  have hbuf : pipeBuf = 4096 := rfl
  unfold WriteReturns at h
  split_ifs at h <;> omega

/-- A call of `sendToStream`: the message, the room in the pipe when the call makes its first
and its second write, and the results of the system calls. -/
structure SendCall where
  msg : Bytes
  free : ℕ
  freeAfter : ℕ
  outcome : SendOutcome
  deriving DecidableEq, Repr

/-- The command pipe with all bytes ever put into it, and the messages for which
`sendToStream` returned true. -/
structure CommandPipe where
  cmdPipe : PipeDesc
  stream : Bytes
  reported : List Bytes
  deriving DecidableEq, Repr

def SendCall.result (s : CommandPipe) (c : SendCall) : PipeDesc × Bytes × Bool :=
  sendToStream s.cmdPipe c.msg c.outcome

def CommandPipe.step (s : CommandPipe) (c : SendCall) : CommandPipe where
  cmdPipe := (c.result s).1
  stream := s.stream ++ (c.result s).2.1
  reported := if (c.result s).2.2 then s.reported ++ [c.msg] else s.reported

/-- The header takes its room from the message, unless the reader makes some in between. -/
def SendPossible (_ : CommandPipe) (c : SendCall) : Prop :=
  WriteReturns c.free headSize c.outcome.headRet ∧ c.free ≤ headSize + c.freeAfter ∧
    (c.outcome.headRet = headSize → WriteReturns c.freeAfter c.msg.length c.outcome.dataRet)

def commandPipe : System CommandPipe SendCall := ⟨SendPossible, CommandPipe.step⟩

instance (s : CommandPipe) (c : SendCall) : Decidable (commandPipe.possible s c) :=
  inferInstanceAs (Decidable (_ ∧ _))

/-- The call puts one frame into the pipe if it returns true, and nothing otherwise. -/
def AllOrNothing (s : CommandPipe) (c : SendCall) : Prop :=
  (c.result s).2.1 = if (c.result s).2.2 then frame c.msg else []

instance (s : CommandPipe) (c : SendCall) : Decidable (AllOrNothing s c) :=
  inferInstanceAs (Decidable (_ = _))

/-- The pipe holds the frames of the messages reported as sent and nothing else. -/
def CommandPipe.Framed (s : CommandPipe) : Prop := s.stream = s.reported.flatMap frame

/-- The descriptor is closed, or the pipe is too small and cannot be enlarged, or the header finds
no room, or the message is taken whole. -/
def FitsWhole (s : CommandPipe) (c : SendCall) : Prop :=
  s.cmdPipe.isOpen = false ∨
    (s.cmdPipe.maxSize < int32 c.msg.length ∧ c.outcome.granted < 0) ∨ c.free < headSize ∨
    if c.msg.length ≤ pipeBuf then c.msg.length ≤ c.freeAfter
    else c.outcome.dataRet = c.msg.length

lemma sendToStream_closed {pipe : PipeDesc} {msg : Bytes} {os : SendOutcome}
    (h : (sendToStream pipe msg os).1.isOpen = false) :
    (sendToStream pipe msg os).2 = ([], false) := by
  unfold sendToStream at h ⊢
  simp only at h ⊢
  split_ifs at h ⊢ <;> simp_all

lemma sendToStream_refused {pipe : PipeDesc} {msg : Bytes} {os : SendOutcome}
    (h : os.headRet = -1) : (sendToStream pipe msg os).2 = ([], false) := by
  have hne : os.headRet ≠ headSize := by
    rw [h]
    decide
  unfold sendToStream
  simp only [accepted, h]
  split_ifs <;> simp_all

lemma sendToStream_headed {pipe : PipeDesc} {msg : Bytes} {os : SendOutcome}
    (hopen : (sendToStream pipe msg os).1.isOpen = true) (h : os.headRet = headSize) :
    (sendToStream pipe msg os).2 =
      (({ dataSize := UInt32.ofNat msg.length } : PrimaryHeader).bytes ++ accepted msg os.dataRet,
        decide (os.dataRet = int32 msg.length)) := by
  have hhead : accepted ({ dataSize := UInt32.ofNat msg.length } : PrimaryHeader).bytes headSize =
      ({ dataSize := UInt32.ofNat msg.length } : PrimaryHeader).bytes :=
    List.take_of_length_le (by simp)
  unfold sendToStream at hopen ⊢
  simp only [h, hhead] at hopen ⊢
  split_ifs at hopen ⊢ <;> simp_all

/-- With its header in the pipe, a call has put in one whole frame exactly when the second
write took all of the message. -/
lemma headed_allOrNothing_iff {msg : Bytes} {dataRet : ℤ} (hle : dataRet ≤ msg.length)
    (hlt : dataRet < 2 ^ 31) :
    (({ dataSize := UInt32.ofNat msg.length } : PrimaryHeader).bytes ++ accepted msg dataRet =
      if decide (dataRet = int32 msg.length) = true then frame msg else []) ↔
      dataRet = msg.length := by
  constructor
  · intro h
    split_ifs at h with hret
    · have htake : accepted msg dataRet = msg := List.append_cancel_left h
      have hlen := congrArg List.length htake
      rw [accepted, List.length_take] at hlen
      by_cases hnil : msg.length = 0
      · have hzero : int32 (0 : ℕ) = 0 := by decide
        rw [decide_eq_true_eq, hnil, hzero] at hret
        omega
      · omega
    · have hlen := congrArg List.length h
      simp [headSize] at hlen
  · intro h
    have hcast : int32 msg.length = msg.length := int32_natCast (by omega)
    simp [hcast, h, frame, accepted]

/-- Under the rules for non-blocking writes, a call is all or nothing exactly when its message
fits. -/
lemma allOrNothing_iff {s : CommandPipe} {c : SendCall} (hp : SendPossible s c) :
    AllOrNothing s c ↔ FitsWhole s c := by
  obtain ⟨hhead, _, hdata⟩ := hp
  have hret := hhead.small (by decide)
  have hclosed : s.cmdPipe.isOpen = false ∨
      (s.cmdPipe.maxSize < int32 c.msg.length ∧ c.outcome.granted < 0) ↔
        (sendToStream s.cmdPipe c.msg c.outcome).1.isOpen = false := by
    rw [← Bool.not_eq_true, ← Bool.not_eq_true, sendToStream_pipe, PipeDesc.enlarged_isOpen_iff,
      not_and_or, Classical.not_imp, not_le]
  unfold AllOrNothing FitsWhole SendCall.result
  rw [← or_assoc, hclosed]
  cases hopen : (sendToStream s.cmdPipe c.msg c.outcome).1.isOpen with
  | false =>
    rw [sendToStream_closed hopen]
    simp
  | true =>
    by_cases hfree : headSize ≤ c.free
    · rw [if_pos hfree] at hret
      have hsecond := hdata hret
      rw [sendToStream_headed hopen hret,
        headed_allOrNothing_iff hsecond.le hsecond.lt]
      by_cases hsmall : c.msg.length ≤ pipeBuf
      · have hdataRet := hsecond.small hsmall
        rw [if_pos hsmall, hdataRet]
        split_ifs <;> simp <;> omega
      · rw [if_neg hsmall]
        simp [Nat.not_lt.mpr hfree]
    · rw [if_neg hfree] at hret
      rw [sendToStream_refused hret]
      simp [Nat.lt_of_not_le hfree]

lemma CommandPipe.Framed.step_iff {s : CommandPipe} {c : SendCall} (h : s.Framed) :
    (s.step c).Framed ↔ AllOrNothing s c := by
  unfold CommandPipe.Framed AllOrNothing at *
  simp only [CommandPipe.step, h]
  cases (c.result s).2.2 <;> simp

/-- Over all sequences of sends and all amounts of free space, every call is all or nothing,
and the pipe is framed after each of them, exactly when each message fits whole or its
header is refused. -/
theorem commandPipe_allOrNothing_iff (cmdPipe : PipeDesc) (cs : List SendCall)
    (hl : commandPipe.Legal ⟨cmdPipe, [], []⟩ cs) :
    (commandPipe.EachStep AllOrNothing ⟨cmdPipe, [], []⟩ cs ↔
      commandPipe.EachStep FitsWhole ⟨cmdPipe, [], []⟩ cs) ∧
    (commandPipe.Along CommandPipe.Framed ⟨cmdPipe, [], []⟩ cs ↔
      commandPipe.EachStep FitsWhole ⟨cmdPipe, [], []⟩ cs) := by
  constructor
  · exact hl.eachStep_iff (G := fun _ => True) (fun s c _ hp => allOrNothing_iff hp)
      (fun _ _ _ _ _ => trivial) trivial
  · refine hl.along_iff_eachStep (G := CommandPipe.Framed) (fun s h => h) ?_ ?_ rfl
    · intro s c h hp hc
      exact h.step_iff.mpr ((allOrNothing_iff hp).mpr hc)
    · intro s c h hp hc hframed
      exact hc ((allOrNothing_iff hp).mp (h.step_iff.mp hframed))

theorem commandPipe_allOrNothing_iff_one :
    (commandPipe.EachStep AllOrNothing ⟨.fresh, [], []⟩ [⟨[1, 2], 10, 2, ⟨65536, 8, 2⟩⟩] ↔
      commandPipe.EachStep FitsWhole ⟨.fresh, [], []⟩ [⟨[1, 2], 10, 2, ⟨65536, 8, 2⟩⟩]) ∧
    (commandPipe.Along CommandPipe.Framed ⟨.fresh, [], []⟩
        [⟨[1, 2], 10, 2, ⟨65536, 8, 2⟩⟩] ↔
      commandPipe.EachStep FitsWhole ⟨.fresh, [], []⟩ [⟨[1, 2], 10, 2, ⟨65536, 8, 2⟩⟩]) :=
  commandPipe_allOrNothing_iff _ _ (by decide)

/-- With room for nine bytes, a message of two leaves its header in the pipe although the call
fails. -/
theorem commandPipe_leaves_header : ¬ ∀ (cmdPipe : PipeDesc) (cs : List SendCall),
    commandPipe.Legal ⟨cmdPipe, [], []⟩ cs →
      commandPipe.EachStep AllOrNothing ⟨cmdPipe, [], []⟩ cs := by
  intro h
  exact absurd (h .fresh [⟨[1, 2], 9, 1, ⟨65536, 8, -1⟩⟩] (by decide)).1 (by decide)

end ToolkitCpp.Pipe

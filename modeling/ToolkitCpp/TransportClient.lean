import ToolkitCpp.EvictingQueue
import ToolkitCpp.PipeFrame

/-!
# The outgoing queue of a transport client

`BaseTransportClient::send` and `run` over one queue. The producers' calls are atomic under
the mutex of the queue; an iteration of `run` is cut where other threads can act between two
of its accesses to the queue. The answers of the virtual connection functions and of the
stream come from outside. Taking the front message and handing it to `sendToStream` is one
step: between the two only this thread knows the message.

What was accepted, evicted and handed over in a run is written down by an observer of its steps.
-/
namespace ToolkitCpp.Transport
open GuardedRuns EvictingQueue Pipe

/-- An allocated copy of a message. The number of the call tells it from other copies of the
same bytes. -/
structure Message where
  number : ℕ
  data : Bytes
  deriving DecidableEq, Repr

/-- Where the thread of `run` stands. `fault` is a `front()` on an empty queue. -/
inductive Pc
  | loopHead
  | checkConnection
  | releaseConnection
  | createConnection
  | checkAgain
  | queueTest
  | handOver
  | closeAfter
  | stopped
  | fault
  deriving DecidableEq, Repr

/-- `calls` counts the calls of `send`. -/
structure Client where
  msgOutDeque : List Message
  capacityMsgDeque : ℕ
  isKeepConnect : Bool
  pc : Pc
  calls : ℕ
  deriving DecidableEq, Repr

def Client.initial (capacity : ℕ) (keep : Bool) : Client := ⟨[], capacity, keep, .loopHead, 0⟩

/-- What the system answers during one `sendToStream` of a `PipeClient` or of a
`WebSocketClient` (an error of `get_con_from_hdl`, an error of the connection's `send`). -/
inductive StreamOutcome
  | pipe (desc : PipeDesc) (os : SendOutcome)
  | websocket (conError sendError : Bool)
  deriving DecidableEq, Repr

def sendToStream : StreamOutcome → Bytes → UInt64
  | .pipe desc os, msg => if (Pipe.sendToStream desc msg os).2.2 then 1 else 0
  | .websocket conError sendError, msg =>
      if conError then 0 else if sendError then 0 else UInt64.ofNat msg.length

/-- `answer` is the value of the flag tested at the loop head, or the result of the
connection function whose turn it is. -/
inductive Event
  | send (data : Bytes)
  | setOutDeqCapacity (capacity : ℕ)
  | answer (ok : Bool)
  | testQueue
  | stream (os : StreamOutcome)
  deriving DecidableEq, Repr

def Client.send (s : Client) (data : Bytes) : Client :=
  let newMsg : Message := ⟨s.calls, data⟩
  let msgOutDeque := if s.msgOutDeque.length > s.capacityMsgDeque then s.msgOutDeque.tail
    else s.msgOutDeque
  { s with msgOutDeque := msgOutDeque ++ [newMsg], calls := s.calls + 1 }

def Client.setOutDeqCapacity (s : Client) (capacity : ℕ) : Client :=
  { s with msgOutDeque := [], capacityMsgDeque := capacity }

def Client.answer (s : Client) (ok : Bool) : Client :=
  match s.pc with
  | .loopHead =>
      if !ok then { s with pc := .stopped }
      else if s.isKeepConnect || !s.msgOutDeque.isEmpty then { s with pc := .checkConnection }
      else { s with pc := .queueTest }
  | .checkConnection => { s with pc := if ok then .queueTest else .releaseConnection }
  | .releaseConnection => { s with pc := if ok then .createConnection else .loopHead }
  | .createConnection => { s with pc := if ok then .checkAgain else .loopHead }
  | .checkAgain => { s with pc := if ok then .queueTest else .loopHead }
  | .closeAfter => { s with pc := .loopHead }
  | _ => s

def Client.testQueue (s : Client) : Client :=
  if s.pc = .queueTest then { s with pc := if s.msgOutDeque.isEmpty then .loopHead else .handOver }
  else s

/-- The critical section and the call of `sendToStream`, which is returned with its argument and
its result. `run` discards the result. -/
def Client.handOver (s : Client) (os : StreamOutcome) : Client × Option (Message × UInt64) :=
  if s.pc = .handOver then
    match s.msgOutDeque with
    | [] => ({ s with pc := .fault }, none)
    | m :: rest =>
        ({ s with msgOutDeque := rest, pc := if s.isKeepConnect then .loopHead else .closeAfter },
          some (m, sendToStream os m.data))
  else (s, none)

def Client.step (s : Client) : Event → Client
  | .send data => s.send data
  | .setOutDeqCapacity capacity => s.setOutDeqCapacity capacity
  | .answer ok => s.answer ok
  | .testQueue => s.testQueue
  | .stream os => (s.handOver os).1

/-- The observer writes down the messages given to `send`, what a `send` drops from the queue, and
the calls of `sendToStream`. -/
def Client.observe (s : Client) (e : Event) (r : Record Message (Message × UInt64)) :
    Record Message (Message × UInt64) :=
  match e with
  | .send data => r.arrive ⟨s.calls, data⟩ s.msgOutDeque (s.send data).msgOutDeque
  | .stream os => r.take (s.handOver os).2
  | _ => r

/-- The client and what was seen of it. -/
abbrev Observed := Client × Record Message (Message × UInt64)

def Observed.ledger (x : Observed) : Ledger Message := x.2.ledger Prod.fst x.1.msgOutDeque

def Event.setsCapacity : Event → Bool
  | .setOutDeqCapacity _ => true
  | _ => false

/-- All threads, the capacity being set once before. -/
def Client.fixedCapacity : System Client Event where
  possible _ e := e.setsCapacity = false
  step := Client.step

instance (s : Client) (e : Event) : Decidable (Client.fixedCapacity.possible s e) :=
  inferInstanceAs (Decidable (e.setsCapacity = false))

def Client.recorded : System Observed Event := Client.fixedCapacity.observed Client.observe

/-- The queue is numbered upwards, below the next number. -/
def Client.Upward (s : Client) : Prop :=
  (s.msgOutDeque.map Message.number ++ [s.calls]).Pairwise (· < ·)

@[simp] lemma Client.send_pc (s : Client) (data : Bytes) : (s.send data).pc = s.pc := rfl

lemma Client.send_ne_nil (s : Client) (data : Bytes) : (s.send data).msgOutDeque ≠ [] := by
  simp [Client.send]

lemma Client.Upward.nodup {s : Client} (h : s.Upward) (data : Bytes) :
    (s.msgOutDeque ++ [(⟨s.calls, data⟩ : Message)]).Nodup :=
  nodup_of_upward Message.number (by rw [List.map_append]; exact h)

lemma Client.Upward.send {s : Client} (h : s.Upward) (data : Bytes) : (s.send data).Upward := by
  refine (upward_succ h).sublist ?_
  simp only [Client.send, List.map_append, List.map_singleton]
  refine List.Sublist.append_right (List.Sublist.append_right ?_ _) _
  split_ifs
  · exact (List.tail_sublist _).map _
  · exact List.Sublist.refl _

lemma Client.Upward.tail {s t : Client} (h : s.Upward) (hcalls : t.calls = s.calls)
    (hq : t.msgOutDeque.Sublist s.msgOutDeque) : t.Upward := by
  rw [Client.Upward, hcalls]
  exact h.sublist ((hq.map _).append_right _)

lemma Client.answer_same (s : Client) (ok : Bool) : (s.answer ok).calls = s.calls ∧
    (s.answer ok).capacityMsgDeque = s.capacityMsgDeque ∧
    (s.answer ok).msgOutDeque = s.msgOutDeque := by
  unfold Client.answer
  split
  · split_ifs <;> simp
  all_goals simp

lemma Client.testQueue_same (s : Client) : s.testQueue.calls = s.calls ∧
    s.testQueue.capacityMsgDeque = s.capacityMsgDeque ∧
    s.testQueue.msgOutDeque = s.msgOutDeque := by
  unfold Client.testQueue
  split_ifs <;> simp

/-- A hand-over leaves the queue alone and calls nothing, or hands on its front. -/
lemma Client.handOver_cases (s : Client) (os : StreamOutcome) :
    (s.handOver os).1.calls = s.calls ∧
    (s.handOver os).1.capacityMsgDeque = s.capacityMsgDeque ∧
    ((s.handOver os).1.msgOutDeque = s.msgOutDeque ∧ (s.handOver os).2 = none ∧
        (s.pc = .handOver → s.msgOutDeque = []) ∨
      ∃ m, s.pc = .handOver ∧ s.msgOutDeque = m :: (s.handOver os).1.msgOutDeque ∧
        (s.handOver os).2 = some (m, sendToStream os m.data)) := by
  by_cases hpc : s.pc = .handOver
  · cases hq : s.msgOutDeque with
    | nil => simp [Client.handOver, hpc, hq]
    | cons m rest => simp [Client.handOver, hpc, hq]
  · simp [Client.handOver, hpc]

/-- One step under observation is an access to the queue. -/
lemma Client.observed_access {s : Client} (h : s.Upward) (e : Event)
    (hp : Client.fixedCapacity.possible s e) (r : Record Message (Message × UInt64)) :
    (s.step e).Upward ∧ (s.step e).capacityMsgDeque = s.capacityMsgDeque ∧
      Access s.capacityMsgDeque (Observed.ledger (s, r))
        (Observed.ledger (s.step e, s.observe e r)) := by
  cases e with
  | send data =>
    refine ⟨h.send data, rfl, ?_⟩
    exact r.arrive_access Prod.fst (h.nodup data) rfl
  | setOutDeqCapacity c => exact Bool.noConfusion hp
  | answer ok =>
    obtain ⟨hcalls, hcap, hq⟩ := s.answer_same ok
    refine ⟨h.tail hcalls (hq ▸ List.Sublist.refl _), hcap, ?_⟩
    simp only [Observed.ledger, Client.step, Client.observe, hq]
    exact Access.look _
  | testQueue =>
    obtain ⟨hcalls, hcap, hq⟩ := s.testQueue_same
    refine ⟨h.tail hcalls (hq ▸ List.Sublist.refl _), hcap, ?_⟩
    simp only [Observed.ledger, Client.step, Client.observe, hq]
    exact Access.look _
  | stream os =>
    obtain ⟨hcalls, hcap, ⟨hq, hout, -⟩ | ⟨m, -, hq, hout⟩⟩ := s.handOver_cases os
    · refine ⟨h.tail hcalls (hq ▸ List.Sublist.refl _), hcap, ?_⟩
      simp only [Observed.ledger, Client.step, Client.observe, hq, hout, Record.take,
        Option.toList_none, List.append_nil]
      exact Access.look _
    · refine ⟨h.tail hcalls (hq ▸ List.sublist_cons_self _ _), hcap, ?_⟩
      have hnext : Observed.ledger (s.step (.stream os), s.observe (.stream os) r) =
          ⟨(s.handOver os).1.msgOutDeque, r.arrived, r.evicted, r.taken.map Prod.fst ++ [m]⟩ := by
        simp [Observed.ledger, Client.step, Client.observe, Record.ledger, Record.take, hout]
      rw [hnext]
      exact Access.take (Observed.ledger (s, r)) m _ hq

/-- The messages seen are numbered by their calls. -/
def Observed.Numbered (x : Observed) : Prop :=
  x.2.arrived.map Message.number = List.range x.1.calls

lemma Observed.Numbered.nodup {x : Observed} (h : x.Numbered) : x.ledger.arrived.Nodup :=
  List.Nodup.of_map Message.number (h ▸ List.nodup_range)

lemma Observed.Numbered.step {s : Client} {r : Record Message (Message × UInt64)}
    (h : Observed.Numbered (s, r)) (e : Event) (hp : Client.fixedCapacity.possible s e) :
    Observed.Numbered (s.step e, s.observe e r) := by
  unfold Observed.Numbered at h ⊢
  cases e with
  | send data =>
    simp only [Client.step, Client.observe, Record.arrive, Client.send, List.map_append,
      List.map_singleton, List.range_succ]
    rw [h]
  | setOutDeqCapacity c => exact Bool.noConfusion hp
  | answer ok => simpa only [Client.step, Client.observe, (s.answer_same ok).1] using h
  | testQueue => simpa only [Client.step, Client.observe, s.testQueue_same.1] using h
  | stream os =>
    simpa only [Client.step, Client.observe, Record.take, (s.handOver_cases os).1] using h

lemma Client.isQueue (capacity : ℕ) : IsQueue Client.recorded capacity
    (fun x => x.1.Upward ∧ x.1.capacityMsgDeque = capacity) Observed.ledger where
  keeps x e hx hp := by
    obtain ⟨hup, hcap, -⟩ := Client.observed_access hx.1 e hp x.2
    exact ⟨hup, hcap.trans hx.2⟩
  access x e hx hp := hx.2 ▸ (Client.observed_access hx.1 e hp x.2).2.2

lemma Client.isQueue_numbered (capacity : ℕ) : IsQueue Client.recorded capacity
    (fun x => (x.1.Upward ∧ x.1.capacityMsgDeque = capacity) ∧ x.Numbered) Observed.ledger where
  keeps x e hx hp := ⟨(Client.isQueue capacity).keeps x e hx.1 hp, hx.2.step e hp⟩
  access x e hx hp := (Client.isQueue capacity).access x e hx.1 hp

lemma Client.initial_upward (capacity : ℕ) (keep : Bool) :
    (Client.initial capacity keep).Upward := by
  simp [Client.Upward, Client.initial]

/-- Runs of `send` calls with non-empty messages and of iterations of `run`. -/
def SendOrRun (_ : Client) : Event → Prop
  | .send data => data ≠ []
  | .setOutDeqCapacity _ => False
  | _ => True

def sendAndRun : System Client Event := ⟨SendOrRun, Client.step⟩

instance (s : Client) (e : Event) : Decidable (sendAndRun.possible s e) :=
  match e with
  | .send data => inferInstanceAs (Decidable (data ≠ []))
  | .setOutDeqCapacity _ => isFalse id
  | .answer _ => isTrue trivial
  | .testQueue => isTrue trivial
  | .stream _ => isTrue trivial

/-- Every accepted message is still queued, or was evicted by a later `send`, or was handed
to a `sendToStream` call that reported success. -/
def NoneLost (x : Observed) : Prop :=
  ∀ m ∈ x.2.arrived, m ∈ x.1.msgOutDeque ∨ m ∈ x.2.evicted ∨ ∃ r, (m, r) ∈ x.2.taken ∧ r ≠ 0

instance (x : Observed) : Decidable (NoneLost x) :=
  decidable_of_iff (∀ m ∈ x.2.arrived, m ∈ x.1.msgOutDeque ∨ m ∈ x.2.evicted ∨
      ∃ h ∈ x.2.taken, h.1 = m ∧ h.2 ≠ 0) (by
    unfold NoneLost
    simp only [Prod.exists]
    grind)

/-- In a queue that keeps its order, a message is lost exactly when some `sendToStream` reported
failure. -/
lemma noneLost_iff {x : Observed} (h : x.ledger.InOrder) :
    NoneLost x ↔ ∀ y ∈ x.2.taken, y.2 ≠ 0 := by
  have hkept : x.2.taken.map Prod.fst ++ x.1.msgOutDeque = x.2.arrived.filter (· ∉ x.2.evicted) :=
    h.kept
  have honce : (x.2.taken.map Prod.fst ++ x.1.msgOutDeque).Nodup := h.nodup
  have hmem : ∀ m, m ∈ x.2.taken.map Prod.fst ∨ m ∈ x.1.msgOutDeque ↔
      m ∈ x.2.arrived ∧ m ∉ x.2.evicted := by
    intro m
    rw [← List.mem_append, hkept, List.mem_filter, decide_eq_true_iff]
  constructor
  · rintro hl ⟨m, r⟩ hy hr
    have hm : m ∈ x.2.taken.map Prod.fst := List.mem_map_of_mem hy
    obtain ⟨hacc, hin⟩ := (hmem m).mp (.inl hm)
    rcases hl m hacc with hq | he | ⟨r', hr', hne⟩
    · exact List.disjoint_of_nodup_append honce hm hq
    · exact hin he
    · have heq := List.inj_on_of_nodup_map honce.of_append_left hy hr' rfl
      rw [Prod.mk.injEq] at heq
      exact hne (heq.2 ▸ hr)
  · intro hw m hacc
    by_cases he : m ∈ x.2.evicted
    · exact .inr (.inl he)
    · rcases (hmem m).mpr ⟨hacc, he⟩ with hm | hq
      · obtain ⟨⟨m', r⟩, hy, rfl⟩ := List.mem_map.mp hm
        exact .inr (.inr ⟨r, hy, hw _ hy⟩)
      · exact .inl hq

/-- The answers with which a call for `msg` succeeds: the pipe is open, is enlarged if it is too
small for the message, and both writes take all; the connection exists and takes the
message, whose size as a 64-bit number is reported. -/
def StreamOutcome.Succeeds (msg : Bytes) : StreamOutcome → Prop
  | .pipe desc os => desc.isOpen = true ∧ (desc.maxSize < int32 msg.length → 0 ≤ os.granted) ∧
      os.headRet = headSize ∧ os.dataRet = int32 msg.length
  | .websocket conError sendError =>
      conError = false ∧ sendError = false ∧ msg.length % 2 ^ 64 ≠ 0

lemma sendToStream_ne_zero_iff (os : StreamOutcome) (msg : Bytes) :
    sendToStream os msg ≠ 0 ↔ os.Succeeds msg := by
  cases os with
  | pipe desc os =>
    simp only [sendToStream, StreamOutcome.Succeeds]
    rw [← sendToStream_true_iff]
    cases (Pipe.sendToStream desc msg os).2.2 <;> simp
  | websocket conError sendError =>
    have hsize : UInt64.ofNat msg.length ≠ 0 ↔ msg.length % 2 ^ 64 ≠ 0 := by
      rw [ne_eq, ← UInt64.toNat_inj, UInt64.toNat_ofNat']
      rfl
    cases conError
    · cases sendError
      · simpa [sendToStream, StreamOutcome.Succeeds] using hsize
      · simp [sendToStream, StreamOutcome.Succeeds]
    · simp [sendToStream, StreamOutcome.Succeeds]

/-- If this event hands a message over, the answers are those of a successful call. -/
def WriteSucceeds (s : Client) : Event → Prop
  | .stream os => s.pc = .handOver → ∀ m ∈ s.msgOutDeque.head?, os.Succeeds m.data
  | _ => True

/-- The calls seen at a step all succeed exactly when the step meets the condition. -/
lemma observe_taken (s : Client) (e : Event) (r : Record Message (Message × UInt64)) :
    ∃ ys, (s.observe e r).taken = r.taken ++ ys ∧
      ((∀ y ∈ ys, y.2 ≠ 0) ↔ WriteSucceeds s e) := by
  cases e with
  | stream os =>
    refine ⟨_, rfl, ?_⟩
    obtain ⟨-, -, ⟨-, hout, hnone⟩ | ⟨m, hpc, hq, hout⟩⟩ := s.handOver_cases os
    · simp only [hout, WriteSucceeds]
      refine iff_of_true (by simp) fun hpc => ?_
      simp [hnone hpc]
    · simp [hout, WriteSucceeds, hpc, hq, sendToStream_ne_zero_iff]
  | _ => exact ⟨[], by simp [Client.observe, Record.arrive], by simp [WriteSucceeds]⟩

lemma sendOrRun_fixed {s : Client} {e : Event} (hp : SendOrRun s e) :
    Client.fixedCapacity.possible s e := by
  cases e with
  | setOutDeqCapacity c => exact absurd hp id
  | _ => rfl

/-- For every capacity and every interleaving of sends with iterations of `run`, no message
is lost at any moment exactly when every message taken from the queue met a stream that is
open, large enough and takes all of it. -/
theorem sendAndRun_noneLost_iff (capacity : ℕ) (keep : Bool) (es : List Event)
    (hl : sendAndRun.Legal (Client.initial capacity keep) es) :
    (sendAndRun.observed Client.observe).Along NoneLost (Client.initial capacity keep, {}) es ↔
      sendAndRun.EachStep WriteSucceeds (Client.initial capacity keep) es := by
  let I : Observed → Prop := fun x =>
    (x.1.Upward ∧ x.1.capacityMsgDeque = capacity) ∧ x.Numbered
  have hstep : ∀ (x : Observed) (e : Event), I x → x.ledger.InOrder → SendOrRun x.1 e →
      I (x.1.step e, x.1.observe e x.2) ∧
        (Observed.ledger (x.1.step e, x.1.observe e x.2)).InOrder := by
    intro x e hx horder hp
    have hqueue := Client.isQueue_numbered capacity
    have hnext := hqueue.keeps x e hx (sendOrRun_fixed hp)
    exact ⟨hnext, (hqueue.access x e hx (sendOrRun_fixed hp)).inOrder horder hnext.2.nodup⟩
  rw [← System.eachStep_observed (R := Client.observe) (h := {})]
  refine (System.legal_observed.mpr hl).along_iff_eachStep
    (G := fun x => I x ∧ x.ledger.InOrder ∧ ∀ y ∈ x.2.taken, y.2 ≠ 0) ?_ ?_ ?_
    ⟨⟨⟨Client.initial_upward capacity keep, rfl⟩, rfl⟩, Ledger.InOrder.empty, by simp⟩
  · rintro x ⟨-, horder, hw⟩
    exact (noneLost_iff horder).mpr hw
  · rintro x e ⟨hx, horder, hw⟩ hp hc
    obtain ⟨hnext, horder'⟩ := hstep x e hx horder hp
    refine ⟨hnext, horder', ?_⟩
    obtain ⟨ys, htaken, hiff⟩ := observe_taken x.1 e x.2
    intro y hy
    rcases List.mem_append.mp (htaken ▸ hy) with hy | hy
    · exact hw y hy
    · exact hiff.mpr hc y hy
  · rintro x e ⟨hx, horder, hw⟩ hp hc hlost
    have hw' := (noneLost_iff (hstep x e hx horder hp).2).mp hlost
    obtain ⟨ys, htaken, hiff⟩ := observe_taken x.1 e x.2
    exact hc (hiff.mp fun y hy => hw' y (htaken ▸ List.mem_append_right _ hy))

theorem sendAndRun_noneLost_iff_websocket :
    (sendAndRun.observed Client.observe).Along NoneLost (Client.initial 50 true, {})
        [.send [1], .answer true, .answer true, .testQueue, .stream (.websocket false false)] ↔
      sendAndRun.EachStep WriteSucceeds (Client.initial 50 true)
        [.send [1], .answer true, .answer true, .testQueue, .stream (.websocket false false)] :=
  sendAndRun_noneLost_iff 50 true _ (by decide)

/-- A link that breaks between the connection check and the write loses the message. -/
theorem sendAndRun_loses_message : ¬ ∀ (capacity : ℕ) (keep : Bool) (es : List Event),
    sendAndRun.Legal (Client.initial capacity keep) es →
      (sendAndRun.observed Client.observe).Along NoneLost (Client.initial capacity keep, {}) es := by
  intro h
  exact absurd (h 50 true [.send [1], .answer true, .answer true, .testQueue,
    .stream (.websocket false true)] (by decide)) (by decide)

end ToolkitCpp.Transport

import ToolkitCpp.TransportClient
import ToolkitCpp.TransportServer

/-!
# Order, bound and safety of the transport queues

The queues of client and server are evicting queues: what is handed on is what was enqueued,
in order and without what was evicted. The bound that their test keeps is one more than the
capacity. The emptiness test of `run` is not under the mutex, so it protects `front()` only
as long as no other thread empties the queue.
-/
namespace ToolkitCpp.Transport
open GuardedRuns EvictingQueue Pipe

/-- The message of a call of `send`. -/
def Event.sent : Event → Option Bytes
  | .send data => some data
  | _ => none

def ServerEvent.added : ServerEvent → Option (Bytes × String)
  | .addToIncoming data senderID => some (data, senderID)
  | _ => none

lemma Client.observed_arrived (s : Client) (r : Record Message (Message × UInt64))
    (es : List Event) :
    (Client.recorded.run (s, r) es).2.arrived.map Message.data =
      r.arrived.map Message.data ++ es.filterMap Event.sent := by
  induction es generalizing s r with
  | nil => simp
  | cons e es ih =>
    refine (ih (s.step e) (s.observe e r)).trans ?_
    cases e <;> simp [Client.observe, Event.sent, Record.arrive, Record.take, List.filterMap_cons]

lemma Server.observed_arrived (s : Server) (r : Record Request Request) (es : List ServerEvent) :
    (Server.recorded.run (s, r) es).2.arrived.map
        (fun m => (m.data, m.senderID)) =
      r.arrived.map (fun m => (m.data, m.senderID)) ++ es.filterMap ServerEvent.added := by
  induction es generalizing s r with
  | nil => simp
  | cons e es ih =>
    refine (ih (s.step e) (s.observe e r)).trans ?_
    cases e <;>
      simp [Server.observe, ServerEvent.added, Record.arrive, Record.take, List.filterMap_cons]

lemma Server.initial_upward (capacity : ℕ) (keep hasCallBack : Bool) (global : Option Bool) :
    (Server.initial capacity keep hasCallBack global).Upward := by
  simp [Server.Upward, Server.initial]

/-- For every capacity and every interleaving of the producers with `run`: the enqueued messages
are those of the producers' calls in their order; in every state the messages handed on and then
those still queued are the enqueued ones without those evicted; and at every step only the oldest
message of a queue longer than the capacity is evicted. -/
theorem queues_inOrder (capacity : ℕ) (keep : Bool) (es : List Event)
    (hl : Client.fixedCapacity.Legal (Client.initial capacity keep) es)
    (global : Option Bool) (fs : List ServerEvent)
    (hm : Server.fixedCapacity.Legal (Server.initial capacity keep true global) fs) :
    ((Client.recorded.run
          (Client.initial capacity keep, {}) es).2.arrived.map Message.data =
        es.filterMap Event.sent ∧
      Client.recorded.Along (fun x => x.ledger.InOrder)
        (Client.initial capacity keep, {}) es ∧
      Client.recorded.EachStep
        (fun x e => EvictsOldest capacity x.ledger
          (Client.recorded.step x e).ledger)
        (Client.initial capacity keep, {}) es) ∧
    ((Server.recorded.run
          (Server.initial capacity keep true global, {}) fs).2.arrived.map
          (fun m => (m.data, m.senderID)) = fs.filterMap ServerEvent.added ∧
      Server.recorded.Along (fun x => x.ledger.InOrder)
        (Server.initial capacity keep true global, {}) fs ∧
      Server.recorded.EachStep
        (fun x e => EvictsOldest capacity x.ledger
          (Server.recorded.step x e).ledger)
        (Server.initial capacity keep true global, {}) fs) := by
  refine ⟨⟨Client.observed_arrived _ _ es, ?_⟩, Server.observed_arrived _ _ fs, ?_⟩
  · exact (Client.isQueue_numbered capacity).inOrder (fun x hx => hx.2.nodup)
      (System.legal_observed.mpr hl) ⟨⟨Client.initial_upward capacity keep, rfl⟩, rfl⟩
      Ledger.InOrder.empty
  · exact (Server.isQueue_numbered capacity).inOrder (fun x hx => hx.2.nodup)
      (System.legal_observed.mpr hm) ⟨⟨Server.initial_upward capacity keep true global, rfl⟩, rfl⟩
      Ledger.InOrder.empty

theorem queues_inOrder_evicting :
    ((Client.recorded.run (Client.initial 0 true, {})
          [.send [1], .send [2], .answer true, .answer true, .testQueue,
            .stream (.websocket false false)]).2.arrived.map Message.data = [[1], [2]] ∧
      Client.recorded.Along (fun x => x.ledger.InOrder)
        (Client.initial 0 true, {})
        [.send [1], .send [2], .answer true, .answer true, .testQueue,
          .stream (.websocket false false)] ∧
      Client.recorded.EachStep
        (fun x e => EvictsOldest 0 x.ledger (Client.recorded.step x e).ledger)
        (Client.initial 0 true, {})
        [.send [1], .send [2], .answer true, .answer true, .testQueue,
          .stream (.websocket false false)]) ∧
    ((Server.recorded.run (Server.initial 0 true true none, {})
          [.addToIncoming [1] "a", .addToIncoming [2] "b"]).2.arrived.map
          (fun m => (m.data, m.senderID)) = [([1], "a"), ([2], "b")] ∧
      Server.recorded.Along (fun x => x.ledger.InOrder)
        (Server.initial 0 true true none, {})
        [.addToIncoming [1] "a", .addToIncoming [2] "b"] ∧
      Server.recorded.EachStep
        (fun x e => EvictsOldest 0 x.ledger
          (Server.recorded.step x e).ledger)
        (Server.initial 0 true true none, {})
        [.addToIncoming [1] "a", .addToIncoming [2] "b"]) :=
  queues_inOrder 0 true _ (by decide) none _ (by decide)

/-- A `send` finds room below the capacity. -/
def SendsBelowCapacity (s : Client) : Event → Prop
  | .send _ => s.msgOutDeque.length < s.capacityMsgDeque
  | _ => True

def AddsBelowCapacity (s : Server) : ServerEvent → Prop
  | .addToIncoming _ _ => s.msgInDeque.length < s.capacityMsgDeque
  | _ => True

lemma sendsBelowCapacity_iff (x : Observed) (e : Event) : SendsBelowCapacity x.1 e ↔
    (Client.recorded.step x e).ledger.arrived = x.ledger.arrived ∨
      x.ledger.waiting.length < x.1.capacityMsgDeque := by
  cases e with
  | send data =>
    have harrived : (Client.recorded.step x (.send data)).ledger.arrived =
        x.ledger.arrived ++ [⟨x.1.calls, data⟩] := rfl
    rw [harrived, or_iff_right (by simp)]
    rfl
  | _ => exact iff_of_true trivial (Or.inl rfl)

lemma addsBelowCapacity_iff (x : ObservedServer) (e : ServerEvent) : AddsBelowCapacity x.1 e ↔
    (Server.recorded.step x e).ledger.arrived = x.ledger.arrived ∨
      x.ledger.waiting.length < x.1.capacityMsgDeque := by
  cases e with
  | addToIncoming data senderID =>
    have harrived : (Server.recorded.step x (.addToIncoming data senderID)).ledger.arrived =
        x.ledger.arrived ++ [⟨x.1.calls, data, senderID⟩] := rfl
    rw [harrived, or_iff_right (by simp)]
    rfl
  | _ => exact iff_of_true trivial (Or.inl rfl)

lemma Client.setOutDeqCapacity_upward (s : Client) (c : ℕ) : (s.setOutDeqCapacity c).Upward := by
  simp [Client.Upward, Client.setOutDeqCapacity]

lemma Server.setInDeqCapacity_upward (s : Server) (c : ℕ) : (s.setInDeqCapacity c).Upward := by
  simp [Server.Upward, Server.setInDeqCapacity]

/-- After the capacity was set to `c`, the queue never holds more than `c + 1` messages, and
never more than `c` exactly when every message was enqueued while it held fewer than `c`. -/
theorem queues_bounded_iff (c : ℕ) (s : Client) (es : List Event)
    (hl : Client.fixedCapacity.Legal (s.setOutDeqCapacity c) es) (t : Server)
    (fs : List ServerEvent) (hm : Server.fixedCapacity.Legal (t.setInDeqCapacity c) fs) :
    ((Client.fixedCapacity.Along (fun s => s.msgOutDeque.length ≤ c) (s.setOutDeqCapacity c) es ↔
        Client.fixedCapacity.EachStep SendsBelowCapacity (s.setOutDeqCapacity c) es) ∧
      Client.fixedCapacity.Along (fun s => s.msgOutDeque.length ≤ c + 1)
        (s.setOutDeqCapacity c) es) ∧
    (Server.fixedCapacity.Along (fun s => s.msgInDeque.length ≤ c) (t.setInDeqCapacity c) fs ↔
        Server.fixedCapacity.EachStep AddsBelowCapacity (t.setInDeqCapacity c) fs) ∧
      Server.fixedCapacity.Along (fun s => s.msgInDeque.length ≤ c + 1)
        (t.setInDeqCapacity c) fs := by
  have hl' := System.legal_observed (R := Client.observe) (h := {}) |>.mpr hl
  have hm' := System.legal_observed (R := Server.observe) (h := {}) |>.mpr hm
  refine ⟨⟨?_, ?_⟩, ?_, ?_⟩
  · rw [← System.along_observed, ← System.eachStep_observed]
    refine (Client.isQueue c).length_le_iff ?_ hl' ⟨s.setOutDeqCapacity_upward c, rfl⟩
      (Nat.zero_le c)
    rintro x e ⟨-, rfl⟩ -
    exact sendsBelowCapacity_iff x e
  · rw [← System.along_observed]
    exact (Client.isQueue c).length_le hl' ⟨s.setOutDeqCapacity_upward c, rfl⟩ (Nat.zero_le _)
  · rw [← System.along_observed, ← System.eachStep_observed]
    refine (Server.isQueue c).length_le_iff ?_ hm' ⟨t.setInDeqCapacity_upward c, rfl⟩
      (Nat.zero_le c)
    rintro x e ⟨-, rfl⟩ -
    exact addsBelowCapacity_iff x e
  · rw [← System.along_observed]
    exact (Server.isQueue c).length_le hm' ⟨t.setInDeqCapacity_upward c, rfl⟩ (Nat.zero_le _)

theorem queues_bounded_iff_two :
    ((Client.fixedCapacity.Along (fun s => s.msgOutDeque.length ≤ 2)
          ((Client.initial 50 true).setOutDeqCapacity 2) [.send [1], .send [2]] ↔
        Client.fixedCapacity.EachStep SendsBelowCapacity
          ((Client.initial 50 true).setOutDeqCapacity 2) [.send [1], .send [2]]) ∧
      Client.fixedCapacity.Along (fun s => s.msgOutDeque.length ≤ 2 + 1)
        ((Client.initial 50 true).setOutDeqCapacity 2) [.send [1], .send [2]]) ∧
    (Server.fixedCapacity.Along (fun s => s.msgInDeque.length ≤ 2)
          ((Server.initial 20 true true none).setInDeqCapacity 2) [.addToIncoming [1] "a"] ↔
        Server.fixedCapacity.EachStep AddsBelowCapacity
          ((Server.initial 20 true true none).setInDeqCapacity 2) [.addToIncoming [1] "a"]) ∧
      Server.fixedCapacity.Along (fun s => s.msgInDeque.length ≤ 2 + 1)
        ((Server.initial 20 true true none).setInDeqCapacity 2) [.addToIncoming [1] "a"] :=
  queues_bounded_iff 2 _ _ (by decide) _ _ (by decide)

/-- A queue of capacity `1` takes a second message. -/
theorem queues_exceed_capacity :
    (¬ ∀ (c : ℕ) (s : Client) (es : List Event),
      Client.fixedCapacity.Legal (s.setOutDeqCapacity c) es →
        Client.fixedCapacity.Along (fun s => s.msgOutDeque.length ≤ c)
          (s.setOutDeqCapacity c) es) ∧
    ¬ ∀ (c : ℕ) (s : Server) (es : List ServerEvent),
      Server.fixedCapacity.Legal (s.setInDeqCapacity c) es →
        Server.fixedCapacity.Along (fun s => s.msgInDeque.length ≤ c)
          (s.setInDeqCapacity c) es := by
  constructor
  · intro h
    exact absurd (h 1 (Client.initial 50 true) [.send [1], .send [2]] (by decide)) (by decide)
  · intro h
    exact absurd (h 1 (Server.initial 20 true true none)
      [.addToIncoming [1] "a", .addToIncoming [2] "a"] (by decide)) (by decide)

/-- Every call from every thread. -/
def Client.threads : System Client Event := ⟨fun _ _ => True, Client.step⟩

def Server.threads : System Server ServerEvent := ⟨fun _ _ => True, Server.step⟩

/-- The capacity is set while `run` stands between its emptiness test and `front()`. -/
def ClearsBeforeFront (s : Client) : Event → Prop
  | .setOutDeqCapacity _ => s.pc = .handOver
  | _ => False

def ClearsBeforeCall (s : Server) : ServerEvent → Prop
  | .setInDeqCapacity _ => s.pc = .callBackResponse
  | _ => False

def Event.isStream : Event → Bool
  | .stream _ => true
  | _ => false

def Event.isSend : Event → Bool
  | .send _ => true
  | _ => false

def ServerEvent.isProceed : ServerEvent → Bool
  | .proceed _ => true
  | _ => false

def ServerEvent.isAdd : ServerEvent → Bool
  | .addToIncoming _ _ => true
  | _ => false

def Client.Safe (s : Client) : Prop := s.pc ≠ .fault ∧ (s.pc = .handOver → s.msgOutDeque ≠ [])

def Client.Exposed (s : Client) : Prop := s.pc = .handOver ∧ s.msgOutDeque = []

def Server.Safe (s : Server) : Prop :=
  s.pc ≠ .fault ∧ (s.pc = .callBackResponse → s.msgInDeque ≠ [])

def Server.Exposed (s : Server) : Prop := s.pc = .callBackResponse ∧ s.msgInDeque = []

/-- The connection phase neither reaches nor leaves the hand-over. -/
lemma Client.answer_pc (s : Client) (ok : Bool) :
    (s.answer ok).pc = s.pc ∨ (s.answer ok).pc ≠ .handOver ∧ (s.answer ok).pc ≠ .fault ∧
      s.pc ≠ .handOver := by
  cases hpc : s.pc with
  | loopHead =>
    simp only [Client.answer, hpc]
    split_ifs <;> simp
  | _ => cases ok <;> simp [Client.answer, hpc]

lemma Client.Safe.step {s : Client} {e : Event} (hs : s.Safe) (hc : ¬ ClearsBeforeFront s e) :
    (s.step e).Safe := by
  cases e with
  | send data =>
    refine ⟨?_, fun _ => s.send_ne_nil data⟩
    rw [Client.step, Client.send_pc]
    exact hs.1
  | setOutDeqCapacity c => exact ⟨hs.1, fun hpc => absurd hpc hc⟩
  | answer ok =>
    rcases s.answer_pc ok with hpc | ⟨hne, hf, _⟩
    · rw [Client.Safe, Client.step, hpc, (s.answer_same ok).2.2]
      exact hs
    · exact ⟨hf, fun hpc => absurd hpc hne⟩
  | testQueue =>
    rw [Client.step, Client.testQueue]
    split_ifs with hpc hq
    · exact ⟨by simp, by simp⟩
    · exact ⟨by simp, fun _ hnil => hq (by simpa using hnil)⟩
    · exact hs
  | stream os =>
    rw [Client.step, Client.handOver]
    by_cases hpc : s.pc = .handOver
    · cases hq : s.msgOutDeque with
      | nil => exact absurd hq (hs.2 hpc)
      | cons m rest =>
        rw [if_pos hpc]
        cases s.isKeepConnect <;> exact ⟨by simp, by simp⟩
    · rw [if_neg hpc]
      exact hs

lemma Client.Exposed.send {s : Client} (hs : s.Exposed) (data : Bytes) : (s.send data).Safe := by
  refine ⟨?_, fun _ => s.send_ne_nil data⟩
  rw [Client.send_pc, hs.1]
  decide

lemma Client.Exposed.stream {s : Client} (hs : s.Exposed) (os : StreamOutcome) :
    (s.handOver os).1.pc = .fault := by
  simp [Client.handOver, hs.1, hs.2]

lemma Client.Exposed.wait {s : Client} {e : Event} (hs : s.Exposed) (hf : e.isStream = false)
    (hn : e.isSend = false) : (s.step e).Exposed := by
  cases e with
  | send data => exact Bool.noConfusion hn
  | setOutDeqCapacity c => exact ⟨hs.1, rfl⟩
  | answer ok =>
    rcases s.answer_pc ok with hpc | ⟨_, _, hne⟩
    · rw [Client.Exposed, Client.step, hpc, (s.answer_same ok).2.2]
      exact hs
    · exact absurd hs.1 hne
  | testQueue =>
    rw [Client.step, Client.testQueue, hs.1, if_neg (by decide)]
    exact hs
  | stream os => exact Bool.noConfusion hf

lemma Server.Safe.step {s : Server} {e : ServerEvent} (hs : s.Safe)
    (hc : ¬ ClearsBeforeCall s e) : (s.step e).Safe := by
  cases e with
  | addToIncoming data senderID =>
    refine ⟨?_, fun _ => s.addToIncoming_ne_nil data senderID⟩
    exact hs.1
  | setInDeqCapacity c => exact ⟨hs.1, fun hpc => absurd hpc hc⟩
  | setLocalIsWork isWork => exact hs
  | setGlobalIsWork isWork => exact hs
  | proceed ok =>
    rw [Server.step, Server.proceed]
    cases hpc : s.pc with
    | loopHead => cases s.isWork <;> exact ⟨by simp, by simp⟩
    | connectTest =>
      cases s.isKeepConnect || !s.msgInDeque.isEmpty <;> exact ⟨by simp, by simp⟩
    | checkConnection => cases ok <;> exact ⟨by simp, by simp⟩
    | createConnection => cases ok <;> exact ⟨by simp, by simp⟩
    | queueTest =>
      cases hq : s.msgInDeque with
      | nil => exact ⟨by simp, by simp⟩
      | cons m rest =>
        cases s.hasCallBack <;> cases hk : s.isKeepConnect <;>
          exact ⟨by simp [Server.afterCall, hk], by simp [Server.afterCall, hk]⟩
    | callBackResponse =>
      cases hq : s.msgInDeque with
      | nil => exact absurd hq (hs.2 hpc)
      | cons m rest =>
        cases hk : s.isKeepConnect <;>
          exact ⟨by simp [Server.afterCall, hk], by simp [Server.afterCall, hk]⟩
    | releaseConnection => exact ⟨by simp, by simp⟩
    | stopped => exact hs
    | fault => exact absurd hpc hs.1

lemma Server.Exposed.addToIncoming {s : Server} (hs : s.Exposed) (data : Bytes)
    (senderID : String) : (s.addToIncoming data senderID).Safe := by
  refine ⟨?_, fun _ => s.addToIncoming_ne_nil data senderID⟩
  change s.pc ≠ .fault
  rw [hs.1]
  decide

lemma Server.Exposed.proceed {s : Server} (hs : s.Exposed) (ok : Bool) :
    (s.proceed ok).1.pc = .fault := by
  simp [Server.proceed, hs.1, hs.2]

lemma Server.Exposed.wait {s : Server} {e : ServerEvent} (hs : s.Exposed)
    (hf : e.isProceed = false) (hn : e.isAdd = false) : (s.step e).Exposed := by
  cases e with
  | addToIncoming data senderID => exact Bool.noConfusion hn
  | setInDeqCapacity c => exact ⟨hs.1, rfl⟩
  | setLocalIsWork isWork => exact hs
  | setGlobalIsWork isWork => exact hs
  | proceed ok => exact Bool.noConfusion hf

/-- Over all interleavings of all calls, `front()` is never executed on an empty queue exactly
when no setting of the capacity falls between the emptiness test and the `front()` it guards
without a later message making up for it. -/
theorem queues_front_iff (capacity : ℕ) (keep : Bool) (es : List Event)
    (hasCallBack : Bool) (global : Option Bool) (fs : List ServerEvent) :
    (Client.threads.Along (fun s => s.pc ≠ .fault) (Client.initial capacity keep) es ↔
      ¬ Client.threads.Window ClearsBeforeFront (fun e => e.isSend = false)
        (fun e => e.isStream = true) (Client.initial capacity keep) es) ∧
    (Server.threads.Along (fun s => s.pc ≠ .fault)
        (Server.initial capacity keep hasCallBack global) fs ↔
      ¬ Server.threads.Window ClearsBeforeCall (fun e => e.isAdd = false)
        (fun e => e.isProceed = true) (Server.initial capacity keep hasCallBack global) fs) := by
  constructor
  · have hl := System.legal_of_forall (M := Client.threads) (fun _ _ => trivial)
      (Client.initial capacity keep) es
    refine (hl.along_iff_not_window (G := Client.Safe) (X := Client.Exposed)
      (fun s hs => hs.1) (fun s hs => by simp [hs.1]) ?_ ?_ ?_ ?_ ?_).1
      ⟨by simp [Client.initial], by simp [Client.initial]⟩
    · intro s e hs _ ha
      cases e with
      | setOutDeqCapacity c => exact ⟨ha, rfl⟩
      | _ => exact ha.elim
    · intro s e hs _ ha
      exact hs.step ha
    · intro s e hs _ hf
      cases e with
      | stream os => exact not_not.mpr (hs.stream os)
      | _ => exact Bool.noConfusion hf
    · intro s e hs _ hf hn
      exact hs.wait (Bool.eq_false_iff.mpr hf) hn
    · intro s e hs _ hf hn
      cases e with
      | send data => exact ⟨hs.send data, id⟩
      | _ => exact absurd rfl hn
  · have hl := System.legal_of_forall (M := Server.threads) (fun _ _ => trivial)
      (Server.initial capacity keep hasCallBack global) fs
    refine (hl.along_iff_not_window (G := Server.Safe) (X := Server.Exposed)
      (fun s hs => hs.1) (fun s hs => by simp [hs.1]) ?_ ?_ ?_ ?_ ?_).1
      ⟨by simp [Server.initial], by simp [Server.initial]⟩
    · intro s e hs _ ha
      cases e with
      | setInDeqCapacity c => exact ⟨ha, rfl⟩
      | _ => exact ha.elim
    · intro s e hs _ ha
      exact hs.step ha
    · intro s e hs _ hf
      cases e with
      | proceed ok => exact not_not.mpr (hs.proceed ok)
      | _ => exact Bool.noConfusion hf
    · intro s e hs _ hf hn
      exact hs.wait (Bool.eq_false_iff.mpr hf) hn
    · intro s e hs _ hf hn
      cases e with
      | addToIncoming data senderID => exact ⟨hs.addToIncoming data senderID, id⟩
      | _ => exact absurd rfl hn

/-- Setting the capacity after the emptiness test makes `run` take the front of an empty
queue. -/
theorem queues_front_empty :
    (¬ ∀ (capacity : ℕ) (keep : Bool) (es : List Event),
      Client.threads.Along (fun s => s.pc ≠ .fault) (Client.initial capacity keep) es) ∧
    ¬ ∀ (capacity : ℕ) (keep hasCallBack : Bool) (global : Option Bool) (fs : List ServerEvent),
      Server.threads.Along (fun s => s.pc ≠ .fault)
        (Server.initial capacity keep hasCallBack global) fs := by
  constructor
  · intro h
    exact absurd (h 50 true [.send [1], .answer true, .answer true, .testQueue,
      .setOutDeqCapacity 10, .stream (.websocket false false)]) (by decide)
  · intro h
    exact absurd (h 20 true true none [.addToIncoming [1] "a", .proceed true, .proceed true,
      .proceed true, .proceed true, .setInDeqCapacity 10, .proceed true]) (by decide)

/-- The owner neither clears the global flag nor calls `setLocalIsWork(false)`. -/
def KeepsFlags (_ : Server) : ServerEvent → Prop
  | .setLocalIsWork isWork => isWork = true
  | .setGlobalIsWork isWork => isWork = true
  | _ => True

def Server.keptOn : System Server ServerEvent := ⟨KeepsFlags, Server.step⟩

instance (s : Server) (e : ServerEvent) : Decidable (Server.keptOn.possible s e) :=
  match e with
  | .addToIncoming _ _ => isTrue trivial
  | .setInDeqCapacity _ => isTrue trivial
  | .setLocalIsWork isWork => inferInstanceAs (Decidable (isWork = true))
  | .setGlobalIsWork isWork => inferInstanceAs (Decidable (isWork = true))
  | .proceed _ => isTrue trivial

/-- `run` closes the connection at the end of its iteration. -/
def ReleasesConnection (s : Server) : ServerEvent → Prop
  | .proceed _ => s.pc = .releaseConnection
  | _ => False

def ServerEvent.isRestart : ServerEvent → Bool
  | .setLocalIsWork isWork => isWork
  | _ => false

/-- The loop goes on at the next test of its guard. -/
structure Server.GoesOn (s : Server) : Prop where
  running : s.pc ≠ .stopped
  localFlag : s.localIsWork = true
  globalFlag : s.globalIsWork ≠ some false

/-- The connection was closed, and with it the flag that guards the loop. -/
structure Server.Closed (s : Server) : Prop where
  atHead : s.pc = .loopHead
  localFlag : s.localIsWork = false
  globalFlag : s.globalIsWork ≠ some false

lemma Server.GoesOn.isWork {s : Server} (hs : s.GoesOn) : s.isWork = true := by
  have hglobal := hs.globalFlag
  cases hg : s.globalIsWork with
  | none => simp [Server.isWork, hg, hs.localFlag]
  | some b =>
    cases b with
    | false => exact absurd hg hglobal
    | true => simp [Server.isWork, hg, hs.localFlag]

lemma setGlobalIsWork_ne (g : Option Bool) : (g.map fun _ => true) ≠ some false := by
  cases g <;> simp

lemma Server.GoesOn.proceed {s : Server} (hs : s.GoesOn) (hr : s.pc ≠ .releaseConnection)
    (ok : Bool) : (s.proceed ok).1.GoesOn := by
  have hflags := hs.isWork
  obtain ⟨hrun, hlocal, hglobal⟩ := hs
  rw [Server.proceed]
  cases hpc : s.pc with
  | loopHead =>
    simp only [hflags, if_true]
    exact ⟨by simp, hlocal, hglobal⟩
  | connectTest =>
    cases s.isKeepConnect || !s.msgInDeque.isEmpty <;> exact ⟨by simp, hlocal, hglobal⟩
  | checkConnection => cases ok <;> exact ⟨by simp, hlocal, hglobal⟩
  | createConnection => cases ok <;> exact ⟨by simp, hlocal, hglobal⟩
  | queueTest =>
    refine ⟨?_, hlocal, hglobal⟩
    simp only [Server.afterCall]
    split_ifs <;> simp
  | callBackResponse =>
    cases s.msgInDeque with
    | nil => exact ⟨by simp, hlocal, hglobal⟩
    | cons m rest =>
      refine ⟨?_, hlocal, hglobal⟩
      simp only [Server.afterCall]
      split_ifs <;> simp
  | releaseConnection => exact absurd hpc hr
  | stopped => exact absurd hpc hrun
  | fault => exact ⟨by simp [hpc], hlocal, hglobal⟩

lemma Server.GoesOn.step {s : Server} {e : ServerEvent} (hs : s.GoesOn) (hp : KeepsFlags s e)
    (hr : ¬ ReleasesConnection s e) : (s.step e).GoesOn := by
  cases e with
  | addToIncoming data senderID => exact ⟨hs.running, hs.localFlag, hs.globalFlag⟩
  | setInDeqCapacity c => exact ⟨hs.running, hs.localFlag, hs.globalFlag⟩
  | setLocalIsWork isWork => exact ⟨hs.running, hp, hs.globalFlag⟩
  | setGlobalIsWork isWork =>
    refine ⟨hs.running, hs.localFlag, ?_⟩
    have hon : isWork = true := hp
    rw [Server.step, hon]
    exact setGlobalIsWork_ne s.globalIsWork
  | proceed ok => exact hs.proceed hr ok

lemma Server.GoesOn.release {s : Server} (hs : s.GoesOn) (hpc : s.pc = .releaseConnection)
    (ok : Bool) : (s.proceed ok).1.Closed := by
  rw [Server.proceed, hpc]
  exact ⟨rfl, rfl, hs.globalFlag⟩

lemma Server.Closed.proceed {s : Server} (hs : s.Closed) (ok : Bool) :
    (s.proceed ok).1.pc = .stopped := by
  simp [Server.proceed, Server.isWork, hs.atHead, hs.localFlag]

lemma Server.Closed.restart {s : Server} (hs : s.Closed) :
    (s.step (.setLocalIsWork true)).GoesOn := by
  refine ⟨?_, rfl, hs.globalFlag⟩
  change s.pc ≠ .stopped
  rw [hs.atHead]
  decide

lemma Server.Closed.wait {s : Server} {e : ServerEvent} (hs : s.Closed) (hp : KeepsFlags s e)
    (hf : e.isProceed = false) (hn : e.isRestart = false) : (s.step e).Closed := by
  cases e with
  | addToIncoming data senderID => exact ⟨hs.atHead, hs.localFlag, hs.globalFlag⟩
  | setInDeqCapacity c => exact ⟨hs.atHead, hs.localFlag, hs.globalFlag⟩
  | setLocalIsWork isWork => exact ⟨hs.atHead, hn, hs.globalFlag⟩
  | setGlobalIsWork isWork =>
    refine ⟨hs.atHead, hs.localFlag, ?_⟩
    have hon : isWork = true := hp
    rw [Server.step, hon]
    exact setGlobalIsWork_ne s.globalIsWork
  | proceed ok => exact Bool.noConfusion hf

/-- A server that does not keep its connection, and whose owner leaves both flags on, stays in
its loop exactly when each closing of the connection is followed by a `setLocalIsWork(true)`
before the guard is tested again. -/
theorem run_goesOn_iff (capacity : ℕ) (global : Option Bool) (hg : global ≠ some false)
    (es : List ServerEvent)
    (hl : Server.keptOn.Legal (Server.initial capacity false true global) es) :
    Server.keptOn.Along (fun s => s.pc ≠ .stopped) (Server.initial capacity false true global) es ↔
      ¬ Server.keptOn.Window ReleasesConnection (fun e => e.isRestart = false)
        (fun e => e.isProceed = true) (Server.initial capacity false true global) es := by
  refine (hl.along_iff_not_window (G := Server.GoesOn) (X := Server.Closed)
    (fun s hs => hs.running) (fun s hs => by simp [hs.atHead]) ?_ ?_ ?_ ?_ ?_).1
    ⟨by simp [Server.initial], rfl, hg⟩
  · intro s e hs _ ha
    cases e with
    | proceed ok => exact hs.release ha ok
    | _ => exact ha.elim
  · intro s e hs hp ha
    exact hs.step hp ha
  · intro s e hs _ hf
    cases e with
    | proceed ok => exact not_not.mpr (hs.proceed ok)
    | _ => exact Bool.noConfusion hf
  · intro s e hs hp hf hn
    exact hs.wait hp (Bool.eq_false_iff.mpr hf) hn
  · intro s e hs _ hf hn
    cases e with
    | setLocalIsWork isWork =>
      have hon : isWork = true := Bool.not_eq_false _ ▸ hn
      subst hon
      exact ⟨hs.restart, id⟩
    | proceed ok => exact absurd rfl hf
    | _ => exact absurd rfl hn

theorem run_goesOn_iff_idle :
    Server.keptOn.Along (fun s => s.pc ≠ .stopped) (Server.initial 20 false true none)
        [.proceed true, .proceed true, .proceed true] ↔
      ¬ Server.keptOn.Window ReleasesConnection (fun e => e.isRestart = false)
        (fun e => e.isProceed = true) (Server.initial 20 false true none)
        [.proceed true, .proceed true, .proceed true] :=
  run_goesOn_iff 20 none (by decide) _ (by decide)

/-- The loop ends after its first message, with the second one still in the queue. -/
theorem run_stops_after_message : ¬ ∀ (capacity : ℕ) (global : Option Bool)
    (es : List ServerEvent), global ≠ some false →
      Server.keptOn.Legal (Server.initial capacity false true global) es →
      Server.keptOn.Along (fun s => s.pc = .stopped → s.msgInDeque = [])
        (Server.initial capacity false true global) es := by
  intro h
  exact absurd (h 20 none [.addToIncoming [1] "a", .addToIncoming [2] "b", .proceed true,
    .proceed true, .proceed true, .proceed true, .proceed true, .proceed true, .proceed true]
    (by decide) (by decide)) (by decide)

end ToolkitCpp.Transport

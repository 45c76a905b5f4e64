import ToolkitCpp.EvictingQueue
import ToolkitCpp.Machine

/-!
# The incoming queue of a transport server

`BaseTransportServer::addToIncoming` and `run`, cut like the client where other threads can
act. The loop is guarded by two flags: `m_localIsWork`, which the loop itself clears through
`releaseConnection`, and the owner's flag behind `p_GlobalIsWork`, which is the first one
again when the owner set none. An observer writes down what was accepted, evicted and handed to
the callback.
-/
namespace ToolkitCpp.Transport
open GuardedRuns EvictingQueue

/-- An allocated copy of a message with the one who sent it, numbered by the call. -/
structure Request where
  number : ℕ
  data : Bytes
  senderID : String
  deriving DecidableEq, Repr

/-- Where the thread of `run` stands. `fault` is a `front()` on an empty queue. -/
inductive ServerPc
  | loopHead
  | connectTest
  | checkConnection
  | createConnection
  | queueTest
  | callBackResponse
  | releaseConnection
  | stopped
  | fault
  deriving DecidableEq, Repr

/-- `calls` counts the calls of `addToIncoming`. -/
structure Server where
  msgInDeque : List Request
  capacityMsgDeque : ℕ
  isKeepConnect : Bool
  hasCallBack : Bool
  localIsWork : Bool
  globalIsWork : Option Bool
  pc : ServerPc
  calls : ℕ
  deriving DecidableEq, Repr

def Server.initial (capacity : ℕ) (keep hasCallBack : Bool) (globalIsWork : Option Bool) :
    Server :=
  ⟨[], capacity, keep, hasCallBack, true, globalIsWork, .loopHead, 0⟩

/-- `proceed` is the next step of `run`; its flag is the result of the connection function
whose turn it is, if it is the turn of one. -/
inductive ServerEvent
  | addToIncoming (data : Bytes) (senderID : String)
  | setInDeqCapacity (capacity : ℕ)
  | setLocalIsWork (isWork : Bool)
  | setGlobalIsWork (isWork : Bool)
  | proceed (ok : Bool)
  deriving DecidableEq, Repr

def Server.addToIncoming (s : Server) (data : Bytes) (senderID : String) : Server :=
  let newMsg : Request := ⟨s.calls, data, senderID⟩
  let msgInDeque := if s.msgInDeque.length > s.capacityMsgDeque then s.msgInDeque.tail
    else s.msgInDeque
  { s with msgInDeque := msgInDeque ++ [newMsg], calls := s.calls + 1 }

def Server.setInDeqCapacity (s : Server) (capacity : ℕ) : Server :=
  { s with msgInDeque := [], capacityMsgDeque := capacity }

/-- `*p_GlobalIsWork && m_localIsWork`. -/
def Server.isWork (s : Server) : Bool := s.globalIsWork.getD s.localIsWork && s.localIsWork

/-- The end of an iteration, after `doAfter`. -/
def Server.afterCall (s : Server) : ServerPc :=
  if s.isKeepConnect then .loopHead else .releaseConnection

/-- The next step of `run`, with the request that it hands to the callback. -/
def Server.proceed (s : Server) (ok : Bool) : Server × Option Request :=
  match s.pc with
  | .loopHead =>
      if s.isWork then ({ s with pc := .connectTest }, none)
      else ({ s with localIsWork := false, pc := .stopped }, none)
  | .connectTest =>
      ({ s with pc := if s.isKeepConnect || !s.msgInDeque.isEmpty then .checkConnection
                      else .queueTest }, none)
  | .checkConnection => ({ s with pc := if ok then .queueTest else .createConnection }, none)
  | .createConnection => ({ s with pc := if ok then .queueTest else .loopHead }, none)
  | .queueTest =>
      ({ s with pc := if s.msgInDeque.isEmpty then .loopHead
                      else if s.hasCallBack then .callBackResponse else s.afterCall }, none)
  | .callBackResponse =>
      match s.msgInDeque with
      | [] => ({ s with pc := .fault }, none)
      | m :: rest => ({ s with msgInDeque := rest, pc := s.afterCall }, some m)
  -- the pipe, the WebSocket and the RabbitMQ server all clear the flag here
  | .releaseConnection => ({ s with localIsWork := false, pc := .loopHead }, none)
  | .stopped => (s, none)
  | .fault => (s, none)

def Server.step (s : Server) : ServerEvent → Server
  | .addToIncoming data senderID => s.addToIncoming data senderID
  | .setInDeqCapacity capacity => s.setInDeqCapacity capacity
  | .setLocalIsWork isWork => { s with localIsWork := isWork }
  | .setGlobalIsWork isWork => { s with globalIsWork := s.globalIsWork.map fun _ => isWork }
  | .proceed ok => (s.proceed ok).1

/-- The observer writes down the messages given to `addToIncoming`, what such a call drops from the
queue, and the calls of the callback. -/
def Server.observe (s : Server) (e : ServerEvent) (r : Record Request Request) :
    Record Request Request :=
  match e with
  | .addToIncoming data senderID =>
      r.arrive ⟨s.calls, data, senderID⟩ s.msgInDeque (s.addToIncoming data senderID).msgInDeque
  | .proceed ok => r.take (s.proceed ok).2
  | _ => r

/-- The server and what was seen of it. -/
abbrev ObservedServer := Server × Record Request Request

def ObservedServer.ledger (x : ObservedServer) : Ledger Request := x.2.ledger id x.1.msgInDeque

def ServerEvent.setsCapacity : ServerEvent → Bool
  | .setInDeqCapacity _ => true
  | _ => false

/-- All threads, the capacity being set once before. -/
def Server.fixedCapacity : System Server ServerEvent where
  possible _ e := e.setsCapacity = false
  step := Server.step

instance (s : Server) (e : ServerEvent) : Decidable (Server.fixedCapacity.possible s e) :=
  inferInstanceAs (Decidable (e.setsCapacity = false))

def Server.recorded : System ObservedServer ServerEvent :=
  Server.fixedCapacity.observed Server.observe

/-- The queue is numbered upwards, below the next number. -/
def Server.Upward (s : Server) : Prop :=
  (s.msgInDeque.map Request.number ++ [s.calls]).Pairwise (· < ·)

lemma Server.addToIncoming_ne_nil (s : Server) (data : Bytes) (senderID : String) :
    (s.addToIncoming data senderID).msgInDeque ≠ [] := by
  simp [Server.addToIncoming]

lemma Server.Upward.nodup {s : Server} (h : s.Upward) (data : Bytes) (senderID : String) :
    (s.msgInDeque ++ [(⟨s.calls, data, senderID⟩ : Request)]).Nodup :=
  nodup_of_upward Request.number (by rw [List.map_append]; exact h)

lemma Server.Upward.addToIncoming {s : Server} (h : s.Upward) (data : Bytes)
    (senderID : String) : (s.addToIncoming data senderID).Upward := by
  refine (upward_succ h).sublist ?_
  simp only [Server.addToIncoming, List.map_append, List.map_singleton]
  refine List.Sublist.append_right (List.Sublist.append_right ?_ _) _
  split_ifs
  · exact (List.tail_sublist _).map _
  · exact List.Sublist.refl _

lemma Server.Upward.tail {s t : Server} (h : s.Upward) (hcalls : t.calls = s.calls)
    (hq : t.msgInDeque.Sublist s.msgInDeque) : t.Upward := by
  rw [Server.Upward, hcalls]
  exact h.sublist ((hq.map _).append_right _)

/-- A step of `run` leaves the queue alone and calls nothing, or hands on its front. -/
lemma Server.proceed_cases (s : Server) (ok : Bool) :
    (s.proceed ok).1.calls = s.calls ∧
    (s.proceed ok).1.capacityMsgDeque = s.capacityMsgDeque ∧
    ((s.proceed ok).1.msgInDeque = s.msgInDeque ∧ (s.proceed ok).2 = none ∨
      ∃ m, s.msgInDeque = m :: (s.proceed ok).1.msgInDeque ∧ (s.proceed ok).2 = some m) := by
  unfold Server.proceed
  split
  case h_6 => split <;> simp_all
  case h_1 => split_ifs <;> simp
  all_goals simp

/-- One step under observation is an access to the queue. -/
lemma Server.observed_access {s : Server} (h : s.Upward) (e : ServerEvent)
    (hp : Server.fixedCapacity.possible s e) (r : Record Request Request) :
    (s.step e).Upward ∧ (s.step e).capacityMsgDeque = s.capacityMsgDeque ∧
      Access s.capacityMsgDeque (ObservedServer.ledger (s, r))
        (ObservedServer.ledger (s.step e, s.observe e r)) := by
  cases e with
  | addToIncoming data senderID =>
    refine ⟨h.addToIncoming data senderID, rfl, ?_⟩
    exact r.arrive_access id (h.nodup data senderID) rfl
  | setInDeqCapacity c => exact Bool.noConfusion hp
  | setLocalIsWork isWork => exact ⟨h, rfl, Access.look _⟩
  | setGlobalIsWork isWork => exact ⟨h, rfl, Access.look _⟩
  | proceed ok =>
    obtain ⟨hcalls, hcap, ⟨hq, hout⟩ | ⟨m, hq, hout⟩⟩ := s.proceed_cases ok
    · refine ⟨h.tail hcalls (hq ▸ List.Sublist.refl _), hcap, ?_⟩
      simp only [ObservedServer.ledger, Server.step, Server.observe, hq, hout, Record.take,
        Option.toList_none, List.append_nil]
      exact Access.look _
    · refine ⟨h.tail hcalls (hq ▸ List.sublist_cons_self _ _), hcap, ?_⟩
      have hnext : ObservedServer.ledger (s.step (.proceed ok), s.observe (.proceed ok) r) =
          ⟨(s.proceed ok).1.msgInDeque, r.arrived, r.evicted, r.taken.map id ++ [m]⟩ := by
        simp [ObservedServer.ledger, Server.step, Server.observe, Record.ledger, Record.take, hout]
      rw [hnext]
      exact Access.take (ObservedServer.ledger (s, r)) m _ hq

/-- The messages seen are numbered by their calls. -/
def ObservedServer.Numbered (x : ObservedServer) : Prop :=
  x.2.arrived.map Request.number = List.range x.1.calls

lemma ObservedServer.Numbered.nodup {x : ObservedServer} (h : x.Numbered) :
    x.ledger.arrived.Nodup :=
  List.Nodup.of_map Request.number (h ▸ List.nodup_range)

lemma ObservedServer.Numbered.step {s : Server} {r : Record Request Request}
    (h : ObservedServer.Numbered (s, r)) (e : ServerEvent)
    (hp : Server.fixedCapacity.possible s e) :
    ObservedServer.Numbered (s.step e, s.observe e r) := by
  unfold ObservedServer.Numbered at h ⊢
  cases e with
  | addToIncoming data senderID =>
    simp only [Server.step, Server.observe, Record.arrive, Server.addToIncoming, List.map_append,
      List.map_singleton, List.range_succ]
    rw [h]
  | setInDeqCapacity c => exact Bool.noConfusion hp
  | setLocalIsWork isWork => exact h
  | setGlobalIsWork isWork => exact h
  | proceed ok =>
    simpa only [Server.step, Server.observe, Record.take, (s.proceed_cases ok).1] using h

lemma Server.isQueue (capacity : ℕ) : IsQueue Server.recorded capacity
    (fun x => x.1.Upward ∧ x.1.capacityMsgDeque = capacity) ObservedServer.ledger where
  keeps x e hx hp := by
    obtain ⟨hup, hcap, -⟩ := Server.observed_access hx.1 e hp x.2
    exact ⟨hup, hcap.trans hx.2⟩
  access x e hx hp := hx.2 ▸ (Server.observed_access hx.1 e hp x.2).2.2

lemma Server.isQueue_numbered (capacity : ℕ) : IsQueue Server.recorded capacity
    (fun x => (x.1.Upward ∧ x.1.capacityMsgDeque = capacity) ∧ x.Numbered)
    ObservedServer.ledger where
  keeps x e hx hp := ⟨(Server.isQueue capacity).keeps x e hx.1 hp, hx.2.step e hp⟩
  access x e hx hp := (Server.isQueue capacity).access x e hx.1 hp

end ToolkitCpp.Transport

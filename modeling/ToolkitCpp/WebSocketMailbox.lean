import ToolkitCpp.GuardedRuns
import ToolkitCpp.WebSocketAnswer

/-!
# The slot of the WebSocket client

`on_message`, `readAnswer` and `setFCallBackResponse` in any order. Beside the client stand the
payloads that were received, not passed to a callback and not returned yet, and whether the last
message was passed to a callback.
-/
namespace ToolkitCpp.WebSocket
open GuardedRuns Pipe

structure Mailbox where
  client : WebSocketClient := ⟨false, false, 0, []⟩
  unread : List Bytes := []
  passed : Bool := false
  deriving DecidableEq, Repr

inductive MailEvent
  | onMessage (payload : Bytes)
  | readAnswer (sizeData : ℕ)
  | setFCallBackResponse (isSet : Bool)
  deriving DecidableEq, Repr

def Mailbox.step (s : Mailbox) : MailEvent → Mailbox
  | .onMessage payload =>
      let (client, called) := s.client.onMessage payload
      match called with
      | some _ => { s with client := client, passed := true }
      | none => ⟨client, payload :: s.unread, false⟩
  | .readAnswer sizeData =>
      let (client, answer, _) := s.client.readAnswer sizeData
      match answer with
      | some payload => { s with client := client, unread := s.unread.erase payload }
      | none => { s with client := client }
  | .setFCallBackResponse isSet => { s with client := { s.client with hasCallBack := isSet } }

def mailboxes : System Mailbox MailEvent := ⟨fun _ _ => True, Mailbox.step⟩

/-- A call that returns non-null returns the payload of a message that was received, not passed
to a callback and not returned before. -/
def ReturnsUnread (s : Mailbox) : MailEvent → Prop
  | .readAnswer sizeData =>
      ∀ payload ∈ (s.client.readAnswer sizeData).2.1, payload ∈ s.unread
  | .onMessage _ => True
  | .setFCallBackResponse _ => True

/-- The call finds the flag set and a buffer that is large enough. -/
def WebSocketClient.Answers (c : WebSocketClient) (sizeData : ℕ) : Prop :=
  c.hasCallBack = false ∧ c.isReceivedData = true ∧ c.receivedDataSize ≤ sizeData

/-- A call does not answer after a message that was passed to a callback, unless the bytes in
the slot are by chance those of an unread message. -/
def SlotFilled (s : Mailbox) : MailEvent → Prop
  | .readAnswer sizeData =>
      s.client.Answers sizeData → s.passed = true → s.client.receivedData ∈ s.unread
  | .onMessage _ => True
  | .setFCallBackResponse _ => True

instance (c : WebSocketClient) (sizeData : ℕ) : Decidable (c.Answers sizeData) :=
  inferInstanceAs (Decidable (_ ∧ _ ∧ _))

instance (s : Mailbox) : DecidablePred (SlotFilled s)
  | .readAnswer _ => inferInstanceAs (Decidable (_ → _ → _))
  | .onMessage _ => isTrue trivial
  | .setFCallBackResponse _ => isTrue trivial

variable {s : Mailbox} {c : WebSocketClient}

/-- The three variables of the slot agree, and a message that was not passed to a callback
waits there until it is returned. -/
structure Mailbox.Consistent (s : Mailbox) : Prop where
  size : s.client.receivedData.length = s.client.receivedDataSize
  waits : s.client.isReceivedData = true → s.passed = false → s.client.receivedData ∈ s.unread

lemma onMessage_passed (hc : c.hasCallBack = true) (payload : Bytes) :
    c.onMessage payload =
      ({ c with
          isReceivedData := true
          receivedDataSize := payload.length
          receivedData := resize c.receivedData payload.length }, some payload) := by
  simp only [WebSocketClient.onMessage, hc, if_true]

lemma onMessage_kept (hc : c.hasCallBack = false) (payload : Bytes) :
    c.onMessage payload =
      ({ c with
          isReceivedData := true
          receivedDataSize := payload.length
          receivedData := payload }, none) := by
  have hcopy : overwrite (resize c.receivedData payload.length) 0 payload = payload :=
    overwrite_all (resize_length _ _)
  simp only [WebSocketClient.onMessage, hc, Bool.false_eq_true, if_false, hcopy]

lemma readAnswer_of_answers {sizeData : ℕ} (h : c.Answers sizeData) :
    c.readAnswer sizeData =
      ({ c with receivedData := [], receivedDataSize := 0, isReceivedData := false },
        some (c.receivedData.take c.receivedDataSize), c.receivedDataSize) := by
  obtain ⟨hc, hreceived, hsize⟩ := h
  simp only [WebSocketClient.readAnswer, hc, hreceived, hsize, Bool.false_eq_true, if_false, if_true]

lemma readAnswer_of_not_answers {sizeData : ℕ} (h : ¬ c.Answers sizeData) :
    c.readAnswer sizeData = (c, none, sizeData) := by
  unfold WebSocketClient.readAnswer
  split_ifs with hc hreceived hsize
  · rfl
  · exact absurd ⟨Bool.eq_false_iff.mpr hc, hreceived, hsize⟩ h
  · rfl
  · rfl

lemma Mailbox.Consistent.step (hs : s.Consistent) (e : MailEvent) : (s.step e).Consistent := by
  cases e with
  | onMessage payload =>
    simp only [Mailbox.step]
    cases hc : s.client.hasCallBack with
    | true =>
      rw [onMessage_passed hc]
      exact ⟨resize_length _ _, fun _ h => Bool.noConfusion h⟩
    | false =>
      rw [onMessage_kept hc]
      exact ⟨rfl, fun _ _ => List.mem_cons_self⟩
  | readAnswer sizeData =>
    simp only [Mailbox.step]
    by_cases h : s.client.Answers sizeData
    · rw [readAnswer_of_answers h]
      exact ⟨rfl, fun h => Bool.noConfusion h⟩
    · rw [readAnswer_of_not_answers h]
      exact hs
  | setFCallBackResponse isSet => exact ⟨hs.size, hs.waits⟩

lemma Mailbox.Consistent.returnsUnread_iff (hs : s.Consistent) (e : MailEvent) :
    ReturnsUnread s e ↔ SlotFilled s e := by
  cases e with
  | onMessage payload => exact Iff.rfl
  | setFCallBackResponse isSet => exact Iff.rfl
  | readAnswer sizeData =>
    simp only [ReturnsUnread, SlotFilled]
    by_cases h : s.client.Answers sizeData
    · have hwhole : s.client.receivedData.take s.client.receivedDataSize = s.client.receivedData := by
        rw [← hs.size, List.take_length]
      simp only [readAnswer_of_answers h, hwhole, Option.mem_def, Option.some.injEq, forall_eq']
      constructor
      · intro hmem _ _
        exact hmem
      · intro hfilled
        cases hpassed : s.passed with
        | true => exact hfilled h hpassed
        | false => exact hs.waits h.2.1 hpassed
    · simp only [readAnswer_of_not_answers h, Option.mem_def, reduceCtorEq, false_imp_iff,
        implies_true, h]

/-- Over every order of messages, calls and settings of the callback: the calls return unread
messages only, each once, exactly when none answers after a message that was passed to a
callback, coincidences apart. -/
theorem answers_unread_iff (es : List MailEvent) :
    mailboxes.EachStep ReturnsUnread {} es ↔ mailboxes.EachStep SlotFilled {} es := by
  have hl : mailboxes.Legal {} es := System.legal_of_forall (fun _ _ => trivial) _ es
  refine hl.eachStep_iff (G := Mailbox.Consistent) ?_ ?_ ?_
  · intro s e hs _
    exact hs.returnsUnread_iff e
  · intro s e hs _ _
    exact hs.step e
  · exact ⟨rfl, fun h => absurd h (by decide)⟩

/-- The callback is removed after it has got a message of two bytes; the next call returns two
zero bytes. -/
def callbackRemoved : List MailEvent :=
  [.setFCallBackResponse true, .onMessage [7, 8], .setFCallBackResponse false, .readAnswer 16]

theorem answer_not_received : ¬ ∀ es, mailboxes.EachStep ReturnsUnread {} es := by
  intro h
  obtain ⟨-, -, -, hread, -⟩ := h callbackRemoved
  have hmem := hread [0, 0] rfl
  exact absurd hmem (by decide)

end ToolkitCpp.WebSocket

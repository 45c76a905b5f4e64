import ToolkitCpp.PipeAnswer
import ToolkitCpp.Strings

/-!
# Answers over either transport

`BaseTransportServer::sendAnswer` takes a head and a data part. `PipeServer` writes both into
the frame that `PipeClient::readAnswer` takes apart. `WebSocketServer` looks up the connection
of the sender and sends the data part as one message; `WebSocketClient` keeps the last
message for its `readAnswer`.
-/
namespace ToolkitCpp.WebSocket
open Pipe Segments Strings

/-- `m_endPointList`, a map from the remote end point and resource to the connection. -/
structure EndPointList where
  entries : List (Str × ℕ)
  sorted : (entries.map Prod.fst).Pairwise (· < ·)

/-- What becomes of a message for a connection: `get_con_from_hdl` throws, `send` reports an
error, or the message is taken. -/
inductive Link
  | gone
  | failing
  | up
  deriving DecidableEq, Repr

def findEndpointBySubstring (epList : EndPointList) (epNameMask : Str) : List ℕ :=
  (epList.entries.filter fun ep => (cutAt epNameMask ep.1).isSome).map Prod.snd

/-- The connection for a sender, which may be given by a mask with a `*` at either end. -/
def findEP (epList : EndPointList) (senderID : Str) : Option ℕ :=
  if senderID = [] then none
  else if startsWith senderID (txt "*") || endsWith senderID (txt "*") then
    (findEndpointBySubstring epList (senderID.filter (· ≠ '*'))).head?
  else epList.entries.lookup senderID

/-- `WebSocketServer::sendAnswer`: the connection and the message sent, and the result. -/
def sendAnswer (epList : EndPointList) (buffData : Bytes) (senderID : Str) (_buffHead : Bytes)
    (link : ℕ → Link) : Option (ℕ × Bytes) × Bool :=
  match findEP epList senderID with
  | none => (none, false)
  | some ep =>
      match link ep with
      | .gone => (none, false)
      | .failing => (none, false)
      | .up => (some (ep, buffData), true)

structure WebSocketClient where
  hasCallBack : Bool
  isReceivedData : Bool
  receivedDataSize : ℕ
  receivedData : Bytes
  deriving DecidableEq, Repr

def resize (data : Bytes) (n : ℕ) : Bytes := data.take n ++ List.replicate (n - data.length) 0

/-- The client afterwards and the message the callback gets, if one is set. -/
def WebSocketClient.onMessage (c : WebSocketClient) (payload : Bytes) :
    WebSocketClient × Option Bytes :=
  let c := { c with
    isReceivedData := true
    receivedDataSize := payload.length
    receivedData := resize c.receivedData payload.length }
  if c.hasCallBack then (c, some payload)
  else ({ c with receivedData := overwrite c.receivedData 0 payload }, none)

/-- The client afterwards, the content of the returned buffer and `sizeData` afterwards. -/
def WebSocketClient.readAnswer (c : WebSocketClient) (sizeData : ℕ) :
    WebSocketClient × Option Bytes × ℕ :=
  if c.hasCallBack then (c, none, sizeData)
  else if c.isReceivedData then
    if c.receivedDataSize ≤ sizeData then
      ({ c with receivedData := [], receivedDataSize := 0, isReceivedData := false },
        some (c.receivedData.take c.receivedDataSize), c.receivedDataSize)
    else (c, none, sizeData)
  else (c, none, sizeData)

@[simp] lemma resize_length (data : Bytes) (n : ℕ) : (resize data n).length = n := by
  simp only [resize, List.length_append, List.length_take, List.length_replicate]
  omega

/-- Without a callback, the last message is what the next call returns. -/
lemma readAnswer_onMessage {c : WebSocketClient} {payload : Bytes} {sizeData : ℕ}
    (hc : c.hasCallBack = false) (hsize : payload.length ≤ sizeData) :
    ((c.onMessage payload).1.readAnswer sizeData).2.1 = some payload := by
  have hcopy : overwrite (resize c.receivedData payload.length) 0 payload = payload :=
    overwrite_all (resize_length _ _)
  simp [WebSocketClient.onMessage, WebSocketClient.readAnswer, hc, hcopy, hsize]

/-- All that an answer meets on its way: for the pipe the descriptor, the results of the system
calls, what stands behind the frame in the pipe while it is read, the buffer of the reader and
the events of its two reads; for the WebSocket the connections of the server, the state of
the client and its buffer. -/
inductive AnswerPath
  | pipe (dataPipe : PipeDesc) (granted ret : ℤ) (behind : Bytes) (hasBuffer : Bool)
      (sizeData : ℕ) (onHead onData : List PollEvent)
  | webSocket (epList : EndPointList) (senderID : Str) (link : ℕ → Link)
      (client : WebSocketClient) (sizeData : ℕ)

/-- The result of `sendAnswer`. -/
def AnswerPath.sent (buffData buffHead : Bytes) : AnswerPath → Bool
  | .pipe dataPipe granted ret _ _ _ _ _ =>
      (Pipe.sendAnswer dataPipe buffData buffHead granted ret).2.2
  | .webSocket epList senderID link _ _ =>
      (sendAnswer epList buffData senderID buffHead link).2

/-- The payload that `readAnswer` of the client obtains. -/
def AnswerPath.obtained (buffData buffHead : Bytes) : AnswerPath → Option Bytes
  | .pipe dataPipe granted ret behind hasBuffer sizeData onHead onData =>
      (Pipe.readAnswer ((Pipe.sendAnswer dataPipe buffData buffHead granted ret).2.1 ++ behind)
        hasBuffer sizeData onHead onData).payload
  | .webSocket epList senderID link client sizeData =>
      (sendAnswer epList buffData senderID buffHead link).1.bind fun message =>
        ((client.onMessage message.2).1.readAnswer sizeData).2.1

/-- The write returns what a `write` can return, the reads get what is there and the pipe stays
connected, the caller's buffer is large enough, and the client waits for answers instead of
having a callback. -/
def AnswerPath.Delivers (buffData buffHead : Bytes) : AnswerPath → Prop
  | .pipe dataPipe granted ret behind hasBuffer sizeData onHead onData =>
      let stream := (Pipe.sendAnswer dataPipe buffData buffHead granted ret).2.1 ++ behind
      ret ≤ (frame (buffHead ++ buffData)).length ∧ -1 ≤ ret ∧
        (buffHead ++ buffData).length ≤ room hasBuffer sizeData (buffHead ++ buffData).length ∧
        Polls stream.length headSize onHead ∧
        Polls (stream.length - headSize)
          (PrimaryHeader.ofBytes (stream.take headSize)).dataSize.toNat onData ∧
        ∀ p ∈ onHead ++ onData, p.breaks = false
  | .webSocket _ _ _ client sizeData =>
      client.hasCallBack = false ∧ (buffHead ++ buffData).length ≤ sizeData

/-- Over the pipe there is a byte to read, or none behind the frame. Over the WebSocket there is
no head. -/
def AnswerPath.Carries (buffData buffHead : Bytes) : AnswerPath → Prop
  | .pipe _ _ _ behind _ _ _ _ => buffHead ++ buffData ≠ [] ∨ behind = []
  | .webSocket _ _ _ _ _ => buffHead = []

/-- A pipe answer reported as sent is a whole frame. -/
lemma sendAnswer_true {dataPipe : PipeDesc} {buffData buffHead : Bytes} {granted ret : ℤ}
    (hsize : buffHead.length + buffData.length < 2 ^ 31) (hlo : -1 ≤ ret)
    (hok : (Pipe.sendAnswer dataPipe buffData buffHead granted ret).2.2 = true) :
    ret = (frame (buffHead ++ buffData)).length ∧ (buffHead ++ buffData).length < 2 ^ 31 := by
  have hhead : headSize = 8 := rfl
  have hlen : (frame (buffHead ++ buffData)).length =
      headSize + (buffHead.length + buffData.length) := by
    rw [frame_length, List.length_append]
  have hret : ret = int32 (frame (buffHead ++ buffData)).length := by
    simp only [Pipe.sendAnswer, sendAnswer_allBuff] at hok
    by_contra hne
    simp [hne] at hok
  refine ⟨?_, by rwa [List.length_append]⟩
  by_cases hfit : (frame (buffHead ++ buffData)).length < 2 ^ 31
  · rw [hret, int32_natCast hfit]
  · -- a count above the largest `int` would be compared with a number below `-1`
    unfold int32 at hret
    rw [Int.bmod_def] at hret
    split_ifs at hret <;> omega

/-- On a connected pipe, a payload without bytes is waited for as long as there are bytes behind
its header. -/
lemma polls_waits_iff {m behind : Bytes} {onData : List PollEvent} (hm : m.length < 2 ^ 31)
    (hdata : Polls ((frame m ++ behind).length - headSize)
      (PrimaryHeader.ofBytes ((frame m ++ behind).take headSize)).dataSize.toNat onData)
    (hup : ∀ p ∈ onData, p.breaks = false) :
    timeoutRead onData = none ↔ m = [] ∧ behind ≠ [] := by
  refine ⟨hdata.waits hm, ?_⟩
  rintro ⟨rfl, hbehind⟩
  have hsize := (frame_header (m := []) (by decide)).2
  have hthere : 0 < (frame [] ++ behind).length - headSize := by
    rw [List.length_append, frame_length, List.length_nil, Nat.add_zero, Nat.add_sub_cancel_left]
    exact List.length_pos_iff.mpr hbehind
  rw [List.take_append_of_le_length (by simp [frame_length]), hsize, List.length_nil] at hdata
  have honly := onlyReadNothing_iff.mpr ⟨rfl, hthere⟩
  refine List.findSome?_eq_none_iff.mpr fun p hp => ?_
  rw [honly p (hdata.possible p hp) (hup p hp)]
  rfl

lemma pipe_obtained_iff {dataPipe : PipeDesc} {buffData buffHead behind : Bytes} {granted ret : ℤ}
    {hasBuffer : Bool} {sizeData : ℕ} {onHead onData : List PollEvent}
    (hsize : buffHead.length + buffData.length < 2 ^ 31)
    (hd : (AnswerPath.pipe dataPipe granted ret behind hasBuffer sizeData onHead onData).Delivers
      buffData buffHead)
    (hok : (Pipe.sendAnswer dataPipe buffData buffHead granted ret).2.2 = true) :
    (AnswerPath.pipe dataPipe granted ret behind hasBuffer sizeData onHead onData).obtained
      buffData buffHead = some (buffHead ++ buffData) ↔
        buffHead ++ buffData ≠ [] ∨ behind = [] := by
  obtain ⟨_, hlo, hroom, hhead, hdata, hup⟩ := hd
  obtain ⟨hret, hlen⟩ := sendAnswer_true hsize hlo hok
  have hw := sendAnswer_written dataPipe buffData buffHead granted ret hret
  rw [hw] at hhead hdata
  have hthere : headSize ≤ (frame (buffHead ++ buffData) ++ behind).length := by
    rw [List.length_append, frame_length]
    omega
  have hanswer := readAnswer_frame hasBuffer sizeData hlen (hhead.header hthere) hdata
  have hwaits := polls_waits_iff hlen hdata fun p hp => hup p (List.mem_append_right _ hp)
  rw [if_neg (Nat.not_lt.mpr hroom)] at hanswer
  simp only [AnswerPath.obtained, hw, hanswer]
  by_cases hnone : timeoutRead onData = none
  · obtain ⟨hempty, hbehind⟩ := hwaits.mp hnone
    simp [hnone, hempty, hbehind]
  · rw [if_neg hnone]
    refine iff_of_true rfl ?_
    by_contra hno
    obtain ⟨hempty, hbehind⟩ := not_or.mp hno
    exact hnone (hwaits.mpr ⟨not_not.mp hempty, hbehind⟩)

lemma webSocket_obtained {epList : EndPointList} {buffData buffHead : Bytes} {senderID : Str}
    {link : ℕ → Link} {client : WebSocketClient} {sizeData : ℕ}
    (hd : (AnswerPath.webSocket epList senderID link client sizeData).Delivers buffData buffHead)
    (hok : (sendAnswer epList buffData senderID buffHead link).2 = true) :
    (AnswerPath.webSocket epList senderID link client sizeData).obtained buffData buffHead =
      some buffData := by
  obtain ⟨hc, hsize⟩ := hd
  have hfit : buffData.length ≤ sizeData := by
    rw [List.length_append] at hsize
    omega
  unfold sendAnswer at hok
  simp only [AnswerPath.obtained, sendAnswer]
  cases hep : findEP epList senderID with
  | none => simp [hep] at hok
  | some ep =>
    cases hlink : link ep with
    | gone => simp [hep, hlink] at hok
    | failing => simp [hep, hlink] at hok
    | up => simp [hlink, readAnswer_onMessage hc hfit]

-- an empty answer with a byte behind its frame
example : (AnswerPath.pipe .fresh 0 8 [1] false 0 [.readBytes 8] [.readNothing]).obtained
    [] [] = none := by decide

end ToolkitCpp.WebSocket

import ToolkitCpp.PipeAnswer

/-!
# Sizes of frames

`PipeClient::sendToStream` and `PipeServer::sendAnswer` with their 64-bit sizes: the `dataSize` of
the header is narrowed to 32 bits, the results of `write` to an `int`, and the buffer for an answer
is sized by the narrowed number and used again by the next answer.
-/
namespace ToolkitCpp.Pipe

/-- What a call put into the pipe: the header, the number of bytes behind it, and whether the call
reports success. -/
structure Transfer where
  header : PrimaryHeader
  payload : ℤ
  ok : Bool
  deriving DecidableEq, Repr

variable (accepts : ℕ → ℕ)

/-- `PipeClient::sendToStream`, where `write` accepts the given part of what it is offered; `none`
when the pipe is closed. -/
def sendToStreamSized (pipe : PipeDesc) (msgSize : UInt64) (granted : ℤ) :
    PipeDesc × Option Transfer :=
  let pipe := pipe.enlarged (int32 msgSize.toNat) granted
  if !pipe.isOpen then (pipe, none)
  else
    let primeHead : PrimaryHeader := { dataSize := msgSize.toUInt32 }
    if int32 (accepts headSize) ≠ headSize then
      (pipe, some ⟨primeHead, 0, false⟩)
    else
      let payload := accepts msgSize.toNat
      (pipe, some ⟨primeHead, payload, int32 payload = int32 msgSize.toNat⟩)

/-- `m_allBuff`: a null pointer, an array, or a pointer to what was deleted. -/
inductive Buffer
  | null
  | allocated (size : ℕ)
  | freed
  deriving DecidableEq, Repr

structure AnswerServer where
  dataPipe : PipeDesc
  allBuff : Buffer := .null
  sizeAllBuff : UInt64 := 0
  deriving DecidableEq, Repr

/-- An answer, with what `F_GETPIPE_SZ` says and whether `new` gets its memory. -/
structure AnswerCall where
  sizeData : UInt64
  sizeHead : UInt64
  granted : ℤ
  allocates : Bool
  deriving DecidableEq, Repr

def AnswerCall.dataSize (c : AnswerCall) : UInt32 := (c.sizeData + c.sizeHead).toUInt32

/-- `sizeof(primeHead)+primeHead.dataSize`. -/
def AnswerCall.neededSize (c : AnswerCall) : UInt64 := 8 + c.dataSize.toUInt64

/-- The buffer is not there or has another size. -/
def AnswerServer.Resizes (s : AnswerServer) (c : AnswerCall) : Prop :=
  s.allBuff = .null ∨ c.neededSize ≠ s.sizeAllBuff

instance (s : AnswerServer) (c : AnswerCall) : Decidable (s.Resizes c) :=
  inferInstanceAs (Decidable (_ ∨ _))

/-- The new buffer; when `new` throws, the old one is deleted and the pointer is as it was. -/
def AnswerServer.resize (s : AnswerServer) (c : AnswerCall) : AnswerServer :=
  { s with
    sizeAllBuff := c.neededSize
    allBuff := if c.allocates then .allocated c.neededSize.toNat
      else if s.allBuff = .null then .null else .freed }

/-- A `memcpy` into the buffer. -/
structure Copy where
  offset : UInt64
  size : UInt64
  deriving DecidableEq, Repr

/-- The header, the head of the data and the data, at the `shift` of each. -/
def AnswerCall.copies (c : AnswerCall) : List Copy :=
  [⟨0, 8⟩, ⟨8, c.sizeHead⟩, ⟨8 + c.sizeHead, c.sizeData⟩]

/-- The one `write` of as many bytes of the buffer as `shift` says at the end. -/
def AnswerCall.sent (c : AnswerCall) : Transfer :=
  let shift := 8 + c.sizeHead + c.sizeData
  let written := accepts shift.toNat
  ⟨{ dataSize := c.dataSize }, (written : ℤ) - headSize, int32 written = int32 shift.toNat⟩

def AnswerServer.growPipe (s : AnswerServer) (c : AnswerCall) : AnswerServer :=
  { s with dataPipe := s.dataPipe.enlarged (int32 (int32 c.sizeData.toNat * 2)) c.granted }

/-- `PipeServer::sendAnswer`: the server afterwards, and the copies with what was sent, or `none`
when `new` throws. -/
def sendAnswerSized (s : AnswerServer) (c : AnswerCall) :
    AnswerServer × Option (List Copy × Transfer) :=
  let s := s.growPipe c
  if s.Resizes c then
    if c.allocates then (s.resize c, some (c.copies, c.sent accepts)) else (s.resize c, none)
  else (s, some (c.copies, c.sent accepts))

/-- The server after a sequence of answers. -/
def answered (dataPipe : PipeDesc) (calls : List AnswerCall) : AnswerServer :=
  calls.foldl (fun s c => (sendAnswerSized accepts s c).1) { dataPipe }

/-- On a message that has its bytes, `sendToStream` leaves the same pipe, reports the same and, when
it reports success, has written the header of the transfer and the part that was accepted. -/
theorem sendToStream_sized (pipe : PipeDesc) {msg : Bytes} (h : msg.length < 2 ^ 64) (granted : ℤ) :
    let sized := sendToStreamSized accepts pipe (UInt64.ofNat msg.length) granted
    let sent := sendToStream pipe msg
      ⟨granted, int32 (accepts headSize), int32 (accepts msg.length)⟩
    sent.1 = sized.1 ∧ sent.2.2 = sized.2.any Transfer.ok ∧
      ∀ transfer ∈ sized.2, transfer.ok = true →
        sent.2.1 = transfer.header.bytes ++ accepted msg (int32 transfer.payload) := by
  have hsize : (UInt64.ofNat msg.length).toNat = msg.length := UInt64.toNat_ofNat_of_lt' h
  have hheader : (UInt64.ofNat msg.length).toUInt32 = UInt32.ofNat msg.length := by simp
  simp only [sendToStream, sendToStreamSized, hsize, hheader]
  cases (pipe.enlarged (int32 msg.length) granted).isOpen with
  | false => simp
  | true =>
    by_cases hhead : int32 (accepts headSize) = headSize
    · have hbytes : ∀ header : PrimaryHeader, accepted header.bytes headSize = header.bytes :=
        fun header => List.take_of_length_le header.bytes_length.le
      by_cases hdata : int32 (accepts msg.length) = int32 msg.length
      · simp [hhead, hdata, hbytes]
      · simp [hhead, hdata]
    · simp [hhead]

/-- A call that reports success has put as many bytes behind the header as it says. -/
def Transfer.Truthful (sent : Transfer) : Prop :=
  sent.ok → sent.payload = sent.header.dataSize.toNat

def StreamSound (pipe : PipeDesc) (msgSize : UInt64) (granted : ℤ) : Prop :=
  ∀ sent ∈ (sendToStreamSized id pipe msgSize granted).2, sent.Truthful

/-- The copy stays within the `m_sizeAllBuff` bytes that the buffer has. -/
def AnswerServer.Within (s : AnswerServer) (copy : Copy) : Prop :=
  s.allBuff = .allocated s.sizeAllBuff.toNat ∧
    copy.offset.toNat + copy.size.toNat ≤ s.sizeAllBuff.toNat

def AnswerSound (s : AnswerServer) (c : AnswerCall) : Prop :=
  ∀ run ∈ (sendAnswerSized id s c).2,
    run.2.Truthful ∧ ∀ copy ∈ run.1, (sendAnswerSized id s c).1.Within copy

/-- The pipe is open when the header is written. -/
def StaysOpen (pipe : PipeDesc) (msgSize : UInt64) (granted : ℤ) : Prop :=
  pipe.isOpen ∧ ¬ (pipe.maxSize < int32 msgSize.toNat ∧ granted < 0)

lemma staysOpen_iff (pipe : PipeDesc) (msgSize : UInt64) (granted : ℤ) :
    StaysOpen pipe msgSize granted ↔
      (pipe.enlarged (int32 msgSize.toNat) granted).isOpen = true := by
  rw [PipeDesc.enlarged_isOpen_iff, StaysOpen, not_and, not_lt]

lemma sendToStreamSized_open {pipe : PipeDesc} {msgSize : UInt64} {granted : ℤ}
    (h : StaysOpen pipe msgSize granted) : (sendToStreamSized id pipe msgSize granted).2 =
      some ⟨{ dataSize := msgSize.toUInt32 }, msgSize.toNat, true⟩ := by
  have hhead : int32 headSize = headSize := by decide
  rw [staysOpen_iff] at h
  simp [sendToStreamSized, h, hhead]

lemma sendToStreamSized_closed {pipe : PipeDesc} {msgSize : UInt64} {granted : ℤ}
    (h : ¬ StaysOpen pipe msgSize granted) :
    (sendToStreamSized id pipe msgSize granted).2 = none := by
  rw [staysOpen_iff, Bool.not_eq_true] at h
  simp [sendToStreamSized, h]

lemma streamSound_iff (pipe : PipeDesc) (msgSize : UInt64) (granted : ℤ) :
    StreamSound pipe msgSize granted ↔
      (StaysOpen pipe msgSize granted → msgSize.toNat < 2 ^ 32) := by
  by_cases hopen : StaysOpen pipe msgSize granted
  · have hfits : (msgSize.toNat : ℤ) = (msgSize.toNat % 2 ^ 32 : ℕ) ↔ msgSize.toNat < 2 ^ 32 := by
      omega
    simp only [StreamSound, sendToStreamSized_open hopen, Option.mem_some_iff, forall_eq',
      Transfer.Truthful, UInt64.toNat_toUInt32, hfits, hopen, forall_const]
  · simp [StreamSound, sendToStreamSized_closed hopen, hopen]

lemma AnswerCall.dataSize_toNat (c : AnswerCall) :
    c.dataSize.toNat = (c.sizeData.toNat + c.sizeHead.toNat) % 2 ^ 32 := by
  rw [AnswerCall.dataSize, UInt64.toNat_toUInt32, UInt64.toNat_add]
  omega

lemma AnswerCall.neededSize_toNat (c : AnswerCall) :
    c.neededSize.toNat = 8 + (c.sizeData.toNat + c.sizeHead.toNat) % 2 ^ 32 := by
  have h8 : (8 : UInt64).toNat = 8 := rfl
  rw [AnswerCall.neededSize, UInt64.toNat_add, UInt32.toNat_toUInt64, c.dataSize_toNat, h8]
  omega

/-- The size that is kept is the size of the array. -/
def AnswerServer.Sized (s : AnswerServer) : Prop :=
  ∀ n, s.allBuff = .allocated n → n = s.sizeAllBuff.toNat

lemma growPipe_buffer (s : AnswerServer) (c : AnswerCall) :
    (s.growPipe c).allBuff = s.allBuff ∧ (s.growPipe c).sizeAllBuff = s.sizeAllBuff := by
  rw [AnswerServer.growPipe]
  exact ⟨rfl, rfl⟩

lemma growPipe_resizes (s : AnswerServer) (c : AnswerCall) :
    (s.growPipe c).Resizes c ↔ s.Resizes c := by
  obtain ⟨hbuff, hsize⟩ := growPipe_buffer s c
  rw [AnswerServer.Resizes, AnswerServer.Resizes, hbuff, hsize]

/-- After every answer the size that is kept is that of the answer. -/
lemma sizeAllBuff_sendAnswerSized (s : AnswerServer) (c : AnswerCall) :
    (sendAnswerSized accepts s c).1.sizeAllBuff = c.neededSize := by
  rw [sendAnswerSized]
  by_cases h : (s.growPipe c).Resizes c
  · rw [if_pos h]
    split_ifs
    · rfl
    · rfl
  · rw [if_neg h]
    rw [AnswerServer.Resizes, not_or, not_not] at h
    exact h.2.symm

lemma allBuff_of_resizes {s : AnswerServer} {c : AnswerCall} (h : s.Resizes c)
    (ha : c.allocates = true) :
    (sendAnswerSized accepts s c).1.allBuff = .allocated c.neededSize.toNat := by
  simp [sendAnswerSized, (growPipe_resizes s c).mpr h, ha, AnswerServer.resize]

lemma allBuff_of_throws {s : AnswerServer} {c : AnswerCall} (h : s.Resizes c)
    (ha : c.allocates = false) :
    (sendAnswerSized accepts s c).1.allBuff = if s.allBuff = .null then .null else .freed := by
  simp [sendAnswerSized, (growPipe_resizes s c).mpr h, ha, AnswerServer.resize,
    (growPipe_buffer s c).1]

lemma allBuff_of_not_resizes {s : AnswerServer} {c : AnswerCall} (h : ¬ s.Resizes c) :
    (sendAnswerSized accepts s c).1.allBuff = s.allBuff := by
  simp [sendAnswerSized, mt (growPipe_resizes s c).mp h, (growPipe_buffer s c).1]

lemma sendAnswerSized_sent {s : AnswerServer} {c : AnswerCall}
    (h : ¬ (s.Resizes c ∧ c.allocates = false)) :
    (sendAnswerSized accepts s c).2 = some (c.copies, c.sent accepts) := by
  by_cases hr : s.Resizes c
  · have ha : c.allocates = true := by
      rw [← Bool.not_eq_false]
      exact fun hf => h ⟨hr, hf⟩
    simp [sendAnswerSized, (growPipe_resizes s c).mpr hr, ha]
  · simp [sendAnswerSized, mt (growPipe_resizes s c).mp hr]

lemma dataPipe_sendAnswerSized (s : AnswerServer) (c : AnswerCall) :
    (sendAnswerSized accepts s c).1.dataPipe =
      s.dataPipe.enlarged (int32 (int32 c.sizeData.toNat * 2)) c.granted := by
  have hgrow : (s.growPipe c).dataPipe =
      s.dataPipe.enlarged (int32 (int32 c.sizeData.toNat * 2)) c.granted := by
    rw [AnswerServer.growPipe]
  have hresize : ((s.growPipe c).resize c).dataPipe = (s.growPipe c).dataPipe := by
    rw [AnswerServer.resize]
  simp only [sendAnswerSized]
  split_ifs
  · exact hresize.trans hgrow
  · exact hresize.trans hgrow
  · exact hgrow

/-- On a head and a body that have their bytes, `sendAnswer` leaves the same pipe and reports the
same, unless `new` throws. -/
theorem sendAnswer_sized (s : AnswerServer) (c : AnswerCall) {buffData buffHead : Bytes}
    (hfits : (frame (buffHead ++ buffData)).length < 2 ^ 64)
    (hdata : c.sizeData = UInt64.ofNat buffData.length)
    (hhead : c.sizeHead = UInt64.ofNat buffHead.length) :
    let written := int32 (accepts (frame (buffHead ++ buffData)).length)
    ∀ run ∈ (sendAnswerSized accepts s c).2,
      sendAnswer s.dataPipe buffData buffHead c.granted written =
        ((sendAnswerSized accepts s c).1.dataPipe, accepted (frame (buffHead ++ buffData)) written,
          run.2.ok) := by
  intro written run hrun
  rw [frame_length, List.length_append] at hfits
  have hsizeData : c.sizeData.toNat = buffData.length := by
    rw [hdata, UInt64.toNat_ofNat']
    omega
  have hsizeHead : c.sizeHead.toNat = buffHead.length := by
    rw [hhead, UInt64.toNat_ofNat']
    omega
  have hshift : (8 + c.sizeHead + c.sizeData).toNat = (frame (buffHead ++ buffData)).length := by
    have h8 : (8 : UInt64).toNat = 8 := rfl
    have hframe : headSize = 8 := rfl
    rw [UInt64.toNat_add, UInt64.toNat_add, hsizeData, hsizeHead, frame_length, List.length_append,
      h8]
    omega
  have hsent : run = (c.copies, c.sent accepts) := by
    rw [sendAnswerSized] at hrun
    split_ifs at hrun
    · exact (Option.mem_some_iff.mp hrun).symm
    · cases hrun
    · exact (Option.mem_some_iff.mp hrun).symm
  rw [dataPipe_sendAnswerSized, hsizeData, hsent]
  simp only [sendAnswer, sendAnswer_allBuff, AnswerCall.sent, hshift]
  by_cases hret : written = int32 (frame (buffHead ++ buffData)).length
  · rw [if_neg (not_not.mpr hret), decide_eq_true hret]
  · rw [if_pos hret, decide_eq_false hret]

/-- An answer keeps the size right. -/
lemma AnswerServer.Sized.sendAnswerSized {s : AnswerServer} (hs : s.Sized) (c : AnswerCall) :
    (sendAnswerSized accepts s c).1.Sized := by
  intro n hn
  rw [sizeAllBuff_sendAnswerSized]
  by_cases hr : s.Resizes c
  · cases ha : c.allocates with
    | true =>
      rw [allBuff_of_resizes accepts hr ha] at hn
      exact (Buffer.allocated.inj hn).symm
    | false =>
      rw [allBuff_of_throws accepts hr ha] at hn
      split_ifs at hn
  · rw [allBuff_of_not_resizes accepts hr] at hn
    rw [AnswerServer.Resizes, not_or, not_not] at hr
    rw [hr.2]
    exact hs n hn

lemma answered_sized (dataPipe : PipeDesc) (calls : List AnswerCall) :
    (answered accepts dataPipe calls).Sized := by
  have hnull : AnswerServer.Sized { dataPipe } := by
    intro n hn
    cases hn
  rw [answered]
  generalize ({ dataPipe } : AnswerServer) = s at hnull
  induction calls generalizing s with
  | nil => exact hnull
  | cons c calls ih =>
    rw [List.foldl_cons]
    exact ih _ (hnull.sendAnswerSized accepts c)

/-- The copies end within the buffer exactly when the sizes fit into the header's field. -/
lemma copies_end_iff (c : AnswerCall) :
    (∀ copy ∈ c.copies, copy.offset.toNat + copy.size.toNat ≤ c.neededSize.toNat) ↔
      c.sizeData.toNat + c.sizeHead.toNat < 2 ^ 32 := by
  have h8 : (8 : UInt64).toNat = 8 := rfl
  have h0 : (0 : UInt64).toNat = 0 := rfl
  have hdata := c.sizeData.toNat_lt
  have hhead := c.sizeHead.toNat_lt
  simp only [AnswerCall.copies, List.mem_cons, List.not_mem_nil, or_false, forall_eq_or_imp,
    forall_eq, c.neededSize_toNat, UInt64.toNat_add, h8, h0]
  omega

lemma sent_truthful {c : AnswerCall} (h : c.sizeData.toNat + c.sizeHead.toNat < 2 ^ 32) :
    (c.sent id).Truthful := by
  intro _
  have h8 : (8 : UInt64).toNat = 8 := rfl
  have hhead : headSize = 8 := rfl
  simp only [AnswerCall.sent, id_eq, c.dataSize_toNat, UInt64.toNat_add, h8, hhead]
  omega

/-- The answer finds its array unless a failed `new` for as many bytes has left a pointer to what
was deleted. -/
lemma allBuff_allocated_iff {s : AnswerServer} (hs : s.Sized) {c : AnswerCall}
    (h : ¬ (s.Resizes c ∧ c.allocates = false)) :
    (sendAnswerSized accepts s c).1.allBuff = .allocated c.neededSize.toNat ↔
      ¬ (s.allBuff = .freed ∧ c.neededSize = s.sizeAllBuff) := by
  by_cases hr : s.Resizes c
  · have ha : c.allocates = true := by
      rw [← Bool.not_eq_false]
      exact fun hf => h ⟨hr, hf⟩
    refine iff_of_true (allBuff_of_resizes accepts hr ha) ?_
    rintro ⟨hfreed, hsize⟩
    rcases hr with hnull | hother
    · rw [hnull] at hfreed
      cases hfreed
    · exact hother hsize
  · rw [allBuff_of_not_resizes accepts hr]
    rw [AnswerServer.Resizes, not_or, not_not] at hr
    obtain ⟨hnull, hsize⟩ := hr
    cases hbuff : s.allBuff with
    | null => exact absurd hbuff hnull
    | allocated n => simp [hs n hbuff, hsize]
    | freed => simp [hsize]

lemma answerSound_iff {s : AnswerServer} (hs : s.Sized) (c : AnswerCall) :
    AnswerSound s c ↔ (s.Resizes c ∧ c.allocates = false) ∨
      (c.sizeData.toNat + c.sizeHead.toNat < 2 ^ 32 ∧
        ¬ (s.allBuff = .freed ∧ c.neededSize = s.sizeAllBuff)) := by
  by_cases hthrows : s.Resizes c ∧ c.allocates = false
  · have hnone : (sendAnswerSized id s c).2 = none := by
      simp [sendAnswerSized, (growPipe_resizes s c).mpr hthrows.1, hthrows.2]
    simp [AnswerSound, hnone, hthrows]
  · rw [or_iff_right hthrows, ← allBuff_allocated_iff id hs hthrows]
    simp only [AnswerSound, sendAnswerSized_sent id hthrows, Option.mem_some_iff, forall_eq',
      AnswerServer.Within, sizeAllBuff_sendAnswerSized]
    constructor
    · rintro ⟨-, hcopies⟩
      have hhead := hcopies ⟨0, 8⟩ (by simp [AnswerCall.copies])
      exact ⟨(copies_end_iff c).mp fun copy hcopy => (hcopies copy hcopy).2, hhead.1⟩
    · rintro ⟨hfits, hbuff⟩
      exact ⟨sent_truthful hfits, fun copy hcopy =>
        ⟨hbuff, (copies_end_iff c).mpr hfits copy hcopy⟩⟩

/-- A command is sent soundly exactly when its size fits into 32 bits or the pipe is closed. An
answer after any answers is sent soundly exactly when `new` throws before anything is copied, or
when both sizes together fit into 32 bits and the buffer is not one that an earlier failed `new` of
the same size has left deleted. -/
theorem pipe_sizes_iff (pipe : PipeDesc) (msgSize : UInt64) (granted : ℤ) (dataPipe : PipeDesc)
    (calls : List AnswerCall) (c : AnswerCall) :
    (StreamSound pipe msgSize granted ↔
      (StaysOpen pipe msgSize granted → msgSize.toNat < 2 ^ 32)) ∧
    (AnswerSound (answered id dataPipe calls) c ↔
      ((answered id dataPipe calls).Resizes c ∧ c.allocates = false) ∨
      (c.sizeData.toNat + c.sizeHead.toNat < 2 ^ 32 ∧
        ¬ ((answered id dataPipe calls).allBuff = .freed ∧
          c.neededSize = (answered id dataPipe calls).sizeAllBuff))) :=
  ⟨streamSound_iff pipe msgSize granted, answerSound_iff (answered_sized id dataPipe calls) c⟩

/-- A command and an answer of 4 GiB have a header that says zero. -/
theorem pipe_sizes_narrowed :
    (¬ ∀ (pipe : PipeDesc) (msgSize : UInt64) (granted : ℤ), StreamSound pipe msgSize granted) ∧
    ¬ ∀ (dataPipe : PipeDesc) (calls : List AnswerCall) (c : AnswerCall),
      AnswerSound (answered id dataPipe calls) c := by
  constructor
  · intro h
    have hsent : (sendToStreamSized id .fresh 4294967296 65536).2 =
        some ⟨{ dataSize := 0 }, 4294967296, true⟩ := by decide
    have htrue := h .fresh 4294967296 65536 _ hsent rfl
    exact absurd htrue (by decide)
  · intro h
    let c : AnswerCall := ⟨4294967296, 0, 65536, true⟩
    have hrun : (sendAnswerSized id { dataPipe := .fresh } c).2 =
        some (c.copies, ⟨{ dataSize := 0 }, 4294967296, true⟩) := by decide
    have htrue := (h .fresh [] c _ hrun).1 rfl
    exact absurd htrue (by decide)

end ToolkitCpp.Pipe

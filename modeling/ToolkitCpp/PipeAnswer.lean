import ToolkitCpp.PipeListen

/-!
# Answers on the data pipe

`PipeServer::sendAnswer` puts a frame into the data pipe with one blocking write.
`PipeClient::readAnswer` takes it out with two reads, one for the header and one for the
payload, and returns early between them when the caller's buffer is too small: the payload
then stays in the pipe in front of everything that follows.
-/
namespace ToolkitCpp.Pipe
open GuardedRuns

/-- `PipeServer::sendAnswer`: the descriptor afterwards, the bytes put into the pipe and the
result, given what `F_GETPIPE_SZ` and `write` answer. -/
def sendAnswer (pipe : PipeDesc) (buffData buffHead : Bytes) (granted ret : ℤ) :
    PipeDesc × Bytes × Bool :=
  let pipe := pipe.enlarged (int32 (int32 buffData.length * 2)) granted
  let primeHead : PrimaryHeader := { dataSize := UInt32.ofNat (buffData.length + buffHead.length) }
  let allBuff := primeHead.bytes ++ (buffHead ++ buffData)
  if ret ≠ int32 allBuff.length then (pipe, accepted allBuff ret, false)
  else (pipe, accepted allBuff ret, true)

lemma sendAnswer_allBuff (buffData buffHead : Bytes) :
    ({ dataSize := UInt32.ofNat (buffData.length + buffHead.length) } : PrimaryHeader).bytes ++
      (buffHead ++ buffData) = frame (buffHead ++ buffData) := by
  rw [frame, List.length_append, Nat.add_comm]

/-- A write that takes everything leaves exactly one frame in the pipe. -/
lemma sendAnswer_written (pipe : PipeDesc) (buffData buffHead : Bytes) (granted ret : ℤ)
    (hret : ret = (frame (buffHead ++ buffData)).length) :
    (sendAnswer pipe buffData buffHead granted ret).2.1 = frame (buffHead ++ buffData) := by
  have htake : accepted (frame (buffHead ++ buffData)) ret = frame (buffHead ++ buffData) := by
    simp [accepted, hret]
  simp only [sendAnswer, sendAnswer_allBuff, htake]
  split_ifs <;> rfl

/-- The result of `timeoutRead` as an `int32_t`. -/
def ReadEvent.retBytes : ReadEvent → ℤ
  | .failed => -1
  | .idle => 0
  | .got k => k

def ReadEvent.count : ReadEvent → ℕ
  | .got k => k
  | _ => 0

@[simp] lemma ReadEvent.retBytes_got (k : ℕ) : (ReadEvent.got k).retBytes = k := rfl

@[simp] lemma ReadEvent.count_got (k : ℕ) : (ReadEvent.got k).count = k := rfl

/-- A call of `readAnswer`: whether it comes back, the bytes it takes from the pipe, whether eight
of them were interpreted as a header, the payload left behind because the buffer is too small,
the content of the returned buffer and the value of `sizeData` afterwards. -/
structure Answer where
  returns : Bool
  taken : ℕ
  headed : Bool
  refused : ℕ
  payload : Option Bytes
  sizeData : ℕ
  deriving DecidableEq, Repr

/-- `PipeClient::readAnswer` with a buffer of `sizeData` bytes, or a null one, given what the two
calls of `timeoutRead` meet. -/
def readAnswer (pipe : Bytes) (hasBuffer : Bool) (sizeData : ℕ) (onHead onData : List PollEvent) :
    Answer :=
  match timeoutRead onHead with
  | none => ⟨false, 0, false, 0, none, sizeData⟩
  | some head =>
      if head.retBytes ≠ headSize then ⟨true, head.count, false, 0, none, sizeData⟩
      else
        let primeHead := PrimaryHeader.ofBytes (pipe.take headSize)
        if ¬ primeHead.WellFormed then ⟨true, headSize, true, 0, none, sizeData⟩
        else
          let dataSize := primeHead.dataSize.toNat
          let sizeData := if hasBuffer then sizeData else dataSize
          if sizeData < dataSize then ⟨true, headSize, true, dataSize, none, sizeData⟩
          else
            match timeoutRead onData with
            | none => ⟨false, headSize, true, 0, none, sizeData⟩
            | some data =>
                if data.retBytes ≠ int32 dataSize then
                  ⟨true, headSize + data.count, true, 0, none, 0⟩
                else
                  ⟨true, headSize + data.count, true, 0,
                    some ((pipe.drop headSize).take data.count), dataSize⟩

/-- The pipe is disconnected, its descriptor is closed, or `read` reports an error. -/
def PollEvent.breaks : PollEvent → Bool
  | .hangup => true
  | .badDescriptor => true
  | .readError => true
  | _ => false

/-- The requested amount is returned when that much is available. -/
def PollEvent.Whole (available size : ℕ) (p : PollEvent) : Prop :=
  size ≤ available → size < 2 ^ 31 → ∀ e ∈ p.outcome, e.retBytes = size

/-- What a call of `timeoutRead` for `size` bytes meets with `available` ones in the pipe. At the
end it has returned, or only a break of the link would make it return. -/
structure Polls (available size : ℕ) (ps : List PollEvent) : Prop where
  possible : ∀ p ∈ ps, p.Possible available size
  whole : ∀ p ∈ ps, p.Whole available size
  complete : timeoutRead ps = none →
    ∀ p : PollEvent, p.Possible available size → p.breaks = false → p = .readNothing

/-- A call that does not return asks for no bytes, while some are there. -/
lemma onlyReadNothing_iff {available size : ℕ} :
    (∀ p : PollEvent, p.Possible available size → p.breaks = false → p = .readNothing) ↔
      size = 0 ∧ 0 < available := by
  constructor
  · intro h
    have hav : available ≠ 0 := by
      intro h0
      exact absurd (h .expired h0 rfl) (by decide)
    refine ⟨?_, Nat.pos_of_ne_zero hav⟩
    by_contra hsize
    exact absurd (h (.readBytes 1) (by simp only [PollEvent.Possible]; omega) rfl) (by decide)
  · rintro ⟨hsize, hav⟩ p hp hb
    cases p with
    | readNothing => rfl
    | expired =>
      simp only [PollEvent.Possible] at hp
      omega
    | readBytes k =>
      simp only [PollEvent.Possible] at hp
      omega
    | hangup => cases hb
    | badDescriptor => cases hb
    | readError => cases hb

instance (available size : ℕ) (p : PollEvent) : Decidable (p.Possible available size) :=
  match p with
  | .expired => inferInstanceAs (Decidable (_ = _))
  | .readNothing => inferInstanceAs (Decidable (_ ∨ _))
  | .readBytes _ => inferInstanceAs (Decidable (_ ∧ _))
  | .hangup => isTrue trivial
  | .badDescriptor => isTrue trivial
  | .readError => isTrue trivial

instance (available size : ℕ) (p : PollEvent) : Decidable (p.Whole available size) :=
  inferInstanceAs (Decidable (_ → _))

lemma polls_iff {available size : ℕ} {ps : List PollEvent} : Polls available size ps ↔
    (∀ p ∈ ps, p.Possible available size) ∧ (∀ p ∈ ps, p.Whole available size) ∧
      (timeoutRead ps = none → size = 0 ∧ 0 < available) := by
  rw [← onlyReadNothing_iff]
  exact ⟨fun h => ⟨h.possible, h.whole, h.complete⟩, fun h => ⟨h.1, h.2.1, h.2.2⟩⟩

instance (available size : ℕ) (ps : List PollEvent) : Decidable (Polls available size ps) :=
  decidable_of_iff' _ polls_iff

section Polls

variable {available size : ℕ} {ps : List PollEvent} {e : ReadEvent}

lemma Polls.isSome (h : Polls available size ps) (hsize : 0 < size ∨ available = 0) :
    ∃ e, timeoutRead ps = some e := by
  cases hret : timeoutRead ps with
  | some e => exact ⟨e, rfl⟩
  | none =>
    have hstuck := (polls_iff.mp h).2.2 hret
    omega

lemma Polls.count_le (h : Polls available size ps) (hret : timeoutRead ps = some e) :
    e.count ≤ available := by
  obtain ⟨p, hp, hout⟩ := exists_of_timeoutRead hret
  cases e with
  | failed => exact Nat.zero_le _
  | idle => exact Nat.zero_le _
  | got k => exact (PollEvent.outcome_got hout ▸ h.possible p hp).2.2.1

lemma Polls.whole_read (h : Polls available size ps) (hret : timeoutRead ps = some e)
    (hav : size ≤ available) (hint : size < 2 ^ 31) : e.retBytes = size ∧ e.count = size := by
  obtain ⟨p, hp, hout⟩ := exists_of_timeoutRead hret
  have hsize : e.retBytes = size := h.whole p hp hav hint e hout
  refine ⟨hsize, ?_⟩
  cases e with
  | failed =>
    simp only [ReadEvent.retBytes] at hsize
    omega
  | idle =>
    simp only [ReadEvent.retBytes] at hsize
    simp only [ReadEvent.count]
    omega
  | got k => simpa using hsize

lemma Polls.header (h : Polls available headSize ps) (hav : headSize ≤ available) :
    timeoutRead ps = some (.got headSize) := by
  obtain ⟨e, hret⟩ := h.isSome (Or.inl (by decide))
  obtain ⟨hbytes, hcount⟩ := h.whole_read hret hav (by decide)
  rw [hret]
  cases e with
  | failed => simp [ReadEvent.retBytes, headSize] at hbytes
  | idle => simp [ReadEvent.retBytes, headSize] at hbytes
  | got k => rw [show k = headSize from hcount]

/-- With less in the pipe than a header, the call for it takes some of that. -/
lemma Polls.short (h : Polls available headSize ps) (hav : available < headSize) :
    ∃ e, timeoutRead ps = some e ∧ e.retBytes ≠ headSize ∧ e.count ≤ available := by
  obtain ⟨e, hret⟩ := h.isSome (Or.inl (by decide))
  have hcount := h.count_le hret
  refine ⟨e, hret, ?_, hcount⟩
  cases e with
  | failed => decide
  | idle => decide
  | got k =>
    simp only [ReadEvent.retBytes_got, ReadEvent.count_got] at hcount ⊢
    omega

end Polls

lemma readAnswer_short {pipe : Bytes} {hasBuffer : Bool} {sizeData : ℕ}
    {onHead onData : List PollEvent} {head : ReadEvent} (hret : timeoutRead onHead = some head)
    (h : head.retBytes ≠ headSize) : readAnswer pipe hasBuffer sizeData onHead onData =
      ⟨true, head.count, false, 0, none, sizeData⟩ := by
  simp [readAnswer, hret, h]

lemma readAnswer_headed {pipe : Bytes} {hasBuffer : Bool} {sizeData : ℕ}
    {onHead onData : List PollEvent} (h : timeoutRead onHead = some (.got headSize)) :
    (readAnswer pipe hasBuffer sizeData onHead onData).headed = true := by
  simp only [readAnswer, h, ReadEvent.retBytes_got, ne_eq, not_true_eq_false, if_false]
  cases timeoutRead onData <;> simp only <;> split_ifs <;> rfl

/-- The room the caller offers for a payload of `n` bytes. -/
def room (hasBuffer : Bool) (sizeData n : ℕ) : ℕ := if hasBuffer then sizeData else n

/-- At the start of a frame that is wholly in the pipe, the call returns its payload, leaves the
payload behind, or waits for the bytes of an empty one. -/
lemma readAnswer_frame {m rest : Bytes} (hasBuffer : Bool) (sizeData : ℕ)
    {onHead onData : List PollEvent} (hm : m.length < 2 ^ 31)
    (hhead : timeoutRead onHead = some (.got headSize))
    (hdata : Polls ((frame m ++ rest).length - headSize)
      (PrimaryHeader.ofBytes ((frame m ++ rest).take headSize)).dataSize.toNat onData) :
    readAnswer (frame m ++ rest) hasBuffer sizeData onHead onData =
      if room hasBuffer sizeData m.length < m.length then
        ⟨true, headSize, true, m.length, none, room hasBuffer sizeData m.length⟩
      else if timeoutRead onData = none then
        ⟨false, headSize, true, 0, none, room hasBuffer sizeData m.length⟩
      else ⟨true, headSize + m.length, true, 0, some m, m.length⟩ := by
  have hle : headSize ≤ (frame m).length := by simp [frame_length]
  have htake : (frame m ++ rest).take headSize = (frame m).take headSize :=
    List.take_append_of_le_length hle
  have hdrop : (frame m ++ rest).drop headSize = m ++ rest := by
    rw [List.drop_append_of_le_length hle, frame_drop]
  obtain ⟨hw, hsize⟩ := frame_header (m := m) (by omega)
  rw [htake, hsize] at hdata
  have hthere : m.length ≤ (frame m ++ rest).length - headSize := by
    rw [List.length_append, frame_length]
    omega
  simp only [readAnswer, hhead, ReadEvent.retBytes_got, htake, hdrop, hw, hsize, not_true,
    if_false, ne_eq]
  cases hret : timeoutRead onData with
  | none => simp [room]
  | some e =>
    obtain ⟨hbytes, hcount⟩ := hdata.whole_read hret hthere hm
    simp [room, hbytes, hcount, int32_natCast hm]

/-- The wait for the bytes of a payload has no end only if there are none. -/
lemma Polls.waits {m rest : Bytes} {onData : List PollEvent} (hm : m.length < 2 ^ 31)
    (hdata : Polls ((frame m ++ rest).length - headSize)
      (PrimaryHeader.ofBytes ((frame m ++ rest).take headSize)).dataSize.toNat onData)
    (hret : timeoutRead onData = none) : m = [] ∧ rest ≠ [] := by
  have hle : headSize ≤ (frame m).length := by simp [frame_length]
  obtain ⟨hzero, hpos⟩ := (polls_iff.mp hdata).2.2 hret
  rw [List.take_append_of_le_length hle, (frame_header (by omega)).2] at hzero
  rw [List.length_append, frame_length, hzero] at hpos
  refine ⟨List.length_eq_zero_iff.mp hzero, ?_⟩
  rintro rfl
  simp at hpos

/-- The data pipe between server and client. `sent` are the payloads written and `returned`
the buffers handed to the caller; `consumed` counts the bytes read, `headersAt` are the
positions at which eight bytes were interpreted as a header, `leftover` is how much of a
refused payload is still in the pipe, and `waiting` says that a call has not come back. -/
structure Channel where
  dataPipe : PipeDesc
  pipe : Bytes
  sent : List Bytes
  returned : List Bytes
  consumed : ℕ
  headersAt : List ℕ
  leftover : ℕ
  waiting : Bool
  deriving DecidableEq, Repr

def Channel.initial (dataPipe : PipeDesc) : Channel := ⟨dataPipe, [], [], [], 0, [], 0, false⟩

inductive Exchange
  | sendAnswer (buffData buffHead : Bytes) (granted ret : ℤ)
  | readAnswer (hasBuffer : Bool) (sizeData : ℕ) (onHead onData : List PollEvent)
  deriving DecidableEq, Repr

def Channel.afterAnswer (s : Channel) (a : Answer) : Channel :=
  { s with
    pipe := s.pipe.drop a.taken
    returned := s.returned ++ a.payload.toList
    consumed := s.consumed + a.taken
    headersAt := if a.headed then s.headersAt ++ [s.consumed] else s.headersAt
    leftover := s.leftover - a.taken + a.refused
    waiting := !a.returns }

def Channel.step (s : Channel) : Exchange → Channel
  | .sendAnswer buffData buffHead granted ret =>
      let (dataPipe, written, _) := Pipe.sendAnswer s.dataPipe buffData buffHead granted ret
      { s with
        dataPipe := dataPipe
        pipe := s.pipe ++ written
        sent := s.sent ++ [buffHead ++ buffData] }
  | .readAnswer hasBuffer sizeData onHead onData =>
      s.afterAnswer (Pipe.readAnswer s.pipe hasBuffer sizeData onHead onData)

/-- The write takes a whole frame; a read gets what it asks for if that much is there. A call
that does not get to its second read ignores what is given for it. -/
def ExchangePossible (s : Channel) : Exchange → Prop
  | .sendAnswer buffData buffHead _ ret =>
      ret = (frame (buffHead ++ buffData)).length ∧ (frame (buffHead ++ buffData)).length < 2 ^ 31
  | .readAnswer _ _ onHead onData =>
      s.waiting = false ∧ Polls s.pipe.length headSize onHead ∧
        (timeoutRead onHead = some (.got headSize) →
          Polls (s.pipe.length - headSize)
            (PrimaryHeader.ofBytes (s.pipe.take headSize)).dataSize.toNat onData)

instance (s : Channel) (e : Exchange) : Decidable (ExchangePossible s e) :=
  match e with
  | .sendAnswer _ _ _ _ => inferInstanceAs (Decidable (_ ∧ _))
  | .readAnswer _ _ _ _ => inferInstanceAs (Decidable (_ ∧ _))

def answers : System Channel Exchange := ⟨ExchangePossible, Channel.step⟩

instance (s : Channel) (e : Exchange) : Decidable (answers.possible s e) :=
  inferInstanceAs (Decidable (ExchangePossible s e))

/-- The positions in the stream at which the frames of `ms` start, the first one at `p`. -/
def frameStarts : ℕ → List Bytes → List ℕ
  | _, [] => []
  | p, m :: ms => p :: frameStarts (p + (frame m).length) ms

/-- The buffers returned are payloads of frames in the order of sending, and nothing but the
start of a frame was ever interpreted as a header. -/
def Channel.Faithful (s : Channel) : Prop :=
  s.returned.Sublist s.sent ∧ ∀ p ∈ s.headersAt, p ∈ frameStarts 0 s.sent

instance (s : Channel) : Decidable s.Faithful := inferInstanceAs (Decidable (_ ∧ _))

/-- No read with a whole header's worth of bytes in front of it starts inside a payload that
an earlier call refused. -/
def ReadsPastRefused (s : Channel) : Exchange → Prop
  | .sendAnswer _ _ _ _ => True
  | .readAnswer _ _ _ _ => s.leftover = 0 ∨ s.pipe.length < headSize

lemma frameStarts_append (p : ℕ) (xs ys : List Bytes) : frameStarts p (xs ++ ys) =
    frameStarts p xs ++ frameStarts (p + (xs.flatMap frame).length) ys := by
  induction xs generalizing p with
  | nil => simp [frameStarts]
  | cons m ms ih =>
    simp only [List.cons_append, frameStarts, ih, List.flatMap_cons, List.length_append,
      Nat.add_assoc]

lemma frameStarts_bounds {p q : ℕ} {ms : List Bytes} (h : q ∈ frameStarts p ms) :
    p ≤ q ∧ q + headSize ≤ p + (ms.flatMap frame).length := by
  induction ms generalizing p with
  | nil => simp [frameStarts] at h
  | cons m ms ih =>
    have hlen := frame_length m
    simp only [List.flatMap_cons, List.length_append]
    rcases List.mem_cons.mp h with rfl | h
    · omega
    · have hrest := ih h
      omega

/-- A position inside the payload of a frame is not the start of one. -/
lemma notMem_frameStarts {before later : List Bytes} {m : Bytes} {left q : ℕ} (hpos : 0 < left)
    (hle : left ≤ m.length) (hq : q + left = ((before ++ [m]).flatMap frame).length) :
    q ∉ frameStarts 0 (before ++ [m] ++ later) := by
  have hlen := frame_length m
  have hhead : 0 < headSize := by decide
  have htotal : ((before ++ [m]).flatMap frame).length =
      (before.flatMap frame).length + (frame m).length := by simp
  intro hmem
  rw [frameStarts_append, frameStarts_append] at hmem
  rcases List.mem_append.mp hmem with hmem | hmem
  · rcases List.mem_append.mp hmem with hmem | hmem
    · have hb := frameStarts_bounds hmem
      omega
    · have heq : q = 0 + (before.flatMap frame).length := by simpa [frameStarts] using hmem
      omega
  · have hb := frameStarts_bounds hmem
    omega

/-- The pipe holds the rest `tail` of a refused payload and then whole frames. -/
structure Channel.Framed (s : Channel) (done later : List Bytes) (tail : Bytes) : Prop where
  sent : s.sent = done ++ later
  pipe : s.pipe = tail ++ later.flatMap frame
  left : tail.length = s.leftover
  inside : 0 < s.leftover → ∃ before m, done = before ++ [m] ∧ s.leftover ≤ m.length
  position : s.consumed + s.leftover = (done.flatMap frame).length
  returned : s.returned.Sublist done
  headers : ∀ p ∈ s.headersAt, p ∈ frameStarts 0 done
  short : ∀ m ∈ later, m.length < 2 ^ 31

lemma Channel.Framed.faithful {s : Channel} {done later : List Bytes} {tail : Bytes}
    (h : s.Framed done later tail) : s.Faithful := by
  constructor
  · rw [h.sent]
    exact h.returned.trans (List.sublist_append_left done later)
  · intro p hp
    rw [h.sent, frameStarts_append]
    exact List.mem_append_left _ (h.headers p hp)

lemma Channel.Framed.sendAnswer {s : Channel} {done later : List Bytes} {tail : Bytes}
    (h : s.Framed done later tail) {buffData buffHead : Bytes} {granted ret : ℤ}
    (hp : ExchangePossible s (.sendAnswer buffData buffHead granted ret)) :
    (s.step (.sendAnswer buffData buffHead granted ret)).Framed done
      (later ++ [buffHead ++ buffData]) tail := by
  obtain ⟨hret, hlen⟩ := hp
  have hw := sendAnswer_written s.dataPipe buffData buffHead granted ret hret
  refine ⟨?_, ?_, h.left, h.inside, h.position, h.returned, h.headers, ?_⟩
  · simp [Channel.step, h.sent]
  · simp [Channel.step, hw, h.pipe]
  · intro m hm
    rcases List.mem_append.mp hm with hm | hm
    · exact h.short m hm
    · rw [List.mem_singleton.mp hm]
      rw [frame_length] at hlen
      omega

/-- With too few bytes for a header, a call takes some of them away and nothing else
happens. -/
lemma Channel.Framed.fewBytes {s : Channel} {done : List Bytes} {tail : Bytes}
    (h : s.Framed done [] tail) {k sizeData : ℕ} (hk : k ≤ tail.length) :
    (s.afterAnswer ⟨true, k, false, 0, none, sizeData⟩).Framed done [] (tail.drop k) := by
  have hpipe : s.pipe = tail := by simpa using h.pipe
  have hleft := h.left
  have hposition := h.position
  constructor
  case sent => exact h.sent
  case pipe => simp [Channel.afterAnswer, hpipe]
  case left => simp [Channel.afterAnswer, hleft]
  case inside =>
    intro hpos
    simp only [Channel.afterAnswer, Nat.add_zero] at hpos ⊢
    obtain ⟨before, m, hdone, hle⟩ := h.inside (by omega)
    exact ⟨before, m, hdone, by omega⟩
  case position =>
    simp only [Channel.afterAnswer, Nat.add_zero]
    omega
  case returned => simpa [Channel.afterAnswer] using h.returned
  case headers => exact h.headers
  case short => exact h.short

section NextFrame

variable {s : Channel} {done later : List Bytes} {m : Bytes}

lemma Channel.Framed.headers_next {tail : Bytes} (h : s.Framed done (m :: later) tail)
    (hleft : s.leftover = 0) :
    ∀ p ∈ s.headersAt ++ [s.consumed], p ∈ frameStarts 0 (done ++ [m]) := by
  have hposition := h.position
  intro p hmem
  rw [frameStarts_append]
  rcases List.mem_append.mp hmem with hmem | hmem
  · exact List.mem_append_left _ (h.headers p hmem)
  · apply List.mem_append_right
    simp only [frameStarts, List.mem_singleton] at hmem ⊢
    omega

/-- A call at the start of a frame that does not fit takes off its header. -/
lemma Channel.Framed.refuse (h : s.Framed done (m :: later) []) (returns : Bool) (sizeData : ℕ) :
    (s.afterAnswer ⟨returns, headSize, true, m.length, none, sizeData⟩).Framed (done ++ [m]) later m := by
  have hleft : s.leftover = 0 := h.left.symm
  have hlen := frame_length m
  constructor
  case sent => simp [Channel.afterAnswer, h.sent]
  case pipe =>
    have hpipe : s.pipe = frame m ++ later.flatMap frame := by simpa using h.pipe
    simp only [Channel.afterAnswer]
    rw [hpipe, List.drop_append_of_le_length (by omega), frame_drop]
  case left => simp [Channel.afterAnswer, hleft]
  case inside => exact fun _ => ⟨done, m, rfl, by simp [Channel.afterAnswer, hleft]⟩
  case position =>
    have hposition := h.position
    simp only [Channel.afterAnswer, List.flatMap_append, List.flatMap_singleton,
      List.length_append]
    omega
  case returned =>
    simpa [Channel.afterAnswer] using h.returned.trans (List.sublist_append_left done [m])
  case headers => exact h.headers_next hleft
  case short => exact fun m' hm' => h.short m' (List.mem_cons_of_mem _ hm')

lemma Channel.Framed.accept (h : s.Framed done (m :: later) []) (sizeData : ℕ) :
    (s.afterAnswer ⟨true, headSize + m.length, true, 0, some m, sizeData⟩).Framed (done ++ [m]) later
      [] := by
  have hleft : s.leftover = 0 := h.left.symm
  have hlen := frame_length m
  constructor
  case sent => simp [Channel.afterAnswer, h.sent]
  case pipe =>
    have hpipe : s.pipe = frame m ++ later.flatMap frame := by simpa using h.pipe
    simp only [Channel.afterAnswer]
    rw [hpipe, ← hlen, List.drop_left, List.nil_append]
  case left => simp [Channel.afterAnswer, hleft]
  case inside =>
    intro hpos
    simp [Channel.afterAnswer, hleft] at hpos
  case position =>
    have hposition := h.position
    simp only [Channel.afterAnswer, List.flatMap_append, List.flatMap_singleton,
      List.length_append]
    omega
  case returned =>
    simpa [Channel.afterAnswer] using h.returned.append (List.Sublist.refl [m])
  case headers => exact h.headers_next hleft
  case short => exact fun m' hm' => h.short m' (List.mem_cons_of_mem _ hm')

end NextFrame

lemma Channel.Framed.step {s : Channel} {done later : List Bytes} {tail : Bytes}
    (h : s.Framed done later tail) {e : Exchange} (hp : ExchangePossible s e)
    (hc : ReadsPastRefused s e) : ∃ done' later' tail', (s.step e).Framed done' later' tail' := by
  cases e with
  | sendAnswer buffData buffHead granted ret => exact ⟨_, _, _, h.sendAnswer hp⟩
  | readAnswer hasBuffer sizeData onHead onData =>
    cases later with
    | nil =>
      have htail : s.pipe = tail := by simpa using h.pipe
      by_cases hfew : s.pipe.length < headSize
      · obtain ⟨head, hret, hne, hcount⟩ := hp.2.1.short hfew
        refine ⟨done, [], tail.drop head.count, ?_⟩
        rw [Channel.step, readAnswer_short hret hne]
        exact h.fewBytes (htail ▸ hcount)
      · have hzero : s.leftover = 0 := hc.resolve_right hfew
        have hpipe : s.pipe.length = s.leftover := htail ▸ h.left
        have hhead : 0 < headSize := by decide
        omega
    | cons m later =>
      have hzero : s.leftover = 0 := by
        rcases hc with hzero | hfew
        · exact hzero
        · rw [h.pipe, List.flatMap_cons, List.length_append, List.length_append,
            frame_length] at hfew
          omega
      have htail : tail = [] := List.length_eq_zero_iff.mp (h.left.trans hzero)
      subst htail
      have hpipe : s.pipe = frame m ++ later.flatMap frame := by simpa using h.pipe
      have hthere : headSize ≤ s.pipe.length := by
        rw [hpipe, List.length_append, frame_length]
        omega
      have hgot := hp.2.1.header hthere
      have hdata := hp.2.2 hgot
      have hm := h.short m List.mem_cons_self
      rw [hpipe] at hdata
      rw [Channel.step, hpipe, readAnswer_frame hasBuffer sizeData hm hgot hdata]
      by_cases hroom : room hasBuffer sizeData m.length < m.length
      · rw [if_pos hroom]
        exact ⟨_, _, _, h.refuse _ _⟩
      · rw [if_neg hroom]
        by_cases hret : timeoutRead onData = none
        · -- an empty frame of which only the header is taken
          have hempty : m.length = 0 := List.length_eq_zero_iff.mpr (hdata.waits hm hret).1
          have hrefuse := h.refuse false (room hasBuffer sizeData m.length)
          rw [if_pos hret]
          rw [hempty] at hrefuse ⊢
          exact ⟨_, _, _, hrefuse⟩
        · rw [if_neg hret]
          exact ⟨_, _, _, h.accept _⟩

/-- A header read that starts inside a refused payload. -/
lemma Channel.Framed.misread {s : Channel} {done later : List Bytes} {tail : Bytes}
    (h : s.Framed done later tail) {e : Exchange} (hp : ExchangePossible s e)
    (hc : ¬ ReadsPastRefused s e) : ¬ (s.step e).Faithful := by
  cases e with
  | sendAnswer buffData buffHead granted ret => exact absurd trivial hc
  | readAnswer hasBuffer sizeData onHead onData =>
    obtain ⟨hpos, hmany⟩ := not_or.mp hc
    obtain ⟨before, m, hdone, hle⟩ := h.inside (Nat.pos_of_ne_zero hpos)
    have hnot : s.consumed ∉ frameStarts 0 (before ++ [m] ++ later) :=
      notMem_frameStarts (Nat.pos_of_ne_zero hpos) hle (hdone ▸ h.position)
    have hret := hp.2.1.header (Nat.le_of_not_lt hmany)
    intro hf
    have hstart := hf.2 s.consumed
      (by simp [Channel.step, Channel.afterAnswer, readAnswer_headed hret])
    have hsent : (s.step (.readAnswer hasBuffer sizeData onHead onData)).sent =
        before ++ [m] ++ later := hdone ▸ h.sent
    rw [hsent] at hstart
    exact hnot hstart

end ToolkitCpp.Pipe

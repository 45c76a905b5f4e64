import ToolkitCpp.GuardedRuns
import ToolkitCpp.PipeFrame

/-!
# The listening loop of the pipe server

`PipeServer::startListen` as a step function on its local variables. One step is one
iteration of its `while` loop: the outcome of `timeoutRead` comes from outside, everything
else is computed. A read that would leave the buffer it points into has no defined
behaviour in C++, so it leads to `Config.overrun`, where the model stops.
-/
namespace ToolkitCpp.Pipe
open GuardedRuns

/-- What one turn of the polling loop inside `timeoutRead` meets. -/
inductive PollEvent
  | expired
  | hangup
  | badDescriptor
  | readError
  | readNothing
  | readBytes (k : ℕ)
  deriving DecidableEq, Repr

inductive ReadEvent
  | failed
  | idle
  | got (k : ℕ)
  deriving DecidableEq, Repr

/-- What `timeoutRead` returns after the event, unless it polls on. -/
def PollEvent.outcome : PollEvent → Option ReadEvent
  | .expired => some .idle
  | .hangup => some .idle
  | .badDescriptor => some .idle
  | .readError => some .failed
  | .readNothing => none
  | .readBytes k => some (.got k)

/-- `PipeTransportKit::timeoutRead`. It polls on after an empty read, so it may not have
returned at the end of a list of events. -/
def timeoutRead (ps : List PollEvent) : Option ReadEvent := ps.findSome? PollEvent.outcome

/-- The events that a turn can meet when `size` bytes are asked for and `available` ones are in
the pipe. `poll` waits only on an empty pipe, and a `read` of no bytes gets none whatever is
there. The result of `read` is kept in an `int`. -/
def PollEvent.Possible (available size : ℕ) : PollEvent → Prop
  | .expired => available = 0
  | .readNothing => size = 0 ∨ available = 0
  | .readBytes k => 0 < k ∧ k ≤ size ∧ k ≤ available ∧ k < 2 ^ 31
  | _ => True

lemma exists_of_timeoutRead {ps : List PollEvent} {e : ReadEvent} (h : timeoutRead ps = some e) :
    ∃ p ∈ ps, p.outcome = some e :=
  List.exists_of_findSome?_eq_some h

lemma PollEvent.outcome_got {p : PollEvent} {k : ℕ} (h : p.outcome = some (.got k)) :
    p = .readBytes k := by
  cases p <;> simp_all [PollEvent.outcome]

inductive Target
  | primeHead
  | msgData
  deriving DecidableEq, Repr

/-- The local variables of `startListen`, and the payloads it has passed to `addToIncoming`. -/
structure Listener where
  primeHead : Bytes
  msgData : Option Bytes
  msgDataSize : ℕ
  needReadBytes : ℕ
  shift : ℕ
  ptrToRead : Target
  isPrimeHeadReaded : Bool
  incoming : List Bytes
  deriving DecidableEq, Repr

def Listener.initial : Listener where
  primeHead := List.replicate headSize 0
  msgData := none
  msgDataSize := 0
  needReadBytes := headSize
  shift := 0
  ptrToRead := .primeHead
  isPrimeHeadReaded := false
  incoming := []

def Listener.header (st : Listener) : PrimaryHeader := PrimaryHeader.ofBytes st.primeHead

def Listener.capacity (st : Listener) : ℕ :=
  match st.ptrToRead with
  | .primeHead => headSize
  | .msgData => st.msgDataSize

def overwrite (buf : Bytes) (pos : ℕ) (data : Bytes) : Bytes :=
  buf.take pos ++ (data ++ buf.drop (pos + data.length))

def Listener.fill (st : Listener) (data : Bytes) : Listener :=
  match st.ptrToRead with
  | .primeHead => { st with primeHead := overwrite st.primeHead st.shift data }
  | .msgData => { st with msgData := st.msgData.map (overwrite · st.shift data) }

/-- A good header has been read: the message buffer is sized (an old one of the same size
is kept) and zeroed. -/
def Listener.startMessage (st : Listener) : Listener :=
  { st with
    shift := 0
    isPrimeHeadReaded := true
    needReadBytes := st.header.dataSize.toNat
    msgData := some (List.replicate st.header.dataSize.toNat 0)
    msgDataSize := st.header.dataSize.toNat
    ptrToRead := .msgData }

def Listener.deliver (st : Listener) : Listener :=
  { st with
    incoming := st.incoming ++ [(st.msgData.getD []).take st.msgDataSize]
    shift := 0
    needReadBytes := headSize
    primeHead := List.replicate headSize 0
    ptrToRead := .primeHead
    isPrimeHeadReaded := false }

/-- The loop body after a successful read of `data`. Both branches for a short read only
log (one of them sleeps) and continue. -/
def Listener.afterRead (st : Listener) (data : Bytes) : Listener :=
  let st := { st.fill data with shift := st.shift + data.length }
  if (data.length : ℤ) ≠ int32 st.needReadBytes then st
  else if st.shift = headSize ∧ st.needReadBytes ≤ headSize ∧ st.isPrimeHeadReaded = false then
    if st.header.WellFormed then st.startMessage else st
  else if st.shift = st.header.dataSize.toNat ∧ 0 < st.shift then st.deliver
  else st

inductive Config
  | running (st : Listener) (stream : Bytes)
  | overrun
  deriving DecidableEq, Repr

/-- The results that `timeoutRead` can come to. Bytes of the stream may still be on their way when
a turn polls. -/
def Possible : Config → ReadEvent → Prop
  | .running st stream, e => ∃ ps : List PollEvent,
      (∀ p ∈ ps, ∃ available ≤ stream.length, p.Possible available st.needReadBytes) ∧
        timeoutRead ps = some e
  | .overrun, _ => False

/-- It may report any count from one to the requested size of the bytes that are there. -/
lemma possible_got {st : Listener} {stream : Bytes} {k : ℕ} :
    Possible (.running st stream) (.got k) ↔
      0 < k ∧ k ≤ st.needReadBytes ∧ k ≤ stream.length ∧ k < 2 ^ 31 := by
  constructor
  · rintro ⟨ps, hps, hret⟩
    obtain ⟨p, hp, hout⟩ := exists_of_timeoutRead hret
    obtain ⟨available, hle, hk, hsize, hav, hint⟩ := PollEvent.outcome_got hout ▸ hps p hp
    exact ⟨hk, hsize, hav.trans hle, hint⟩
  · intro hk
    refine ⟨[.readBytes k], ?_, rfl⟩
    simpa using ⟨stream.length, le_rfl, hk⟩

lemma possible_failed (st : Listener) (stream : Bytes) : Possible (.running st stream) .failed :=
  ⟨[.readError], by simpa using ⟨0, Nat.zero_le _, trivial⟩, rfl⟩

lemma possible_idle (st : Listener) (stream : Bytes) : Possible (.running st stream) .idle :=
  ⟨[.expired], by simpa using ⟨0, Nat.zero_le _, rfl⟩, rfl⟩

instance (c : Config) (e : ReadEvent) : Decidable (Possible c e) :=
  match c, e with
  | .running _ _, .got _ => decidable_of_iff' _ possible_got
  | .running st stream, .failed => isTrue (possible_failed st stream)
  | .running st stream, .idle => isTrue (possible_idle st stream)
  | .overrun, _ => isFalse id

def listenStep : Config → ReadEvent → Config
  | .running st stream, .got k =>
      if st.shift + k ≤ st.capacity then
        .running (st.afterRead (stream.take k)) (stream.drop k)
      else .overrun
  | c, _ => c

def listen : System Config ReadEvent := ⟨Possible, listenStep⟩

theorem listen_step (c : Config) (e : ReadEvent) : listen.step c e = listenStep c e := rfl

instance (c : Config) (e : ReadEvent) : Decidable (listen.possible c e) :=
  inferInstanceAs (Decidable (Possible c e))

def startListen (stream : Bytes) : Config := .running .initial stream

theorem overwrite_all {buf data : Bytes} (h : buf.length = data.length) :
    overwrite buf 0 data = data := by
  simp [overwrite, ← h]

theorem short_ne {k n : ℕ} (hk : k < n) (hk' : k < 2 ^ 31) (hn : n < 2 ^ 32) :
    (k : ℤ) ≠ int32 n := by
  unfold int32
  rw [Int.bmod_def]
  split_ifs <;> omega

/-- Between messages: the next byte of the pipe is the first byte of a header. -/
structure Listener.Ready (st : Listener) : Prop where
  target : st.ptrToRead = .primeHead
  need : st.needReadBytes = headSize
  shift : st.shift = 0
  unread : st.isPrimeHeadReaded = false
  buffer : st.primeHead.length = headSize

/-- A header announcing `n` bytes has been read and nothing of its message has. -/
structure Listener.Payload (st : Listener) (n : ℕ) : Prop where
  target : st.ptrToRead = .msgData
  need : st.needReadBytes = n
  size : st.msgDataSize = n
  shift : st.shift = 0
  headed : st.isPrimeHeadReaded = true
  announced : st.header.dataSize.toNat = n
  buffer : ∃ buf, st.msgData = some buf ∧ buf.length = n

/-- A read came back short: the position has moved but the request is still the whole
object. -/
structure Listener.Stuck (st : Listener) : Prop where
  moved : 0 < st.shift
  need : st.needReadBytes = st.capacity
  bound : st.needReadBytes < 2 ^ 32

theorem Listener.initial_ready : Listener.initial.Ready := by
  constructor <;> simp [Listener.initial]

@[simp] theorem Listener.fill_need (st : Listener) (d : Bytes) :
    (st.fill d).needReadBytes = st.needReadBytes := by
  unfold Listener.fill; split <;> rfl

@[simp] theorem Listener.fill_incoming (st : Listener) (d : Bytes) :
    (st.fill d).incoming = st.incoming := by
  unfold Listener.fill; split <;> rfl

@[simp] theorem Listener.fill_headed (st : Listener) (d : Bytes) :
    (st.fill d).isPrimeHeadReaded = st.isPrimeHeadReaded := by
  unfold Listener.fill; split <;> rfl

@[simp] theorem Listener.fill_target (st : Listener) (d : Bytes) :
    (st.fill d).ptrToRead = st.ptrToRead := by
  unfold Listener.fill; split <;> rfl

@[simp] theorem Listener.fill_size (st : Listener) (d : Bytes) :
    (st.fill d).msgDataSize = st.msgDataSize := by
  unfold Listener.fill; split <;> rfl

theorem Listener.afterRead_short (st : Listener) (data : Bytes)
    (h : (data.length : ℤ) ≠ int32 st.needReadBytes) :
    st.afterRead data = { st.fill data with shift := st.shift + data.length } := by
  simp [Listener.afterRead, h]

theorem Listener.Stuck.short {st : Listener} (hs : st.Stuck) (data : Bytes)
    (hfit : st.shift + data.length ≤ st.capacity) (hlen : data.length < 2 ^ 31) :
    (st.afterRead data).Stuck ∧ (st.afterRead data).incoming = st.incoming := by
  have hmoved := hs.moved
  have hneed := hs.need
  have hne := short_ne (k := data.length) (n := st.needReadBytes) (by omega) hlen hs.bound
  rw [st.afterRead_short data hne]
  refine ⟨⟨?_, ?_, ?_⟩, by simp⟩
  · simp only
    omega
  · simpa [Listener.capacity] using hneed
  · simpa using hs.bound

theorem Listener.Ready.header_read {st : Listener} (hr : st.Ready) (data : Bytes)
    (hlen : data.length = headSize) (hw : (PrimaryHeader.ofBytes data).WellFormed) :
    (st.afterRead data).Payload (PrimaryHeader.ofBytes data).dataSize.toNat ∧
      (st.afterRead data).incoming = st.incoming := by
  have hfill : st.fill data = { st with primeHead := data } := by
    simp only [Listener.fill, hr.target, hr.shift]
    rw [overwrite_all (hr.buffer.trans hlen.symm)]
  have hcast : int32 headSize = headSize := int32_natCast (by decide)
  have hst : st.afterRead data = ({ st with primeHead := data } : Listener).startMessage := by
    simp [Listener.afterRead, hfill, hr.need, hr.shift, hr.unread, hlen, hcast, Listener.header, hw,
      Listener.startMessage]
  rw [hst]
  refine ⟨⟨rfl, rfl, rfl, rfl, rfl, rfl, ⟨_, rfl, by simp [Listener.header]⟩⟩, rfl⟩

/-- Out of `Ready`, a whole header that fails the test leaves the position at its end. -/
theorem Listener.Ready.header_rejected {st : Listener} (hr : st.Ready) (data : Bytes)
    (hlen : data.length = headSize) (hw : ¬ (PrimaryHeader.ofBytes data).WellFormed) :
    st.afterRead data = { st with primeHead := data, shift := headSize } := by
  have hfill : st.fill data = { st with primeHead := data } := by
    simp only [Listener.fill, hr.target, hr.shift]
    rw [overwrite_all (hr.buffer.trans hlen.symm)]
  have hcast : int32 headSize = headSize := int32_natCast (by decide)
  simp [Listener.afterRead, hfill, hr.need, hr.shift, hr.unread, hlen, hcast, Listener.header, hw]

theorem Listener.Payload.message_read {st : Listener} {n : ℕ} (hp : st.Payload n) (data : Bytes)
    (hlen : data.length = n) (hpos : 0 < n) (hn : n < 2 ^ 31) :
    (st.afterRead data).Ready ∧ (st.afterRead data).incoming = st.incoming ++ [data] := by
  obtain ⟨buf, hbuf, hbl⟩ := hp.buffer
  have hfill : st.fill data = { st with msgData := some data } := by
    simp only [Listener.fill, hp.target, hp.shift, hbuf, Option.map_some]
    rw [overwrite_all (hbl.trans hlen.symm)]
  have hann : (PrimaryHeader.ofBytes st.primeHead).dataSize.toNat = n := hp.announced
  have hst : st.afterRead data =
      ({ st with msgData := some data, shift := n } : Listener).deliver := by
    simp [Listener.afterRead, hfill, hp.need, hp.shift, hp.headed, hlen, int32_natCast hn,
      Listener.header, hann, hpos]
  rw [hst]
  refine ⟨⟨rfl, rfl, rfl, rfl, by simp [Listener.deliver]⟩, ?_⟩
  simp [Listener.deliver, hp.size, ← hlen]

end ToolkitCpp.Pipe

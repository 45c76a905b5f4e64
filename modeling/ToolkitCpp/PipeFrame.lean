import ToolkitCpp.Machine
import ToolkitCpp.Text

/-!
# Frames on the command pipe

The eight bytes of `PrimaryHeader_t`, and `PipeClient::sendToStream`, which writes one
header and then the message. Both ends run on little-endian machines and share the
structure's layout, which has no padding.
-/
namespace ToolkitCpp.Pipe

def leBytes : ℕ → ℕ → Bytes
  | 0, _ => []
  | k + 1, n => UInt8.ofNat n :: leBytes k (n / 256)

def leValue : Bytes → ℕ
  | [] => 0
  | b :: bs => b.toNat + 256 * leValue bs

@[simp] theorem leBytes_length (k n : ℕ) : (leBytes k n).length = k := by
  induction k generalizing n with
  | zero => rfl
  | succ k ih => simp [leBytes, ih]

theorem leValue_leBytes (k n : ℕ) : leValue (leBytes k n) = n % 256 ^ k := by
  induction k generalizing n with
  | zero => simp [leBytes, leValue, Nat.mod_one]
  | succ k ih =>
    rw [leBytes, leValue, ih, UInt8.toNat_ofNat', pow_succ' 256 k, Nat.mod_mul]

/-- `PrimaryHeader_t`, with the defaults of its declaration. -/
structure PrimaryHeader where
  magicWord : UInt16 := 0xFDE8
  length : UInt8 := 8
  typeMsg : UInt8 := 0
  dataSize : UInt32
  deriving DecidableEq, Repr

def headSize : ℕ := 8

def PrimaryHeader.bytes (h : PrimaryHeader) : Bytes :=
  leBytes 2 h.magicWord.toNat ++
    (leBytes 1 h.length.toNat ++ (leBytes 1 h.typeMsg.toNat ++ leBytes 4 h.dataSize.toNat))

def PrimaryHeader.ofBytes (b : Bytes) : PrimaryHeader where
  magicWord := UInt16.ofNat (leValue (b.take 2))
  length := UInt8.ofNat (leValue ((b.drop 2).take 1))
  typeMsg := UInt8.ofNat (leValue ((b.drop 3).take 1))
  dataSize := UInt32.ofNat (leValue ((b.drop 4).take 4))

@[simp] theorem PrimaryHeader.bytes_length (h : PrimaryHeader) : h.bytes.length = headSize := by
  simp [PrimaryHeader.bytes, headSize]

theorem PrimaryHeader.ofBytes_bytes (h : PrimaryHeader) : ofBytes h.bytes = h := by
  have h2 := leValue_leBytes 2 h.magicWord.toNat
  have hl := leValue_leBytes 1 h.length.toNat
  have ht := leValue_leBytes 1 h.typeMsg.toNat
  have hd := leValue_leBytes 4 h.dataSize.toNat
  have d3 : h.bytes.drop 3 = leBytes 1 h.typeMsg.toNat ++ leBytes 4 h.dataSize.toNat := by
    simp [bytes, leBytes]
  have d4 : h.bytes.drop 4 = leBytes 4 h.dataSize.toNat := by simp [bytes, leBytes]
  have d2 : (h.bytes.drop 2).take 1 = leBytes 1 h.length.toNat := by simp [bytes, leBytes]
  have t2 : h.bytes.take 2 = leBytes 2 h.magicWord.toNat := by simp [bytes, leBytes]
  have t3 : (h.bytes.drop 3).take 1 = leBytes 1 h.typeMsg.toNat := by simp [d3, leBytes]
  have t4 : (h.bytes.drop 4).take 4 = leBytes 4 h.dataSize.toNat := by simp [d4, leBytes]
  cases h
  simp only [ofBytes, t2, d2, t3, t4, h2, hl, ht, hd, PrimaryHeader.mk.injEq]
  simp

/-- The test `startListen` makes on a complete header. -/
def PrimaryHeader.WellFormed (h : PrimaryHeader) : Prop :=
  h.magicWord = 0xFDE8 ∧ h.length.toNat = headSize

instance (h : PrimaryHeader) : Decidable h.WellFormed :=
  inferInstanceAs (Decidable (_ ∧ _))

/-- `PipeDesc_t` without the flags for `open`. -/
structure PipeDesc where
  path : Str := []
  fd : ℤ := -1
  maxSize : ℤ := 0
  isOpen : Bool := false
  deriving DecidableEq, Repr

/-- A pipe as `openPipeFile` leaves it. -/
def PipeDesc.fresh : PipeDesc := { fd := 3, maxSize := 65536, isOpen := true }

/-- `PipeTransportKit::changeMaxSize`, given what `F_GETPIPE_SZ` answers afterwards. -/
def changeMaxSize (pipe : PipeDesc) (granted : ℤ) : PipeDesc :=
  { pipe with maxSize := granted, isOpen := if granted < 0 then false else pipe.isOpen }

/-- The pipe after the test before a write, which enlarges one that is too small. -/
def PipeDesc.enlarged (pipe : PipeDesc) (size granted : ℤ) : PipeDesc :=
  if pipe.maxSize < size then changeMaxSize pipe granted else pipe

/-- The pipe is open then if it was open and was enlarged if it was too small. -/
theorem PipeDesc.enlarged_isOpen_iff (pipe : PipeDesc) (size granted : ℤ) :
    (pipe.enlarged size granted).isOpen = true ↔
      pipe.isOpen = true ∧ (pipe.maxSize < size → 0 ≤ granted) := by
  rw [enlarged]
  by_cases hsmall : pipe.maxSize < size
  · by_cases hneg : granted < 0
    · simp [hsmall, changeMaxSize, hneg]
    · simp [hsmall, changeMaxSize, hneg, Int.not_lt.mp hneg]
  · simp [hsmall]

def accepted (data : Bytes) (ret : ℤ) : Bytes := data.take ret.toNat

structure SendOutcome where
  granted : ℤ
  headRet : ℤ
  dataRet : ℤ
  deriving DecidableEq, Repr

/-- `PipeClient::sendToStream`: the pipe afterwards, the bytes put into it and the result. -/
def sendToStream (pipe : PipeDesc) (msg : Bytes) (os : SendOutcome) : PipeDesc × Bytes × Bool :=
  let pipe := pipe.enlarged (int32 msg.length) os.granted
  if !pipe.isOpen then (pipe, [], false)
  else
    let primeHead : PrimaryHeader := { dataSize := UInt32.ofNat msg.length }
    let head := accepted primeHead.bytes os.headRet
    if os.headRet ≠ headSize then (pipe, head, false)
    else if os.dataRet ≠ int32 msg.length then (pipe, head ++ accepted msg os.dataRet, false)
    else (pipe, head ++ accepted msg os.dataRet, true)

theorem sendToStream_pipe (pipe : PipeDesc) (msg : Bytes) (os : SendOutcome) :
    (sendToStream pipe msg os).1 = pipe.enlarged (int32 msg.length) os.granted := by
  simp only [sendToStream, apply_ite Prod.fst, ite_self]

/-- The call succeeds when the pipe is open, is enlarged if it is too small, and both writes take
all. -/
theorem sendToStream_true_iff (pipe : PipeDesc) (msg : Bytes) (os : SendOutcome) :
    (sendToStream pipe msg os).2.2 = true ↔ pipe.isOpen = true ∧
      (pipe.maxSize < int32 msg.length → 0 ≤ os.granted) ∧ os.headRet = headSize ∧
        os.dataRet = int32 msg.length := by
  rw [← and_assoc, ← PipeDesc.enlarged_isOpen_iff]
  simp only [sendToStream]
  cases (pipe.enlarged (int32 msg.length) os.granted).isOpen with
  | false => simp
  | true =>
    by_cases hhead : os.headRet = headSize
    · by_cases hdata : os.dataRet = int32 msg.length
      · simp [hhead, hdata]
      · simp [hhead, hdata]
    · simp [hhead]

def frame (msg : Bytes) : Bytes :=
  ({ dataSize := UInt32.ofNat msg.length } : PrimaryHeader).bytes ++ msg

lemma frame_header {m : Bytes} (hm : m.length < 2 ^ 32) :
    (PrimaryHeader.ofBytes ((frame m).take headSize)).WellFormed ∧
      (PrimaryHeader.ofBytes ((frame m).take headSize)).dataSize.toNat = m.length := by
  have ht : (frame m).take headSize =
      ({ dataSize := UInt32.ofNat m.length } : PrimaryHeader).bytes := by
    rw [frame, List.take_left' (PrimaryHeader.bytes_length _)]
  rw [ht, PrimaryHeader.ofBytes_bytes]
  refine ⟨⟨rfl, rfl⟩, ?_⟩
  simpa using Nat.mod_eq_of_lt hm

lemma frame_drop (m : Bytes) : (frame m).drop headSize = m := by
  rw [frame, List.drop_left' (PrimaryHeader.bytes_length _)]

lemma frame_length (m : Bytes) : (frame m).length = headSize + m.length := by
  simp [frame]

/-- With both writes accepted in full, `sendToStream` succeeds and has written one frame. -/
theorem sendToStream_frame (pipe : PipeDesc) (msg : Bytes) (hopen : pipe.isOpen = true)
    (hroom : (msg.length : ℤ) ≤ pipe.maxSize) (hlen : msg.length < 2 ^ 31) :
    sendToStream pipe msg ⟨0, headSize, msg.length⟩ = (pipe, frame msg, true) := by
  have hcast := int32_natCast hlen
  have hhead : ({ dataSize := UInt32.ofNat msg.length } : PrimaryHeader).bytes.take 8 =
      ({ dataSize := UInt32.ofNat msg.length } : PrimaryHeader).bytes :=
    List.take_of_length_le (by simp [headSize])
  have hpipe : pipe.enlarged msg.length 0 = pipe := if_neg (not_lt.mpr hroom)
  simp [sendToStream, hcast, hpipe, hopen, frame, accepted, headSize, hhead]

end ToolkitCpp.Pipe

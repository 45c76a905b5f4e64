import ToolkitCpp.Clock
import ToolkitCpp.GuardedRuns
import ToolkitCpp.Text

/-!
# The COM port manager

`TComPortManager` with the answers of the system calls as arguments, and its runs together with
an observer of the calls. `readBytes` is a loop over `poll` and `read`; it keeps the number of
bytes in an `int` and compares it with a `size_t`.
-/
namespace ToolkitCpp.ComPort
open GuardedRuns Clock

inductive DeviceStatuses
  | empty
  | off
  | error
  | on
  deriving DecidableEq, Repr

structure TComPortManager where
  fd : ℤ := -1
  path : Str := []
  status : DeviceStatuses := .empty
  timeActivity : ℤ := 0
  errorCountRead : ℤ := 0
  errorCountWrite : ℤ := 0
  maxWaitBytesSec : ℤ := -1
  maxErrorCountRead : ℤ := 1
  maxErrorCountWrite : ℤ := 1
  deriving DecidableEq, Repr

/-- A signed number converted to `size_t`. -/
def toSize (i : ℤ) : ℕ := (i % 2 ^ 64).toNat

/-- The answers of the system to `openPort`; `fd` is `none` when `open` fails. -/
structure OpenAnswer where
  fd : Option ℕ := some 3
  tcgetattr : ℤ := 0
  cfsetispeed : ℤ := 0
  cfsetospeed : ℤ := 0
  tcsetattr : ℤ := 0
  deriving DecidableEq, Repr

def TComPortManager.closePort (p : TComPortManager) : TComPortManager :=
  { p with fd := -1, status := .off, timeActivity := 0, errorCountRead := 0 }

def TComPortManager.setPortOptions (p : TComPortManager) (o : OpenAnswer) :
    TComPortManager × Bool :=
  if o.tcgetattr < 0 then ({ p with status := .error }, false)
  else if o.cfsetispeed < 0 then ({ p with status := .error }, false)
  else if o.cfsetospeed < 0 then ({ p with status := .error }, false)
  else if o.tcsetattr < 0 then ({ p with status := .error }, false)
  else (p, true)

/-- The beginning of `openPort`: the path is stored, and a port that is still open is closed. -/
def TComPortManager.prepare (p : TComPortManager) (devicePath : Str) : TComPortManager :=
  let p : TComPortManager := { p with path := devicePath }
  if p.fd ≥ 0 then p.closePort else p

def TComPortManager.openPort (p : TComPortManager) (devicePath : Str) (o : OpenAnswer) (now : ℕ) :
    TComPortManager × Bool :=
  let p := p.prepare devicePath
  if devicePath = [] then ({ p with status := .empty }, false)
  else
    match o.fd with
    | none => ({ p with fd := -1, status := .off }, false)
    | some fd =>
        let opened : TComPortManager := { p with fd := fd }
        let (p, retOK) := opened.setPortOptions o
        if retOK then
          ({ p with status := .on, errorCountRead := 0, timeActivity := getChrono now }, true)
        else (p, false)

def TComPortManager.checkAlivePort (p : TComPortManager) (now : ℕ) : TComPortManager × Bool :=
  let failed : TComPortManager := { p with status := .error }
  if p.fd ≥ 0 then
    if p.maxWaitBytesSec > 0 ∧ getChrono now - p.timeActivity > p.maxWaitBytesSec then
      (failed.closePort, false)
    else if p.errorCountRead > p.maxErrorCountRead then (failed.closePort, false)
    else if p.errorCountWrite > p.maxErrorCountWrite then (failed.closePort, false)
    else (p, true)
  else (p, false)

/-- What `poll` and, after `POLLIN`, `read` return. -/
inductive Poll
  | timeout
  | interrupted
  | error
  | noInput
  | input (result : ℤ)
  deriving DecidableEq, Repr

/-- An iteration of the loop of `readBytes`: the milliseconds since `start_time`, and the answer
of `poll` if it is called. -/
structure Iteration where
  elapsed : ℕ
  poll : Poll
  deriving DecidableEq, Repr

/-- `obtained` is the number of bytes that `read` has delivered to this call. -/
structure ReadLoop where
  bytesread : ℤ := 0
  broken : Bool := false
  obtained : ℕ := 0
  deriving DecidableEq, Repr

def ReadLoop.iterate (mlsecTimeout : ℤ) (l : ReadLoop) (it : Iteration) : ReadLoop :=
  if int32 (mlsecTimeout - it.elapsed) ≤ 0 then { l with broken := true }
  else
    match it.poll with
    | .input result =>
        if result = -1 then { l with bytesread := -1, broken := true }
        else if result = 0 then { l with broken := true }
        else
          { l with
            bytesread := int32 (l.bytesread + result)
            obtained := l.obtained + result.toNat }
    | .noInput => l
    | .error => { l with bytesread := -1, broken := true }
    | .interrupted => l
    | .timeout => { l with broken := true }

/-- There is time left, and `poll` or `read` fails. -/
def Iteration.Fails (mlsecTimeout : ℤ) (it : Iteration) : Prop :=
  0 < int32 (mlsecTimeout - it.elapsed) ∧ (it.poll = .error ∨ it.poll = .input (-1))

def ReadLoop.GoesOn (numByte : ℕ) (l : ReadLoop) : Prop :=
  l.broken = false ∧ toSize l.bytesread < numByte

/-- What `read` may answer to a request for `count` bytes: never more than that, nor more than the
kernel's limit for one call, and nothing but an error if `count` is above `SSIZE_MAX`. -/
def Poll.Possible (count : ℕ) : Poll → Prop
  | .input result =>
      result = -1 ∨ 0 ≤ result ∧ result ≤ count ∧ result ≤ 2147479552 ∧ count < 2 ^ 63
  | _ => True

instance (numByte : ℕ) (l : ReadLoop) : Decidable (l.GoesOn numByte) :=
  inferInstanceAs (Decidable (_ ∧ _))

instance (count : ℕ) : DecidablePred (Poll.Possible count)
  | .input _ => inferInstanceAs (Decidable (_ ∨ _ ∧ _ ∧ _ ∧ _))
  | .noInput => isTrue trivial
  | .error => isTrue trivial
  | .interrupted => isTrue trivial
  | .timeout => isTrue trivial

def readLoop (numByte : ℕ) (mlsecTimeout : ℤ) : System ReadLoop Iteration where
  possible l it := l.GoesOn numByte ∧ it.poll.Possible (numByte - toSize l.bytesread)
  step := ReadLoop.iterate mlsecTimeout

instance (numByte : ℕ) (mlsecTimeout : ℤ) (l : ReadLoop) (it : Iteration) :
    Decidable ((readLoop numByte mlsecTimeout).possible l it) :=
  inferInstanceAs (Decidable (_ ∧ _))

/-- A call of `readBytes` with the iterations that its loop makes. -/
structure ReadCall where
  numByte : ℕ
  mlsecTimeout : ℤ
  iterations : List Iteration
  deriving DecidableEq, Repr

def ReadCall.loop (c : ReadCall) : ReadLoop :=
  (readLoop c.numByte c.mlsecTimeout).run {} c.iterations

def ReadCall.returned (c : ReadCall) : ℤ := c.loop.bytesread

def ReadCall.obtained (c : ReadCall) : ℕ := c.loop.obtained

/-- The iterations are possible ones, and the loop ends after the last of them. -/
structure ReadCall.Possible (c : ReadCall) : Prop where
  size : c.numByte < 2 ^ 64
  legal : (readLoop c.numByte c.mlsecTimeout).Legal {} c.iterations
  ends : ¬ c.loop.GoesOn c.numByte

instance (c : ReadCall) : Decidable c.Possible :=
  decidable_of_iff (_ ∧ _ ∧ _) ⟨fun h => ⟨h.1, h.2.1, h.2.2⟩, fun h => ⟨h.size, h.legal, h.ends⟩⟩

/-- Until the loop breaks off, `bytesread` is the number of bytes obtained. Otherwise it is negative
and as a `size_t` not less than `numByte`. -/
def ReadLoop.Right (numByte : ℕ) (l : ReadLoop) : Prop :=
  l.bytesread = l.obtained ∧ l.obtained < 2 ^ 31 ∨ l.bytesread < 0 ∧ numByte ≤ toSize l.bytesread

lemma toSize_natCast {n : ℕ} (h : n < 2 ^ 64) : toSize n = n := by
  rw [toSize]
  omega

lemma ReadLoop.Right.iterate {numByte : ℕ} {mlsecTimeout : ℤ} {l : ReadLoop} {it : Iteration}
    (hl : l.Right numByte) (hnum : numByte < 2 ^ 64)
    (hit : (readLoop numByte mlsecTimeout).possible l it) :
    (l.iterate mlsecTimeout it).Right numByte := by
  obtain ⟨⟨-, hsize⟩, hpoll⟩ := hit
  rcases hl with ⟨hread, hlt⟩ | ⟨-, hge⟩
  swap
  · omega
  have hsame : l.bytesread = l.obtained ∧ l.obtained < 2 ^ 31 := ⟨hread, hlt⟩
  have herror (l' : ReadLoop) (h : l'.bytesread = -1) : l'.Right numByte := by
    rw [ReadLoop.Right, h, toSize]
    omega
  unfold ReadLoop.iterate
  split_ifs
  · exact .inl hsame
  cases hp : it.poll with
  | input result =>
    dsimp only
    split_ifs with hminus hzero
    · exact herror _ rfl
    · exact .inl hsame
    · rw [hp] at hpoll
      rcases hpoll with h | ⟨hpos, hcount, hmax, hssize⟩
      · exact absurd h hminus
      · -- the sum may pass the range of `int`, but then `numByte` is far below its `size_t` value
        rw [hread, toSize_natCast (by omega)] at hcount hssize hsize
        simp only [ReadLoop.Right, hread, int32_eq]
        rw [toSize]
        omega
  | noInput => exact .inl hsame
  | error => exact herror _ rfl
  | interrupted => exact .inl hsame
  | timeout => exact .inl hsame

/-- What a call returns is what it has obtained, unless it is negative. -/
lemma ReadCall.Possible.right {c : ReadCall} (hc : c.Possible) :
    c.returned = c.obtained ∧ c.obtained < 2 ^ 31 ∨
      c.returned < 0 ∧ c.numByte ≤ toSize c.returned := by
  refine hc.legal.invariant (I := ReadLoop.Right c.numByte) ?_ (.inl ⟨rfl, by decide⟩)
  intro l it hl hit
  exact hl.iterate hc.size hit

/-- After one iteration `bytesread` is the number of bytes obtained, unless `poll` or `read` failed or
the number left the range of `int`. -/
lemma ReadLoop.iterate_nonneg_iff {numByte : ℕ} {mlsecTimeout : ℤ} {l : ReadLoop} {it : Iteration}
    (hread : l.bytesread = l.obtained) (hlt : l.obtained < 2 ^ 31)
    (hit : (readLoop numByte mlsecTimeout).possible l it) :
    0 ≤ (l.iterate mlsecTimeout it).bytesread ↔
      ¬ it.Fails mlsecTimeout ∧ (l.iterate mlsecTimeout it).obtained < 2 ^ 31 := by
  obtain ⟨-, hpoll⟩ := hit
  unfold ReadLoop.iterate Iteration.Fails
  split_ifs with htime
  · simpa [hread, not_lt.mpr htime] using hlt
  rw [not_le] at htime
  cases hp : it.poll with
  | input result =>
    rw [hp] at hpoll
    dsimp only
    split_ifs with hminus hzero
    · simp [hminus, htime]
    · simpa [hread, hzero] using hlt
    · rcases hpoll with h | ⟨hpos, -, hmax, -⟩
      · exact absurd h hminus
      · simp only [hread, int32_eq, Poll.input.injEq, hminus, or_self, and_false,
          not_false_eq_true, true_and]
        omega
  | error => simp [htime]
  | noInput => simpa [hread] using hlt
  | interrupted => simpa [hread] using hlt
  | timeout => simpa [hread] using hlt

lemma readLoop_nonneg_iff {numByte : ℕ} {mlsecTimeout : ℤ} (hnum : numByte < 2 ^ 64)
    {its : List Iteration} {l : ReadLoop} (hl : (readLoop numByte mlsecTimeout).Legal l its)
    (hread : l.bytesread = l.obtained) (hlt : l.obtained < 2 ^ 31) :
    0 ≤ ((readLoop numByte mlsecTimeout).run l its).bytesread ↔
      (∀ it ∈ its, ¬ it.Fails mlsecTimeout) ∧
        ((readLoop numByte mlsecTimeout).run l its).obtained < 2 ^ 31 := by
  induction its generalizing l with
  | nil => simpa [System.run, hread] using hlt
  | cons it its ih =>
    have hiff := ReadLoop.iterate_nonneg_iff hread hlt hl.1
    have hright : (l.iterate mlsecTimeout it).Right numByte :=
      ReadLoop.Right.iterate (.inl ⟨hread, hlt⟩) hnum hl.1
    rw [System.run_cons]
    rcases hright with ⟨hread', hlt'⟩ | ⟨hneg, hge⟩
    · have hok : ¬ it.Fails mlsecTimeout := by
        refine (hiff.mp ?_).1
        rw [hread']
        exact Int.natCast_nonneg _
      rw [List.forall_mem_cons, and_iff_right hok]
      exact ih hl.2 hread' hlt'
    · -- the loop has ended
      have hnil : its = [] := by
        cases its with
        | nil => rfl
        | cons it' its =>
          have hgoes : (l.iterate mlsecTimeout it).GoesOn numByte := hl.2.1.1
          exact absurd hgoes.2 (not_lt.mpr hge)
      subst hnil
      rw [System.run_nil, List.forall_mem_singleton]
      exact hiff

/-- What a call returns is negative exactly if a `poll` or `read` failed, or if the number of bytes
left the range of `int`. -/
lemma ReadCall.Possible.returned_nonneg_iff {c : ReadCall} (hc : c.Possible) : 0 ≤ c.returned ↔
    (∀ it ∈ c.iterations, ¬ it.Fails c.mlsecTimeout) ∧ c.obtained < 2 ^ 31 :=
  readLoop_nonneg_iff hc.size hc.legal rfl (by decide)

def TComPortManager.readBytes (p : TComPortManager) (c : ReadCall) (now : ℕ) :
    TComPortManager × ℤ :=
  ({ p with
      errorCountRead := if toSize c.returned < c.numByte then int32 (p.errorCountRead + 1) else 0
      timeActivity := getChrono now }, c.returned)

/-- `n` is what `write` returns. -/
def TComPortManager.writeBytes (p : TComPortManager) (numByte : ℕ) (n : ℤ) (now : ℕ) :
    TComPortManager × ℤ :=
  let p :=
    if n = -1 then p.closePort
    else if toSize n < numByte then { p with errorCountWrite := int32 (p.errorCountWrite + 1) }
    else { p with errorCountWrite := 0 }
  ({ p with timeActivity := getChrono now }, n)

/-- `openedAt` is the time of the last `openPort` that obtained a descriptor, `receivedAt` that of
the last `readBytes` that received a byte, and `activeAt` that of the last call of `readBytes` or
`writeBytes` or successful `openPort` since the port was closed. `incomplete` counts the
consecutive incomplete reads on this port and `shortWrites` the incomplete writes since the last
complete one. -/
structure Session where
  port : TComPortManager
  now : ℕ
  openedAt : Option ℕ := none
  receivedAt : Option ℕ := none
  activeAt : Option ℕ := none
  incomplete : ℕ := 0
  shortWrites : ℕ := 0
  deriving DecidableEq, Repr

inductive Event
  | openPort (devicePath : Str) (o : OpenAnswer)
  | closePort
  | readBytes (c : ReadCall)
  | writeBytes (numByte : ℕ) (n : ℤ)
  | checkAlivePort
  | tick (ns : ℕ)
  deriving DecidableEq, Repr

/-- The observer sees the port closed. -/
def Session.closed (s : Session) : Session := { s with activeAt := none, incomplete := 0 }

def Session.observe (s : Session) : Event → Session
  | .openPort path o =>
      let s' := if 0 ≤ s.port.fd then s.closed else s
      let s' := if path ≠ [] ∧ o.fd.isSome then { s' with openedAt := some s.now } else s'
      if (s.port.openPort path o s.now).2 then
        { s' with activeAt := some s.now, incomplete := 0 }
      else s'
  | .closePort => s.closed
  | .readBytes c =>
      { s with
        receivedAt := if 0 < c.obtained then some s.now else s.receivedAt
        activeAt := some s.now
        incomplete := if c.obtained < c.numByte then s.incomplete + 1 else 0 }
  | .writeBytes numByte n =>
      { s with
        activeAt := some s.now
        incomplete := if n = -1 then 0 else s.incomplete
        shortWrites := if n = -1 then s.shortWrites
                       else if n < numByte then s.shortWrites + 1 else 0 }
  | .checkAlivePort => if 0 ≤ s.port.fd ∧ (s.port.checkAlivePort s.now).2 = false then s.closed else s
  | .tick _ => s

def TComPortManager.step (p : TComPortManager) (now : ℕ) : Event → TComPortManager
  | .openPort path o => (p.openPort path o now).1
  | .closePort => p.closePort
  | .readBytes c => (p.readBytes c now).1
  | .writeBytes numByte n => (p.writeBytes numByte n now).1
  | .checkAlivePort => (p.checkAlivePort now).1
  | .tick _ => p

def Session.step (s : Session) (e : Event) : Session :=
  { s.observe e with
    port := s.port.step s.now e
    now := match e with
      | .tick ns => s.now + ns
      | _ => s.now }

def Event.Possible : Event → Prop
  | .readBytes c => c.Possible
  | .writeBytes numByte n => numByte < 2 ^ 64 ∧ (n = -1 ∨ 0 ≤ n ∧ n ≤ numByte)
  | _ => True

instance : DecidablePred Event.Possible
  | .readBytes c => inferInstanceAs (Decidable c.Possible)
  | .writeBytes _ _ => inferInstanceAs (Decidable (_ ∧ (_ ∨ _ ∧ _)))
  | .openPort _ _ => isTrue trivial
  | .closePort => isTrue trivial
  | .checkAlivePort => isTrue trivial
  | .tick _ => isTrue trivial

def sessions : System Session Event := ⟨fun _ e => e.Possible, Session.step⟩

instance (s : Session) (e : Event) : Decidable (sessions.possible s e) :=
  inferInstanceAs (Decidable e.Possible)

/-- The manager as it is constructed, with its settings. -/
def Session.initial (maxWaitBytesSec maxErrorCountRead maxErrorCountWrite : ℤ) (now : ℕ) :
    Session where
  port :=
    { maxWaitBytesSec := maxWaitBytesSec
      maxErrorCountRead := maxErrorCountRead
      maxErrorCountWrite := maxErrorCountWrite }
  now := now

end ToolkitCpp.ComPort

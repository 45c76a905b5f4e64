import ToolkitCpp.PipeDescriptors
import Mathlib.Data.Finset.Erase

/-!
# Reconnecting the pipe client

`createConnection` and `releaseConnection` of `PipeClient` under `BaseTransportClient::run`. A
pipe that is not open holds -1 (as declared, or from a failed `open`) or 0 (after `close`).
`opened` records the descriptors that are really open, `attempts` the calls of `createConnection`.
-/
namespace ToolkitCpp.PipeClient
open GuardedRuns PipeServer
open Pipe (PipeDesc)

structure Client where
  credentials : Str
  isKeepConnect : Bool := true
  dataPipe : PipeDesc := {}
  cmdPipe : PipeDesc := {}
  errInfo : Str := []
  opened : Finset ℤ := ∅
  attempts : ℕ := 0
  deriving DecidableEq

def Client.pipe (s : Client) : Which → PipeDesc
  | .cmd => s.cmdPipe
  | .data => s.dataPipe

def Client.setPipe (s : Client) : Which → PipeDesc → Client
  | .cmd, p => { s with cmdPipe := p }
  | .data, p => { s with dataPipe := p }

/-- `close` succeeds for a descriptor that is open and fails with `EBADF` for any other. -/
def Client.closePipeFile (s : Client) (w : Which) : Client × Bool :=
  let pipe := s.pipe w
  if pipe.fd = 0 then (s, true)
  else if pipe.fd ∈ s.opened then
    ({ s.setPipe w { pipe with fd := 0, isOpen := false } with
        opened := s.opened.erase pipe.fd }, true)
  else
    ({ s.setPipe w { pipe with fd := 0, isOpen := false } with
        errInfo := txt "Ошибка закрытия канала " ++ pipe.path ++
          txt "; errno(9): Bad file descriptor" }, false)

def Client.openPipeFile (s : Client) (w : Which) (a : Answer) : Client × Bool :=
  let s := { s with opened := if 0 ≤ a.ret then insert a.ret s.opened else s.opened }
  let pipe := { s.pipe w with fd := a.ret }
  if a.ret ≤ 0 then
    ({ s.setPipe w pipe with
        errInfo := txt "Ошибка открытия канала " ++ pipe.path ++ txt "; errno(" ++
          toString a.errno ++ txt "): " ++ a.strerror }, false)
  else (s.setPipe w { pipe with isOpen := true, maxSize := a.size }, true)

def Client.releaseConnection (s : Client) : Client × Bool :=
  let (s, retOK) := s.closePipeFile .data
  if retOK then s.closePipeFile .cmd else (s, false)

/-- The paths that `createConnection` sets before it opens the pipes. -/
def Client.named (s : Client) (dataPipePath : Str) : Client :=
  { s with
    dataPipe := { s.dataPipe with path := dataPipePath }
    cmdPipe := { s.cmdPipe with path := dataPipePath ++ txt "_cmd" } }

def Client.createConnection (s : Client) (dataAnswer cmdAnswer : Answer) : Client × Bool :=
  let (dataPipePath, errInfo) := parsePipePath s.credentials s.errInfo
  let s := { s with errInfo := errInfo, attempts := s.attempts + 1 }
  if dataPipePath = [] then (s, false)
  else
    let (s, retOK) := (s.named dataPipePath).openPipeFile .data dataAnswer
    if retOK then s.openPipeFile .cmd cmdAnswer else (s, false)

def Client.checkConnection (s : Client) : Bool :=
  s.dataPipe.fd > 0 && s.dataPipe.isOpen && (s.cmdPipe.fd > 0 && s.cmdPipe.isOpen)

/-- What one iteration of `run` meets: whether the queue has a message when it is looked at
first, what `open` answers for the two pipes, the size of the message taken from the queue later
and the pipe size granted for it. -/
structure Calls where
  queued : Bool := false
  dataAnswer : Answer := {}
  cmdAnswer : Answer := {}
  message : Option ℕ := none
  granted : ℤ := 65536
  deriving DecidableEq

/-- What `sendToStream` does to the descriptor of the command pipe. -/
def Client.sendToStream (s : Client) (msgSize : ℕ) (granted : ℤ) : Client :=
  { s with cmdPipe := s.cmdPipe.enlarged (int32 msgSize) granted }

theorem Client.sendToStream_cmdPipe (s : Client) (msg : Bytes) (os : Pipe.SendOutcome) :
    (s.sendToStream msg.length os.granted).cmdPipe = (Pipe.sendToStream s.cmdPipe msg os).1 := by
  rw [Client.sendToStream, Pipe.sendToStream_pipe]

/-- The second half of an iteration. -/
def Client.sendFront (s : Client) (c : Calls) : Client :=
  match c.message with
  | none => s
  | some msgSize =>
      let s := s.sendToStream msgSize c.granted
      if s.isKeepConnect then s else s.releaseConnection.1

/-- The branch of an iteration that has found no connection. -/
def Client.reconnect (s : Client) (c : Calls) : Client × Bool :=
  let (s, retOK) := s.releaseConnection
  if retOK then
    let (s, retOK) := s.createConnection c.dataAnswer c.cmdAnswer
    (s, retOK && s.checkConnection)
  else (s, false)

def Client.iterate (s : Client) (c : Calls) : Client :=
  if (s.isKeepConnect || c.queued) && !s.checkConnection then
    let (s, retOK) := s.reconnect c
    if retOK then s.sendFront c else s
  else s.sendFront c

/-- An iteration of `run`; `timeoutRead` in `readAnswer` notes that the data pipe was hung up or
is connected again; the owner calls `setIsKeepConnect`. -/
inductive Event
  | iterate (c : Calls)
  | readAnswer (isOpen : Bool)
  | setIsKeepConnect (keep : Bool)
  deriving DecidableEq

def Client.step (s : Client) : Event → Client
  | .iterate c => s.iterate c
  | .readAnswer isOpen => { s with dataPipe := { s.dataPipe with isOpen := isOpen } }
  | .setIsKeepConnect keep => { s with isKeepConnect := keep }

/-- `open` fails with -1 or returns a descriptor that is not in use. -/
def Client.CanAnswer (s : Client) (a : Answer) : Prop :=
  a.ret = -1 ∨ 0 ≤ a.ret ∧ a.ret ∉ s.opened

/-- The answers for both pipes, the data pipe being opened first. -/
def Client.CanOpen (s : Client) (dataAnswer cmdAnswer : Answer) : Prop :=
  s.CanAnswer dataAnswer ∧ (s.openPipeFile .data dataAnswer).1.CanAnswer cmdAnswer

def Client.Possible (s : Client) : Event → Prop
  | .iterate c => s.releaseConnection.1.CanOpen c.dataAnswer c.cmdAnswer
  | .readAnswer _ => True
  | .setIsKeepConnect _ => True

instance (s : Client) (a : Answer) : Decidable (s.CanAnswer a) :=
  inferInstanceAs (Decidable (_ ∨ _ ∧ _))

instance (s : Client) (a b : Answer) : Decidable (s.CanOpen a b) :=
  inferInstanceAs (Decidable (_ ∧ _))

instance (s : Client) : DecidablePred s.Possible
  | .iterate _ => inferInstanceAs (Decidable (Client.CanOpen _ _ _))
  | .readAnswer _ => isTrue trivial
  | .setIsKeepConnect _ => isTrue trivial

def clients : System Client Event := ⟨Client.Possible, Client.step⟩

instance (s : Client) (e : Event) : Decidable (clients.possible s e) :=
  inferInstanceAs (Decidable (s.Possible e))

/-- The constructor, which calls `createConnection`. -/
def constructed (credentials : Str) (dataAnswer cmdAnswer : Answer) : Client :=
  (Client.createConnection { credentials := credentials } dataAnswer cmdAnswer).1

/-- The iteration looks at the connection and finds none. -/
def Client.FindsNone (s : Client) : Event → Prop
  | .iterate c => ((s.isKeepConnect || c.queued) && !s.checkConnection) = true
  | .readAnswer _ => False
  | .setIsKeepConnect _ => False

instance (s : Client) : DecidablePred s.FindsNone
  | .iterate _ => inferInstanceAs (Decidable (_ = _))
  | .readAnswer _ => isFalse id
  | .setIsKeepConnect _ => isFalse id

/-- An iteration that finds no connection calls `createConnection`. -/
def Attempts (s : Client) (e : Event) : Prop :=
  s.FindsNone e → (s.step e).attempts = s.attempts + 1

/-- An iteration that finds no connection finds no pipe at -1. -/
def Settled (s : Client) (e : Event) : Prop :=
  s.FindsNone e → s.dataPipe.fd ≠ -1 ∧ s.cmdPipe.fd ≠ -1

instance (s : Client) (e : Event) : Decidable (Attempts s e) :=
  inferInstanceAs (Decidable (_ → _))

instance (s : Client) (e : Event) : Decidable (Settled s e) :=
  inferInstanceAs (Decidable (_ → _))

variable {s t : Client}

/-- A stored descriptor is -1, 0 or really open, and the two pipes never share one. -/
structure Client.Sound (s : Client) : Prop where
  held : ∀ w, (s.pipe w).fd = -1 ∨ (s.pipe w).fd = 0 ∨ (s.pipe w).fd ∈ s.opened
  distinct : ∀ w, 0 < (s.pipe w).fd → (s.pipe w).fd ≠ (s.pipe w.other).fd
  positive : ∀ d ∈ s.opened, 0 ≤ d

lemma Client.Sound.same (hs : s.Sound) (hfd : ∀ w, (t.pipe w).fd = (s.pipe w).fd)
    (hopened : t.opened = s.opened) : t.Sound := by
  constructor
  · intro w
    rw [hfd, hopened]
    exact hs.held w
  · intro w
    rw [hfd, hfd]
    exact hs.distinct w
  · rw [hopened]
    exact hs.positive

lemma Client.pipe_setPipe (s : Client) (w : Which) (p : PipeDesc) :
    (s.setPipe w p).pipe w = p ∧ (s.setPipe w p).pipe w.other = s.pipe w.other ∧
      (s.setPipe w p).opened = s.opened ∧ (s.setPipe w p).attempts = s.attempts := by
  cases w with
  | cmd => exact ⟨rfl, rfl, rfl, rfl⟩
  | data => exact ⟨rfl, rfl, rfl, rfl⟩

lemma Client.closePipeFile_spec (s : Client) (w : Which) :
    ((s.closePipeFile w).1.pipe w).fd = 0 ∧
      (s.closePipeFile w).1.pipe w.other = s.pipe w.other ∧
      (s.closePipeFile w).1.attempts = s.attempts ∧
      (s.closePipeFile w).1.opened =
        if (s.pipe w).fd = 0 then s.opened else s.opened.erase (s.pipe w).fd := by
  obtain ⟨hpipe, hother, hopened, hattempts⟩ :=
    s.pipe_setPipe w { s.pipe w with fd := 0, isOpen := false }
  unfold Client.closePipeFile
  by_cases hzero : (s.pipe w).fd = 0
  · dsimp only
    rw [if_pos hzero, if_pos hzero]
    exact ⟨hzero, rfl, rfl, rfl⟩
  · by_cases hmem : (s.pipe w).fd ∈ s.opened
    · dsimp only
      rw [if_neg hzero, if_pos hmem, if_neg hzero]
      exact ⟨congrArg PipeDesc.fd hpipe, hother, hattempts, rfl⟩
    · dsimp only
      rw [if_neg hzero, if_neg hmem, if_neg hzero]
      refine ⟨congrArg PipeDesc.fd hpipe, hother, hattempts, ?_⟩
      rw [Finset.erase_eq_of_notMem hmem]
      exact hopened

/-- `close` is refused for a pipe at -1 and for no other. -/
lemma Client.Sound.close_ok (hs : s.Sound) (w : Which) :
    (s.closePipeFile w).2 = true ↔ (s.pipe w).fd ≠ -1 := by
  unfold Client.closePipeFile
  rcases hs.held w with hfd | hfd | hmem
  · have hnot : (-1 : ℤ) ∉ s.opened := by
      intro hmem
      have := hs.positive _ hmem
      omega
    simp [hfd, hnot]
  · simp [hfd]
  · have hpos := hs.positive _ hmem
    have hne : (s.pipe w).fd ≠ -1 := by omega
    by_cases hzero : (s.pipe w).fd = 0
    · simp [hzero]
    · simp [hzero, hmem, hne]

lemma Client.Sound.close (hs : s.Sound) (w : Which) : (s.closePipeFile w).1.Sound := by
  obtain ⟨hfd, hother, -, hopened⟩ := s.closePipeFile_spec w
  constructor
  · intro w'
    rcases w.eq_or_other w' with rfl | rfl
    · exact .inr (.inl hfd)
    · rw [hother, hopened]
      rcases hs.held w.other with h | h | hmem
      · exact .inl h
      · exact .inr (.inl h)
      · refine .inr (.inr ?_)
        split_ifs with hzero
        · exact hmem
        · have hpos := hs.positive _ hmem
          refine Finset.mem_erase.mpr ⟨fun heq => ?_, hmem⟩
          exact hs.distinct w (by omega) heq.symm
  · intro w' hpos
    rcases w.eq_or_other w' with rfl | rfl
    · omega
    · rw [Which.other_other, hother, hfd]
      rw [hother] at hpos
      omega
  · rw [hopened]
    intro d hd
    split_ifs at hd
    · exact hs.positive d hd
    · exact hs.positive d (Finset.mem_of_mem_erase hd)

lemma Client.Sound.release (hs : s.Sound) : s.releaseConnection.1.Sound := by
  simp only [Client.releaseConnection]
  split_ifs
  · exact (hs.close .data).close .cmd
  · exact hs.close .data

lemma Client.release_attempts (s : Client) : s.releaseConnection.1.attempts = s.attempts := by
  simp only [Client.releaseConnection]
  split_ifs
  · rw [((s.closePipeFile .data).1.closePipeFile_spec .cmd).2.2.1]
    exact (s.closePipeFile_spec .data).2.2.1
  · exact (s.closePipeFile_spec .data).2.2.1

/-- The data pipe is closed first, and the command pipe only after it. -/
lemma Client.Sound.release_ok (hs : s.Sound) :
    s.releaseConnection.2 = true ↔ s.dataPipe.fd ≠ -1 ∧ s.cmdPipe.fd ≠ -1 := by
  have hdata := hs.close_ok .data
  have hcmd := (hs.close .data).close_ok .cmd
  rw [show (s.closePipeFile .data).1.pipe .cmd = s.pipe .cmd from
    (s.closePipeFile_spec .data).2.1] at hcmd
  simp only [Client.releaseConnection]
  by_cases hok : (s.closePipeFile .data).2 = true
  · rw [if_pos hok, hcmd]
    exact ⟨fun h => ⟨hdata.mp hok, h⟩, fun h => h.2⟩
  · rw [if_neg hok]
    exact ⟨fun h => absurd h Bool.false_ne_true, fun h => absurd (hdata.mpr h.1) hok⟩

lemma Client.openPipeFile_spec (s : Client) (w : Which) (a : Answer) :
    ((s.openPipeFile w a).1.pipe w).fd = a.ret ∧
      (s.openPipeFile w a).1.pipe w.other = s.pipe w.other ∧
      (s.openPipeFile w a).1.attempts = s.attempts ∧
      (s.openPipeFile w a).1.opened =
        if 0 ≤ a.ret then insert a.ret s.opened else s.opened := by
  unfold Client.openPipeFile
  cases w with
  | cmd =>
    dsimp only
    split_ifs <;> exact ⟨rfl, rfl, rfl, rfl⟩
  | data =>
    dsimp only
    split_ifs <;> exact ⟨rfl, rfl, rfl, rfl⟩

lemma Client.Sound.open (hs : s.Sound) {w : Which} {a : Answer} (ha : s.CanAnswer a) :
    (s.openPipeFile w a).1.Sound := by
  obtain ⟨hfd, hother, -, hopened⟩ := s.openPipeFile_spec w a
  have hmono : ∀ d ∈ s.opened, d ∈ (s.openPipeFile w a).1.opened := by
    intro d hd
    rw [hopened]
    split_ifs
    · exact Finset.mem_insert_of_mem hd
    · exact hd
  have hne : 0 < a.ret → a.ret ≠ (s.pipe w.other).fd := by
    intro hpos heq
    rcases ha with hret | ⟨-, hnew⟩
    · omega
    · rcases hs.held w.other with h | h | hmem
      · omega
      · omega
      · exact hnew (heq ▸ hmem)
  constructor
  · intro w'
    rcases w.eq_or_other w' with rfl | rfl
    · rw [hfd, hopened]
      rcases ha with hret | ⟨hpos, -⟩
      · exact .inl hret
      · rw [if_pos hpos]
        exact .inr (.inr (Finset.mem_insert_self _ _))
    · rw [hother]
      rcases hs.held w.other with h | h | hmem
      · exact .inl h
      · exact .inr (.inl h)
      · exact .inr (.inr (hmono _ hmem))
  · intro w'
    rcases w.eq_or_other w' with rfl | rfl
    · rw [hfd, hother]
      exact hne
    · rw [Which.other_other, hother, hfd]
      intro hpos heq
      exact hne (heq ▸ hpos) heq.symm
  · rw [hopened]
    intro d hd
    split_ifs at hd with hpos
    · rcases Finset.mem_insert.mp hd with rfl | hd
      · exact hpos
      · exact hs.positive d hd
    · exact hs.positive d hd

/-- `createConnection` opens the pipes of a client that differs from `s` in texts and in the
count of attempts only. -/
lemma Client.createConnection_cases (s : Client) (a b : Answer) :
    ∃ t : Client, (∀ w, (t.pipe w).fd = (s.pipe w).fd) ∧ t.opened = s.opened ∧
      t.attempts = s.attempts + 1 ∧
      ((s.createConnection a b).1 = t ∨ (s.createConnection a b).1 = (t.openPipeFile .data a).1 ∨
        (s.createConnection a b).1 = ((t.openPipeFile .data a).1.openPipeFile .cmd b).1) := by
  let path := (parsePipePath s.credentials s.errInfo).1
  let counted : Client :=
    { s with errInfo := (parsePipePath s.credentials s.errInfo).2, attempts := s.attempts + 1 }
  simp only [Client.createConnection]
  split_ifs
  · refine ⟨counted, ?_, rfl, rfl, .inl rfl⟩
    rintro (_ | _) <;> rfl
  · refine ⟨counted.named path, ?_, rfl, rfl, .inr (.inr rfl)⟩
    rintro (_ | _) <;> rfl
  · refine ⟨counted.named path, ?_, rfl, rfl, .inr (.inl rfl)⟩
    rintro (_ | _) <;> rfl

lemma Client.create_attempts (s : Client) (a b : Answer) :
    (s.createConnection a b).1.attempts = s.attempts + 1 := by
  obtain ⟨t, -, -, hattempts, hcreate⟩ := s.createConnection_cases a b
  rcases hcreate with h | h | h
  · rw [h, hattempts]
  · rw [h, (t.openPipeFile_spec .data a).2.2.1, hattempts]
  · rw [h, (Client.openPipeFile_spec _ .cmd b).2.2.1, (t.openPipeFile_spec .data a).2.2.1,
      hattempts]

lemma Client.Sound.create (hs : s.Sound) {a b : Answer} (hab : s.CanOpen a b) :
    (s.createConnection a b).1.Sound := by
  obtain ⟨t, hfd, hopened, -, hcreate⟩ := s.createConnection_cases a b
  have ht : t.Sound := hs.same hfd hopened
  have ha : t.CanAnswer a := by
    unfold Client.CanAnswer
    rw [hopened]
    exact hab.1
  have hb : (t.openPipeFile .data a).1.CanAnswer b := by
    unfold Client.CanAnswer
    rw [(t.openPipeFile_spec .data a).2.2.2, hopened, ← (s.openPipeFile_spec .data a).2.2.2]
    exact hab.2
  rcases hcreate with h | h | h
  · rwa [h]
  · rw [h]
    exact ht.open ha
  · rw [h]
    exact (ht.open ha).open hb

lemma Client.Sound.sendToStream (hs : s.Sound) (msgSize : ℕ) (granted : ℤ) :
    (s.sendToStream msgSize granted).Sound := by
  unfold Client.sendToStream PipeDesc.enlarged
  split_ifs
  · refine hs.same ?_ rfl
    rintro (_ | _) <;> rfl
  · exact hs

lemma Client.Sound.sendFront (hs : s.Sound) (c : Calls) : (s.sendFront c).Sound := by
  unfold Client.sendFront
  cases c.message with
  | none => exact hs
  | some msgSize =>
    have hsent := hs.sendToStream msgSize c.granted
    dsimp only
    split_ifs
    · exact hsent
    · exact hsent.release

lemma Client.sendFront_attempts (s : Client) (c : Calls) :
    (s.sendFront c).attempts = s.attempts := by
  have hsent : ∀ n, (s.sendToStream n c.granted).attempts = s.attempts := by
    intro n
    rw [Client.sendToStream]
  unfold Client.sendFront
  cases c.message with
  | none => rfl
  | some msgSize =>
    dsimp only
    split_ifs
    · exact hsent msgSize
    · rw [Client.release_attempts, hsent msgSize]

lemma Client.Sound.reconnect (hs : s.Sound) {c : Calls}
    (hc : s.releaseConnection.1.CanOpen c.dataAnswer c.cmdAnswer) :
    (s.reconnect c).1.Sound := by
  simp only [Client.reconnect]
  split_ifs
  · exact hs.release.create hc
  · exact hs.release

lemma Client.reconnect_attempts (s : Client) (c : Calls) :
    (s.reconnect c).1.attempts = s.attempts + if s.releaseConnection.2 then 1 else 0 := by
  simp only [Client.reconnect]
  split_ifs
  · rw [Client.create_attempts, Client.release_attempts]
  · exact s.release_attempts

lemma Client.Sound.step (hs : s.Sound) {e : Event} (he : s.Possible e) : (s.step e).Sound := by
  cases e with
  | iterate c =>
    simp only [Client.step, Client.iterate]
    split_ifs
    · exact (hs.reconnect he).sendFront c
    · exact hs.reconnect he
    · exact hs.sendFront c
  | readAnswer isOpen =>
    refine hs.same ?_ rfl
    rintro (_ | _) <;> rfl
  | setIsKeepConnect keep =>
    refine hs.same ?_ rfl
    rintro (_ | _) <;> rfl

/-- An iteration that finds no connection attempts one exactly when both pipes can be closed. -/
lemma Client.Sound.attempts_iff (hs : s.Sound) (e : Event) : Attempts s e ↔ Settled s e := by
  unfold Attempts Settled
  refine imp_congr_right fun hnone => ?_
  cases e with
  | readAnswer isOpen => exact hnone.elim
  | setIsKeepConnect keep => exact hnone.elim
  | iterate c =>
    have hattempts : (s.step (.iterate c)).attempts = (s.reconnect c).1.attempts := by
      simp only [Client.step, Client.iterate]
      rw [if_pos (show (_ && _) = true from hnone)]
      split_ifs
      · exact Client.sendFront_attempts _ c
      · rfl
    rw [hattempts, Client.reconnect_attempts, ← hs.release_ok]
    cases s.releaseConnection.2 with
    | true => simp
    | false => simp

lemma constructed_sound (credentials : Str) {a b : Answer}
    (hab : Client.CanOpen { credentials := credentials } a b) :
    (constructed credentials a b).Sound := by
  have hinitial : Client.Sound { credentials := credentials } := by
    constructor
    · rintro (_ | _)
      · exact .inl rfl
      · exact .inl rfl
    · have hclosed : ¬ (0 : ℤ) < -1 := by decide
      rintro (_ | _) hpos
      · exact absurd hpos hclosed
      · exact absurd hpos hclosed
    · intro d hd
      exact absurd hd (Finset.notMem_empty d)
  exact hinitial.create hab

/-- For every answer of `open` and every run: each iteration that finds no connection calls
`createConnection` exactly when no such iteration starts with a pipe at -1. -/
theorem reconnect_attempted_iff (credentials : Str) (a b : Answer) (es : List Event)
    (hab : Client.CanOpen { credentials := credentials } a b)
    (hl : clients.Legal (constructed credentials a b) es) :
    clients.EachStep Attempts (constructed credentials a b) es ↔
      clients.EachStep Settled (constructed credentials a b) es := by
  refine hl.eachStep_iff (G := Client.Sound) ?_ ?_ (constructed_sound credentials hab)
  · intro s e hs _
    exact hs.attempts_iff e
  · intro s e hs he _
    exact hs.step he

def tmpPipe : Str := txt "pipe:///tmp/pipe"

/-- The server has not created its pipes yet. -/
def noSuchFile : Answer := { ret := -1, errno := 2, strerror := txt "No such file or directory" }

/-- The constructor has opened both pipes; the server then hangs up, and the next iteration
opens them again. -/
theorem reconnect_attempted_iff_hangup :
    clients.EachStep Attempts (constructed tmpPipe { ret := 3 } { ret := 4 })
      [.readAnswer false, .iterate { dataAnswer := { ret := 3 }, cmdAnswer := { ret := 4 } }] :=
  (reconnect_attempted_iff tmpPipe { ret := 3 } { ret := 4 } _ (by decide) (by decide)).mpr
    (by decide)

theorem reconnect_skipped : ¬ ∀ (credentials : Str) (a b : Answer) (es : List Event),
    Client.CanOpen { credentials := credentials } a b →
      clients.Legal (constructed credentials a b) es →
        clients.EachStep Attempts (constructed credentials a b) es := by
  intro h
  have hrun := h tmpPipe noSuchFile {}
    [.iterate { dataAnswer := { ret := 3 }, cmdAnswer := { ret := 4 } }] (by decide) (by decide)
  exact absurd hrun (by decide)

end ToolkitCpp.PipeClient

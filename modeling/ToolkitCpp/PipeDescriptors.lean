import ToolkitCpp.GuardedRuns
import ToolkitCpp.PipeFrame
import ToolkitCpp.Strings
import Mathlib.Data.Finset.Filter
import Mathlib.Data.Finset.Insert

/-!
# Descriptors of the pipe server

`createConnection` of `PipeServer`, called by the constructor and again by each iteration of `run`
that finds no connection. It is cut at the system calls. `opened` records the descriptors that
`open` has returned; nothing here closes one.
-/
namespace ToolkitCpp.PipeServer
open GuardedRuns Segments Strings
open Pipe (PipeDesc)

inductive Which
  | cmd
  | data
  deriving DecidableEq, Repr

/-- The next thing that the server does: begin `createConnection`, one of the system calls for one
of the pipes, start the listening thread, or test the connection in `run`. -/
inductive Pc
  | createConnection
  | access (w : Which)
  | remove (w : Which)
  | mkfifo (w : Which)
  | openFile (w : Which)
  | startListen
  | checkConnection
  deriving DecidableEq, Repr

structure Server where
  credentials : Str
  cmdPipe : PipeDesc := {}
  dataPipe : PipeDesc := {}
  errInfo : Str := []
  opened : Finset ℤ := ∅
  pc : Pc := .createConnection
  deriving DecidableEq

/-- What a system call returns, what `errno` says then, and the size of the pipe. -/
structure Answer where
  ret : ℤ := 0
  errno : ℕ := 0
  strerror : Str := []
  size : ℤ := 65536
  deriving DecidableEq, Repr

/-- The path, empty if the credentials are refused, and the error text. -/
def parsePipePath (credens errInfo : Str) : Str × Str :=
  if startsWith credens (txt "pipe://") then
    let pipePath := ((cutAt (txt "://") credens).map Prod.snd).getD []
    if pipePath = [] then ([], txt "Заданы пустые креды!") else (pipePath, errInfo)
  else if (stdvSplit credens (txt "://")).length > 1 then
    ([], txt "Неверный тип кредов для pipe: " ++ credens)
  else (credens, errInfo)

def Server.pipe (s : Server) : Which → PipeDesc
  | .cmd => s.cmdPipe
  | .data => s.dataPipe

def Server.setPipe (s : Server) : Which → PipeDesc → Server
  | .cmd, p => { s with cmdPipe := p }
  | .data, p => { s with dataPipe := p }

/-- `createConnection` returns false. -/
def Server.fails (s : Server) (what path : Str) (a : Answer) : Server :=
  { s with
    errInfo := what ++ path ++ txt "; errno(" ++ toString a.errno ++ txt "): " ++ a.strerror
    pc := .checkConnection }

/-- After `openPipeFile` has succeeded. -/
def Which.next : Which → Pc
  | .cmd => .access .data
  | .data => .startListen

def Server.openPipeFile (s : Server) (w : Which) (a : Answer) : Server :=
  let s := { s with opened := if 0 ≤ a.ret then insert a.ret s.opened else s.opened }
  let pipe := { s.pipe w with fd := a.ret }
  if a.ret ≤ 0 then (s.setPipe w pipe).fails (txt "Ошибка открытия канала ") pipe.path a
  else { s.setPipe w { pipe with isOpen := true, maxSize := a.size } with pc := w.next }

def Server.step (s : Server) (a : Answer) : Server :=
  match s.pc with
  | .createConnection =>
      let (dataPipePath, errInfo) := parsePipePath s.credentials s.errInfo
      if dataPipePath = [] then { s with errInfo := errInfo, pc := .checkConnection }
      else
        { s with
          errInfo := errInfo
          dataPipe := { s.dataPipe with path := dataPipePath }
          cmdPipe := { s.cmdPipe with path := dataPipePath ++ txt "_cmd" }
          pc := .access .cmd }
  | .access w => { s with pc := if a.ret = 0 then .remove w else .mkfifo w }
  | .remove w =>
      if a.ret ≠ 0 then s.fails (txt "Ошибка удаления пайп-файла ") (s.pipe w).path a
      else { s with pc := .mkfifo w }
  | .mkfifo w => { s with pc := .openFile w }
  | .openFile w => s.openPipeFile w a
  | .startListen => { s with pc := .checkConnection }
  | .checkConnection =>
      if s.dataPipe.fd > 0 ∧ s.cmdPipe.fd > 0 then s else { s with pc := .createConnection }

/-- `open` fails with -1 or returns a descriptor that is not in use. -/
def Pc.Allows (opened : Finset ℤ) (a : Answer) : Pc → Prop
  | .openFile _ => a.ret = -1 ∨ 0 ≤ a.ret ∧ a.ret ∉ opened
  | _ => True

instance (opened : Finset ℤ) (a : Answer) : DecidablePred (Pc.Allows opened a)
  | .openFile _ => inferInstanceAs (Decidable (_ ∨ _ ∧ _))
  | .createConnection => isTrue trivial
  | .access _ => isTrue trivial
  | .remove _ => isTrue trivial
  | .mkfifo _ => isTrue trivial
  | .startListen => isTrue trivial
  | .checkConnection => isTrue trivial

def servers : System Server Answer := ⟨fun s a => s.pc.Allows s.opened a, Server.step⟩

instance (s : Server) (a : Answer) : Decidable (servers.possible s a) :=
  inferInstanceAs (Decidable (s.pc.Allows s.opened a))

/-- The descriptors that are stored. -/
def Server.stored (s : Server) : Finset ℤ :=
  ({s.cmdPipe.fd, s.dataPipe.fd} : Finset ℤ).filter (0 ≤ ·)

/-- The descriptors that are open are those that are stored. -/
def Server.Exact (s : Server) : Prop := s.opened = s.stored

/-- `open` is called for a pipe. -/
def Opens (w : Which) (s : Server) (_ : Answer) : Prop := s.pc = .openFile w

/-- It returns a descriptor; `createConnection` takes 0 for a failure. -/
def Obtains (w : Which) (s : Server) (a : Answer) : Prop := Opens w s a ∧ 0 ≤ a.ret

def OpensOther (w : Which) (s : Server) (a : Answer) : Prop := ¬ Opens w s a

instance : DecidablePred Server.Exact := fun _ => inferInstanceAs (Decidable (_ = _))

def Which.other : Which → Which
  | .cmd => .data
  | .data => .cmd

variable {s t : Server}

lemma exact_iff (w : Which) : s.Exact ↔
    ∀ d, d ∈ s.opened ↔ (d = (s.pipe w).fd ∨ d = (s.pipe w.other).fd) ∧ 0 ≤ d := by
  cases w with
  | cmd => simp [Server.Exact, Server.stored, Server.pipe, Which.other, Finset.ext_iff]
  | data =>
    simp [Server.Exact, Server.stored, Server.pipe, Which.other, Finset.ext_iff, or_comm]

/-- Besides, the two pipes never share a descriptor. -/
structure Server.Sound (s : Server) : Prop where
  exact : s.Exact
  distinct : ∀ w, 0 ≤ (s.pipe w).fd → (s.pipe w).fd ≠ (s.pipe w.other).fd

lemma Server.Sound.same (hs : s.Sound) (hcmd : t.cmdPipe.fd = s.cmdPipe.fd)
    (hdata : t.dataPipe.fd = s.dataPipe.fd) (hopened : t.opened = s.opened) : t.Sound := by
  have hfd : ∀ w, (t.pipe w).fd = (s.pipe w).fd := by
    rintro (_ | _)
    · exact hcmd
    · exact hdata
  constructor
  · rw [exact_iff .cmd, hfd, hfd, hopened, ← exact_iff]
    exact hs.exact
  · intro w
    rw [hfd, hfd]
    exact hs.distinct w

/-- Only `open` changes a descriptor. -/
lemma Server.step_same (h : ∀ w, s.pc ≠ .openFile w) (a : Answer) :
    (s.step a).cmdPipe.fd = s.cmdPipe.fd ∧ (s.step a).dataPipe.fd = s.dataPipe.fd ∧
      (s.step a).opened = s.opened := by
  cases hpc : s.pc with
  | openFile w => exact absurd hpc (h w)
  | createConnection | remove | checkConnection =>
    simp only [Server.step, hpc]
    split_ifs <;> exact ⟨rfl, rfl, rfl⟩
  | _ => simp only [Server.step, hpc, and_self]

lemma Server.openPipeFile_spec (s : Server) (w : Which) (a : Answer) :
    (s.openPipeFile w a).opened = (if 0 ≤ a.ret then insert a.ret s.opened else s.opened) ∧
      ((s.openPipeFile w a).pipe w).fd = a.ret ∧
      (s.openPipeFile w a).pipe w.other = s.pipe w.other := by
  unfold Server.openPipeFile
  cases w with
  | cmd =>
    dsimp only
    split_ifs <;> exact ⟨rfl, rfl, rfl⟩
  | data =>
    dsimp only
    split_ifs <;> exact ⟨rfl, rfl, rfl⟩

@[simp] lemma Which.other_other (w : Which) : w.other.other = w := by
  cases w <;> rfl

lemma Which.eq_or_other (w w' : Which) : w' = w ∨ w' = w.other := by
  cases w <;> cases w' <;> decide

lemma Server.Sound.openPipeFile (hs : s.Sound) {w : Which} {a : Answer}
    (ha : a.ret = -1 ∨ 0 ≤ a.ret ∧ a.ret ∉ s.opened) (hfresh : (s.pipe w).fd < 0) :
    (s.openPipeFile w a).Sound := by
  obtain ⟨hopened, hfd, hother⟩ := s.openPipeFile_spec w a
  have hexact := (exact_iff w).mp hs.exact
  constructor
  · rw [exact_iff w, hopened, hfd, hother]
    intro d
    rcases ha with hret | ⟨hpos, hnew⟩
    · rw [if_neg (by omega), hexact d]
      omega
    · rw [if_pos hpos, Finset.mem_insert, hexact d]
      omega
  · have hne : 0 ≤ (s.pipe w.other).fd → a.ret ≠ (s.pipe w.other).fd := by
      rintro hpos heq
      rcases ha with hret | ⟨-, hnew⟩
      · omega
      · exact hnew ((hexact a.ret).mpr ⟨.inr heq, heq ▸ hpos⟩)
    intro w'
    rcases w.eq_or_other w' with rfl | rfl
    · rw [hfd, hother]
      exact fun hpos heq => hne (heq ▸ hpos) heq
    · rw [Which.other_other, hfd, hother]
      exact fun hpos heq => hne hpos heq.symm

/-- A descriptor that is overwritten stays open. -/
lemma Server.Sound.not_exact (hs : s.Sound) {w : Which} {a : Answer}
    (ha : a.ret = -1 ∨ 0 ≤ a.ret ∧ a.ret ∉ s.opened) (hstale : 0 ≤ (s.pipe w).fd) :
    ¬ (s.openPipeFile w a).Exact := by
  obtain ⟨hopened, hfd, hother⟩ := s.openPipeFile_spec w a
  have hmem : (s.pipe w).fd ∈ s.opened :=
    ((exact_iff w).mp hs.exact _).mpr ⟨.inl rfl, hstale⟩
  have hstill : (s.pipe w).fd ∈ (s.openPipeFile w a).opened := by
    rw [hopened]
    split_ifs
    · exact Finset.mem_insert_of_mem hmem
    · exact hmem
  intro hexact
  obtain ⟨hstored, -⟩ := ((exact_iff w).mp hexact _).mp hstill
  rw [hfd, hother] at hstored
  rcases hstored with heq | heq
  · rcases ha with hret | ⟨-, hnew⟩
    · omega
    · exact hnew (heq ▸ hmem)
  · exact hs.distinct w hstale heq

lemma step_openFile {w : Which} (hpc : s.pc = .openFile w) (a : Answer) :
    s.step a = s.openPipeFile w a := by
  simp only [Server.step, hpc]

lemma allows_openFile {w : Which} (hpc : s.pc = .openFile w) {a : Answer}
    (ha : servers.possible s a) : a.ret = -1 ∨ 0 ≤ a.ret ∧ a.ret ∉ s.opened := by
  simpa only [servers, hpc, Pc.Allows] using ha

/-- A pipe has a descriptor after a step if `open` returned one, or if it had one and was not
opened. -/
lemma pipe_fd_step (w : Which) (a : Answer) : 0 ≤ ((s.step a).pipe w).fd ↔
    Obtains w s a ∨ 0 ≤ (s.pipe w).fd ∧ OpensOther w s a := by
  rw [Obtains, OpensOther, Opens]
  by_cases hopen : ∃ w', s.pc = .openFile w'
  · obtain ⟨w', hpc⟩ := hopen
    obtain ⟨-, hfd, hother⟩ := s.openPipeFile_spec w' a
    rw [step_openFile hpc]
    rcases w'.eq_or_other w with rfl | rfl
    · simp [hfd, hpc]
    · have hne : w' ≠ w'.other := by cases w' <;> decide
      simp [hother, hpc, hne]
  · have hno := not_exists.mp hopen
    obtain ⟨hcmd, hdata, -⟩ := Server.step_same hno a
    have hsame : ((s.step a).pipe w).fd = (s.pipe w).fd := by
      cases w with
      | cmd => exact hcmd
      | data => exact hdata
    simp [hsame, hno w]

/-- Over every sequence of outcomes: the open descriptors are always the stored ones exactly when
no `open` of a pipe that returns a descriptor is followed by another `open` of that pipe. -/
theorem descriptors_exact_iff (credentials : Str) (as : List Answer)
    (hl : servers.Legal { credentials := credentials } as) :
    servers.Along Server.Exact { credentials := credentials } as ↔
      ∀ w, ¬ servers.Follows (Obtains w) (OpensOther w) (Opens w)
        { credentials := credentials } as := by
  have hclosed : ¬ (0 : ℤ) ≤ -1 := by decide
  have hfresh : ∀ w, ¬ 0 ≤ (({ credentials := credentials } : Server).pipe w).fd := by
    rintro (_ | _)
    · exact hclosed
    · exact hclosed
  have hsteps := hl.eachStep_iff_not_follows (G := fun _ => True)
    (C := fun s a => ∀ w, ¬ (0 ≤ (s.pipe w).fd ∧ Opens w s a)) (A := Obtains) (N := OpensOther)
    (F := Opens) (X := fun w s => 0 ≤ (s.pipe w).fd) (fun _ _ _ _ => trivial)
    (fun _ _ _ _ => Iff.rfl) (fun w _ a _ _ => pipe_fd_step w a) trivial
  simp only [hfresh, false_and, not_false_eq_true, true_and] at hsteps
  rw [← hsteps]
  refine hl.along_iff_eachStep (G := Server.Sound) (fun s hs => hs.exact) ?_ ?_ ?_
  · intro s a hs ha hno
    by_cases hopen : ∃ w, s.pc = .openFile w
    · obtain ⟨w, hpc⟩ := hopen
      have hfd : (s.pipe w).fd < 0 := not_le.mp fun hstale => hno w ⟨hstale, hpc⟩
      have hsound := hs.openPipeFile (allows_openFile hpc ha) hfd
      rwa [← step_openFile hpc] at hsound
    · obtain ⟨hcmd, hdata, hopened⟩ := Server.step_same (not_exists.mp hopen) a
      exact hs.same hcmd hdata hopened
  · intro s a hs ha hstale
    simp only [not_forall, not_not] at hstale
    obtain ⟨w, hfd, hpc⟩ := hstale
    have hnot := hs.not_exact (allows_openFile hpc ha) hfd
    rwa [← step_openFile hpc] at hnot
  · exact ⟨rfl, fun w hpos => absurd hpos (hfresh w)⟩

def tmpPipe : Server := { credentials := txt "pipe:///tmp/pipe" }

/-- The constructor opens the command pipe as descriptor 3 and fails to open the data pipe; the
first iteration of `run` then removes the command pipe, creates it anew and opens it as 4. -/
def secondAttempt : List Answer :=
  [{}, { ret := -1 }, {}, { ret := 3 }, { ret := -1 }, {}, { ret := -1 }, {}, {}, {}, {}, {},
    { ret := 4 }]

theorem descriptors_exact_iff_first :
    servers.Along Server.Exact tmpPipe (secondAttempt.take 12) ∧
      ¬ servers.Follows (Obtains .cmd) (OpensOther .cmd) (Opens .cmd) tmpPipe
        (secondAttempt.take 12) := by
  have hexact : servers.Along Server.Exact tmpPipe (secondAttempt.take 12) := by decide
  exact ⟨hexact, (descriptors_exact_iff (txt "pipe:///tmp/pipe") (secondAttempt.take 12)
    (by decide)).mp hexact .cmd⟩

theorem descriptor_lost : ¬ ∀ (credentials : Str) (as : List Answer),
    servers.Legal { credentials := credentials } as →
      servers.Along Server.Exact { credentials := credentials } as := by
  intro h
  have hrun := h (txt "pipe:///tmp/pipe") secondAttempt (by decide)
  exact absurd hrun (by decide)

end ToolkitCpp.PipeServer

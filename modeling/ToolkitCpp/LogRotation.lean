import ToolkitCpp.Text
import Mathlib.Data.List.Infix
import Mathlib.Logic.Function.Basic
import Mathlib.Tactic.Common

/-!
# The new day of the logger

The branch of `LoggerPP::run` for a new day: three copies to the archives of the old date, whose
results nobody looks at, and three truncations. What the system answers to each call is a
parameter. Lines that `LOG` writes are only appended and are left out.
-/
namespace ToolkitCpp.Logger

abbrev Path := Str

abbrev FileSystem := Path → Option (List UInt8)

def BUFSIZ : ℕ := 8192

/-- How many bytes `read` and then `write` grant in one turn of the loop of `copyFile`. -/
structure Turn where
  size : ℕ
  sizeOut : ℕ
  deriving DecidableEq, Repr

/-- The answers to the calls of one `copyFile`. -/
structure CopyAnswers where
  /-- `fopen(to, "rb")`, if the file is there -/
  readable : Bool
  /-- `open(from, O_RDONLY)`, if the file is there -/
  sourceOpens : Bool
  /-- `open(to, O_WRONLY | O_CREAT | O_TRUNC)` -/
  destOpens : Bool
  turns : List Turn
  deriving DecidableEq, Repr

def fileExists (fs : FileSystem) (path : Path) (readable : Bool) : Bool :=
  (fs path).isSome && readable

/-- What the loop writes of what is left of the source, and `ret`. When there are no more turns
`read` has failed, and a failed `write` is one of no bytes. -/
def copyLoop : List Turn → List UInt8 → List UInt8 × Bool
  | [], _ => ([], true)
  | t :: ts, left =>
      let size := min t.size (min BUFSIZ left.length)
      if size = 0 then ([], true)
      else if min t.sizeOut size ≠ size then (left.take (min t.sizeOut size), false)
      else
        let rest := copyLoop ts (left.drop size)
        (left.take size ++ rest.1, rest.2)

def copyFile (fs : FileSystem) (dest source : Path) (override : Bool) (a : CopyAnswers) :
    FileSystem × Bool :=
  if !override && fileExists fs dest a.readable then (fs, false)
  else
    match fs source with
    | none => (fs, false)
    | some content =>
        if !a.sourceOpens then (fs, false)
        else if !a.destOpens then (fs, false)
        else
          let copied := copyLoop a.turns content
          (Function.update fs dest (some copied.1), copied.2)

inductive LogFile
  | global
  | debug
  | error
  deriving DecidableEq, Repr

/-- In the order in which the branch takes them. -/
def LogFile.all : List LogFile := [.global, .debug, .error]

/-- The names of the log files with the archives for a date. Two of the names may be one file, but
no log is configured under the name of an archive. -/
structure LogNames (date : Str) where
  name : LogFile → Path
  name_ne_archive : ∀ f g, name f ≠ name g ++ txt "." ++ date

def LogNames.archive {date : Str} (names : LogNames date) (f : LogFile) : Path :=
  names.name f ++ txt "." ++ date

structure Answers where
  copy : LogFile → CopyAnswers
  /-- `fopen(name, "w")` -/
  truncates : LogFile → Bool

variable {date : Str} (names : LogNames date) (w : Answers)

def copyLogs : List LogFile → FileSystem → FileSystem
  | [], fs => fs
  | f :: rest, fs =>
      copyLogs rest (copyFile fs (names.archive f) (names.name f) false (w.copy f)).1

/-- The truncations; the flag is false when `fclose` got a null pointer, after which nothing
runs. -/
def truncateLogs : List LogFile → FileSystem → FileSystem × Bool
  | [], fs => (fs, true)
  | f :: rest, fs =>
      if w.truncates f then truncateLogs rest (Function.update fs (names.name f) (some []))
      else (fs, false)

def newDay (fs : FileSystem) : FileSystem × Bool :=
  truncateLogs names w LogFile.all (copyLogs names w LogFile.all fs)

/-- The new time stamp and whether there is one. -/
def checkNewDay (lastTimeStamp currTimeStamp : Str) : Str × Bool :=
  if lastTimeStamp ≠ currTimeStamp then (currTimeStamp, true) else (lastTimeStamp, false)

/-- What a turn of `run` does to the files on account of the date. -/
def rotate {lastTimeStamp : Str} (names : LogNames lastTimeStamp) (w : Answers)
    (currTimeStamp : Str) (fs : FileSystem) : FileSystem :=
  if (checkNewDay lastTimeStamp currTimeStamp).2 then (newDay names w fs).1 else fs

/-- The file has these bytes in it. -/
def Holds (fs : FileSystem) (path : Path) (bytes : List UInt8) : Prop :=
  ∃ content, fs path = some content ∧ bytes <:+: content

/-- What was in the log is in its archive or still in the log. -/
def Kept (before after : FileSystem) (f : LogFile) : Prop :=
  ∀ content, before (names.name f) = some content →
    Holds after (names.archive f) content ∨ Holds after (names.name f) content

/-- The turns copy all of a file of this size. -/
def Complete : List Turn → ℕ → Prop
  | [], n => n = 0
  | t :: ts, n => n = 0 ∨ 0 < t.size ∧ min t.size (min BUFSIZ n) ≤ t.sizeOut ∧
      Complete ts (n - min t.size (min BUFSIZ n))

/-- The copy does not end before its loop, given whether its target is there. -/
def Opens (a : CopyAnswers) (there : Prop) : Prop :=
  ¬ (there ∧ a.readable) ∧ a.sourceOpens ∧ a.destOpens

/-- The last copy to the archive of the file that comes to its loop is complete; if there is none,
the archive held the bytes before. -/
def Archived (f : LogFile) (n : ℕ) : List LogFile → Prop → Prop → Prop
  | [], _, held => held
  | g :: rest, there, held =>
      (names.name g = names.name f ∧ Opens (w.copy g) there →
        Archived f n rest True (Complete (w.copy g).turns n)) ∧
      (¬ (names.name g = names.name f ∧ Opens (w.copy g) there) → Archived f n rest there held)

/-- The truncations come to the file. -/
def Truncated (f : LogFile) : List LogFile → Prop
  | [] => False
  | g :: rest => w.truncates g ∧ (names.name g = names.name f ∨ Truncated f rest)

/-- The log is empty or not truncated, or its archive has it. -/
def Safe (fs : FileSystem) (f : LogFile) : Prop :=
  ∀ content, fs (names.name f) = some content →
    content = [] ∨ ¬ Truncated names w f LogFile.all ∨
      Archived names w f content.length LogFile.all (fs (names.archive f)).isSome
        (Holds fs (names.archive f) content)

variable {names w}

lemma name_ne_archive (f g : LogFile) : names.name f ≠ names.archive g := names.name_ne_archive f g

lemma archive_eq_iff {f g : LogFile} :
    names.archive g = names.archive f ↔ names.name g = names.name f := by
  simp [LogNames.archive]

lemma copyLoop_isPrefix (ts : List Turn) (left : List UInt8) : (copyLoop ts left).1 <+: left := by
  induction ts generalizing left with
  | nil => exact List.nil_prefix
  | cons t ts ih =>
    simp only [copyLoop]
    split_ifs
    · exact List.nil_prefix
    · exact List.take_prefix _ _
    · have hrest := ih (left.drop (min t.size (min BUFSIZ left.length)))
      conv_rhs => rw [← List.take_append_drop (min t.size (min BUFSIZ left.length)) left]
      exact (List.prefix_append_right_inj _).mpr hrest

/-- The loop writes everything exactly when the turns are complete. -/
lemma copyLoop_eq_iff (ts : List Turn) (left : List UInt8) :
    (copyLoop ts left).1 = left ↔ Complete ts left.length := by
  induction ts generalizing left with
  | nil => simp [copyLoop, Complete, eq_comm]
  | cons t ts ih =>
    by_cases hnil : left = []
    · simp [hnil, copyLoop, Complete]
    have hpos : 0 < left.length := List.length_pos_iff.mpr hnil
    have hbuf : 0 < BUFSIZ := by decide
    have hrest := ih (left.drop (min t.size (min BUFSIZ left.length)))
    have hle : min t.size (min BUFSIZ left.length) ≤ left.length := by omega
    rw [List.length_drop] at hrest
    rw [Complete, or_iff_right (by omega), ← hrest, copyLoop]
    generalize hsize : min t.size (min BUFSIZ left.length) = size at *
    by_cases hread : t.size = 0
    · have hzero : size = 0 := by omega
      simp [hzero, hread, Ne.symm hnil]
    · have hsome : size ≠ 0 := by omega
      by_cases hwrite : size ≤ t.sizeOut
      · have hall : min t.sizeOut size = size := by omega
        simp only [if_neg hsome, hall, ne_eq, not_true_eq_false, if_false, Nat.pos_of_ne_zero hread,
          hwrite, true_and]
        conv_lhs => rhs; rw [← List.take_append_drop size left]
        exact List.append_right_inj _
      · have hpart : min t.sizeOut size ≠ size := by omega
        have hshort : left.take (min t.sizeOut size) ≠ left := by
          intro h
          have hlen := congrArg List.length h
          rw [List.length_take] at hlen
          omega
        simp [hsome, hpart, hwrite, hshort]

/-- What the loop writes has the whole file in it only as a whole. -/
lemma infix_copyLoop_iff (ts : List Turn) (left : List UInt8) :
    left <:+: (copyLoop ts left).1 ↔ Complete ts left.length := by
  rw [← copyLoop_eq_iff]
  constructor
  · intro h
    exact (copyLoop_isPrefix ts left).eq_of_length_le h.length_le
  · intro h
    rw [h]

lemma copyFile_of_opens {fs : FileSystem} {dest source : Path} {content : List UInt8}
    {a : CopyAnswers} (h : fs source = some content) (ho : Opens a (fs dest).isSome) :
    (copyFile fs dest source false a).1 =
      Function.update fs dest (some (copyLoop a.turns content).1) := by
  obtain ⟨hthere, hs, hd⟩ := ho
  have hexists : fileExists fs dest a.readable = false := by
    rw [fileExists, Bool.eq_false_iff, ne_eq, Bool.and_eq_true]
    exact hthere
  simp [copyFile, hexists, h, hs, hd]

lemma copyFile_of_none {fs : FileSystem} {dest source : Path} (h : fs source = none)
    (a : CopyAnswers) : (copyFile fs dest source false a).1 = fs := by
  simp [copyFile, h]

lemma copyFile_of_not_opens {fs : FileSystem} {dest source : Path} {a : CopyAnswers}
    (ho : ¬ Opens a (fs dest).isSome) : (copyFile fs dest source false a).1 = fs := by
  cases hsrc : fs source with
  | none => exact copyFile_of_none hsrc a
  | some content =>
    by_cases hexists : fileExists fs dest a.readable
    · simp [copyFile, hexists]
    · have hthere : ¬ ((fs dest).isSome ∧ a.readable) := by
        simpa only [fileExists, Bool.and_eq_true] using hexists
      by_cases hs : a.sourceOpens
      · have hd : ¬ a.destOpens := fun hd => ho ⟨hthere, hs, hd⟩
        simp [copyFile, hsrc, hexists, hs, hd]
      · simp [copyFile, hsrc, hexists, hs]

lemma copyFile_of_ne {fs : FileSystem} {dest source path : Path} (h : path ≠ dest)
    (a : CopyAnswers) : (copyFile fs dest source false a).1 path = fs path := by
  cases hsrc : fs source with
  | none => rw [copyFile_of_none hsrc]
  | some content =>
    by_cases ho : Opens a (fs dest).isSome
    · rw [copyFile_of_opens hsrc ho, Function.update_of_ne h]
    · rw [copyFile_of_not_opens ho]

lemma copyLogs_name (l : List LogFile) (fs : FileSystem) (f : LogFile) :
    copyLogs names w l fs (names.name f) = fs (names.name f) := by
  induction l generalizing fs with
  | nil => rfl
  | cons g l ih => rw [copyLogs, ih, copyFile_of_ne (name_ne_archive f g)]

/-- The archive has the log after the copies exactly when it is archived by them. -/
lemma copyLogs_archive {f : LogFile} {content : List UInt8} (l : List LogFile) {fs : FileSystem}
    (h : fs (names.name f) = some content) :
    Holds (copyLogs names w l fs) (names.archive f) content ↔
      Archived names w f content.length l (fs (names.archive f)).isSome
        (Holds fs (names.archive f) content) := by
  induction l generalizing fs with
  | nil => rfl
  | cons g l ih =>
    rw [copyLogs, Archived]
    have hlog : (copyFile fs (names.archive g) (names.name g) false (w.copy g)).1 (names.name f) =
        some content := by rw [copyFile_of_ne (name_ne_archive f g), h]
    rw [ih hlog]
    by_cases hname : names.name g = names.name f
    · have harch := archive_eq_iff.mpr hname
      by_cases ho : Opens (w.copy g) (fs (names.archive f)).isSome
      · have hcopy := copyFile_of_opens h ho
        have hheld : Holds (Function.update fs (names.archive f)
              (some (copyLoop (w.copy g).turns content).1)) (names.archive f) content ↔
            Complete (w.copy g).turns content.length := by
          rw [Holds, Function.update_self]
          simpa using infix_copyLoop_iff (w.copy g).turns content
        rw [harch, hname, hcopy, hheld, Function.update_self]
        simp [ho]
      · rw [harch, copyFile_of_not_opens ho]
        simp [hname, ho]
    · have hne : names.archive f ≠ names.archive g := fun heq => hname (archive_eq_iff.mp heq.symm)
      simp [Holds, copyFile_of_ne hne, hname]

lemma truncateLogs_archive (l : List LogFile) (fs : FileSystem) (f : LogFile) :
    (truncateLogs names w l fs).1 (names.archive f) = fs (names.archive f) := by
  induction l generalizing fs with
  | nil => rfl
  | cons g l ih =>
    rw [truncateLogs]
    split_ifs
    · rw [ih, Function.update_of_ne (name_ne_archive g f).symm]
    · rfl

lemma truncateLogs_name_of_not_truncated {f : LogFile} {l : List LogFile}
    (h : ¬ Truncated names w f l) (fs : FileSystem) :
    (truncateLogs names w l fs).1 (names.name f) = fs (names.name f) := by
  induction l generalizing fs with
  | nil => rfl
  | cons g l ih =>
    rw [Truncated, not_and, not_or] at h
    rw [truncateLogs]
    split_ifs with hopen
    · obtain ⟨hname, hrest⟩ := h hopen
      rw [ih hrest, Function.update_of_ne (Ne.symm hname)]
    · rfl

lemma truncateLogs_name_of_truncated {f : LogFile} {l : List LogFile} (h : Truncated names w f l)
    (fs : FileSystem) : (truncateLogs names w l fs).1 (names.name f) = some [] := by
  induction l generalizing fs with
  | nil => exact h.elim
  | cons g l ih =>
    obtain ⟨hopen, hreach⟩ := h
    rw [truncateLogs, if_pos hopen]
    by_cases hrest : Truncated names w f l
    · exact ih hrest _
    · -- the truncation of `g` is the last one of this file
      have hname := hreach.resolve_right hrest
      rw [truncateLogs_name_of_not_truncated hrest, ← hname, Function.update_self]

lemma newDay_archive {fs : FileSystem} {f : LogFile} {content : List UInt8}
    (h : fs (names.name f) = some content) :
    Holds (newDay names w fs).1 (names.archive f) content ↔
      Archived names w f content.length LogFile.all (fs (names.archive f)).isSome
        (Holds fs (names.archive f) content) := by
  rw [← copyLogs_archive LogFile.all h, Holds, newDay, truncateLogs_archive]
  rfl

/-- The log itself keeps its content exactly when it is empty or not truncated. -/
lemma newDay_name {fs : FileSystem} {f : LogFile} {content : List UInt8}
    (h : fs (names.name f) = some content) :
    Holds (newDay names w fs).1 (names.name f) content ↔
      content = [] ∨ ¬ Truncated names w f LogFile.all := by
  rw [Holds, newDay]
  by_cases htrunc : Truncated names w f LogFile.all
  · rw [truncateLogs_name_of_truncated htrunc]
    simp [htrunc, List.infix_nil]
  · rw [truncateLogs_name_of_not_truncated htrunc, copyLogs_name, h]
    simp [htrunc]

/-- Where no log has the name of an archive, a log is kept over a turn exactly when there is no new
day or the log is safe. -/
theorem rotate_kept_iff {lastTimeStamp : Str} (names : LogNames lastTimeStamp) (w : Answers)
    (currTimeStamp : Str) (fs : FileSystem) (f : LogFile) :
    Kept names fs (rotate names w currTimeStamp fs) f ↔
      lastTimeStamp = currTimeStamp ∨ Safe names w fs f := by
  by_cases hday : lastTimeStamp = currTimeStamp
  · have hsame : rotate names w currTimeStamp fs = fs := by simp [rotate, checkNewDay, hday]
    rw [hsame, or_iff_left_of_imp (fun _ => hday)]
    exact iff_of_true (fun content h => .inr ⟨content, h, List.infix_refl _⟩) hday
  · have hnew : rotate names w currTimeStamp fs = (newDay names w fs).1 := by
      simp [rotate, checkNewDay, hday]
    rw [hnew, or_iff_right hday]
    apply forall_congr'
    intro content
    apply forall_congr'
    intro h
    rw [newDay_archive h, newDay_name h, or_comm, or_assoc]

/-- Names as in a configuration. -/
def dayNames : LogNames (txt "2024-03-30") where
  name
    | .global => txt "main.log"
    | .debug => txt "debug.log"
    | .error => txt "error.log"
  name_ne_archive := by
    intro f g
    cases f <;> cases g <;> decide

/-- Every call succeeds, with one turn for the whole of a short file. -/
def allGranted : Answers where
  copy _ := ⟨true, true, true, [⟨BUFSIZ, BUFSIZ⟩]⟩
  truncates _ := true

/-- The archive of the old date is there from an earlier change of the date: the copy is refused
and the log is truncated. -/
theorem rotate_loses_log : ¬ ∀ (lastTimeStamp : Str) (names : LogNames lastTimeStamp) (w : Answers)
    (currTimeStamp : Str) (fs : FileSystem) (f : LogFile),
    Kept names fs (rotate names w currTimeStamp fs) f := by
  intro h
  let fs : FileSystem := fun path =>
    if path = txt "main.log" then some [2]
    else if path = txt "main.log.2024-03-30" then some [1] else none
  have hkept := h _ dayNames allGranted (txt "2024-03-31") fs .global [2] (by decide)
  have harchive : rotate dayNames allGranted (txt "2024-03-31") fs (dayNames.archive .global) =
      some [1] := by decide
  have hlog : rotate dayNames allGranted (txt "2024-03-31") fs (dayNames.name .global) =
      some [] := by decide
  simp only [Holds, harchive, hlog, Option.some.injEq, exists_eq_left'] at hkept
  exact absurd hkept (by decide)

end ToolkitCpp.Logger

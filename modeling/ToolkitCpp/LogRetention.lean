import ToolkitCpp.Machine
import ToolkitCpp.Text

/-!
# Removal of old log files

`remove_files_older_than` with the walk over the directory. The period is multiplied as a
`uint32_t` and handed over as an `int32_t`, and the age of a file comes from a 64-bit number of
nanoseconds.
-/
namespace ToolkitCpp.Logger
open Segments

/-- A directory entry; the age is `now` less the time of its last writing, in nanoseconds, or
`none` when the latter cannot be read and `last_write_time` throws. -/
structure Entry where
  filename : Str
  isRegularFile : Bool
  age : Option Int64
  deriving DecidableEq, Repr

/-- One step of the `recursive_directory_iterator`: an entry or an exception. -/
inductive Visit
  | entry (e : Entry)
  | throws
  deriving DecidableEq, Repr

/-- `duration_cast<hours>`, which cuts toward zero. -/
def hours (age : Int64) : ℤ := age.toInt.tdiv 3600000000000

def isOlderThan (e : Entry) (hrs : ℤ) : Option Bool :=
  e.age.map fun age => decide (hours age > hrs)

def wanted (ext fileName : Str) : Bool :=
  ext == [] || ext == txt "*" || (cutAt ext fileName).isSome

/-- The chosen files; `none` is an exception. -/
def filesOlderThan (hrs : ℤ) (ext : Str) : List Visit → Option (List Entry)
  | [] => some []
  | .throws :: _ => none
  | .entry e :: rest =>
      if e.isRegularFile then
        match isOlderThan e hrs with
        | none => none
        | some older =>
            (filesOlderThan hrs ext rest).map fun result =>
              if older && wanted ext e.filename then e :: result else result
      else filesOlderThan hrs ext rest

/-- What `fs::remove` does with a file. -/
inductive Removal
  | removed
  | failed
  | throws
  deriving DecidableEq, Repr

/-- The files that `fs::remove` was called for, the count and the flag of the result. -/
structure Cleaning where
  attempted : List Entry
  cnt : ℕ
  done : Bool
  deriving DecidableEq, Repr

def removeFiles (remove : Entry → Removal) : List Entry → Cleaning
  | [] => ⟨[], 0, true⟩
  | e :: rest =>
      match remove e with
      | .throws => ⟨[e], 0, false⟩
      | _ =>
          let next := removeFiles remove rest
          ⟨e :: next.attempted, next.cnt + 1, next.done⟩

/-- `days*24` as the `int32_t` that it is passed as. -/
def hrsOfDays (days : UInt32) : ℤ := int32 (days * 24).toNat

def removeFilesOlderThan (dir : List Visit) (days : UInt32) (ext : Str)
    (remove : Entry → Removal) : Cleaning :=
  match filesOlderThan (hrsOfDays days) ext dir with
  | none => ⟨[], 0, false⟩
  | some files => removeFiles remove files

/-- A regular file with the extension in its name that is older than the hours given. -/
def Aged (hrs : ℤ) (ext : Str) (e : Entry) : Prop :=
  e.isRegularFile ∧ ext <:+: e.filename ∧ ∃ age ∈ e.age, hrs < hours age

/-- Only such files are removed, whatever the directory has. -/
def RemovesOnlyAged (days : UInt32) (ext : Str) : Prop :=
  ∀ (dir : List Visit) (remove : Entry → Removal),
    ∀ e ∈ (removeFilesOlderThan dir days ext remove).attempted, Aged (24 * days.toNat) ext e

lemma wanted_iff {ext fileName : Str} :
    wanted ext fileName = true ↔ ext = txt "*" ∨ ext <:+: fileName := by
  have hcut : (cutAt ext fileName).isSome = true ↔ ext <:+: fileName := by
    rw [← not_iff_not, ← cutAt_eq_none_iff, Option.not_isSome_iff_eq_none]
  rw [wanted, Bool.or_eq_true, Bool.or_eq_true, beq_iff_eq, beq_iff_eq, hcut]
  constructor
  · rintro ((rfl | hstar) | hin)
    · exact .inr List.nil_infix
    · exact .inl hstar
    · exact .inr hin
  · rintro (hstar | hin)
    · exact .inl (.inr hstar)
    · exact .inr hin

lemma mem_removeFiles {remove : Entry → Removal} {files : List Entry} {e : Entry}
    (h : e ∈ (removeFiles remove files).attempted) : e ∈ files := by
  induction files with
  | nil => exact h
  | cons f files ih =>
    rw [removeFiles] at h
    split at h
    · rw [List.mem_singleton] at h
      exact h ▸ List.mem_cons_self
    · rcases List.mem_cons.mp h with rfl | hrest
      · exact List.mem_cons_self
      · exact List.mem_cons_of_mem _ (ih hrest)

/-- A chosen file is regular, older than the hours and wanted. -/
lemma mem_filesOlderThan {hrs : ℤ} {ext : Str} {dir : List Visit} {files : List Entry} {e : Entry}
    (h : filesOlderThan hrs ext dir = some files) (he : e ∈ files) :
    e.isRegularFile ∧ (∃ age ∈ e.age, hrs < hours age) ∧ wanted ext e.filename := by
  induction dir generalizing files with
  | nil =>
    obtain rfl := Option.some.inj h
    exact absurd he List.not_mem_nil
  | cons v dir ih =>
    cases v with
    | throws => exact absurd h.symm (Option.some_ne_none files)
    | entry f =>
      rw [filesOlderThan] at h
      by_cases hreg : f.isRegularFile
      · rw [if_pos hreg] at h
        cases hage : f.age with
        | none =>
          rw [isOlderThan, hage] at h
          exact absurd h.symm (Option.some_ne_none files)
        | some age =>
          simp only [isOlderThan, hage, Option.map_some] at h
          obtain ⟨result, hrest, heq⟩ := Option.map_eq_some_iff.mp h
          split_ifs at heq with hchosen
          · rw [← heq] at he
            rcases List.mem_cons.mp he with rfl | hmem
            · rw [Bool.and_eq_true, decide_eq_true_eq] at hchosen
              exact ⟨hreg, ⟨age, hage, hchosen.1⟩, hchosen.2⟩
            · exact ih hrest hmem
          · exact ih hrest (heq ▸ he)
      · rw [if_neg hreg] at h
        exact ih h he

/-- A directory with one file that is old enough and wanted: the file is removed. -/
lemma removeFilesOlderThan_single {days : UInt32} {ext fileName : Str} {age : Int64}
    (hage : hrsOfDays days < hours age) (hext : wanted ext fileName) :
    (removeFilesOlderThan [.entry ⟨fileName, true, some age⟩] days ext
      fun _ => .removed).attempted = [⟨fileName, true, some age⟩] := by
  have hfiles : filesOlderThan (hrsOfDays days) ext [.entry ⟨fileName, true, some age⟩] =
      some [⟨fileName, true, some age⟩] := by
    simp [filesOlderThan, isOlderThan, hage, hext]
  simp [removeFilesOlderThan, hfiles, removeFiles]

/-- No age has more whole hours. -/
def maxHours : ℤ := 2562047

lemma hours_le_maxHours (age : Int64) : hours age ≤ maxHours := by
  have hlt := age.toInt_lt
  calc hours age ≤ (2 ^ 63 - 1 : ℤ).tdiv 3600000000000 := Int.tdiv_le_tdiv (by decide) (by omega)
    _ = maxHours := by decide

/-- The largest age has them. -/
lemma hours_maxValue : hours Int64.maxValue = maxHours := by decide

lemma hrsOfDays_eq (days : UInt32) :
    hrsOfDays days =
      if 24 * days.toNat % 2 ^ 32 < 2 ^ 31 then ((24 * days.toNat % 2 ^ 32 : ℕ) : ℤ)
      else ((24 * days.toNat % 2 ^ 32 : ℕ) : ℤ) - 2 ^ 32 := by
  have hmul : (days * 24).toNat = 24 * days.toNat % 2 ^ 32 := by
    rw [UInt32.toNat_mul, Nat.mul_comm]
    rfl
  rw [hrsOfDays, int32_eq, hmul]
  split_ifs <;> omega

/-- What is removed is regular, wanted and older than the hours that the period was passed as. -/
lemma mem_attempted {dir : List Visit} {days : UInt32} {ext : Str} {remove : Entry → Removal}
    {e : Entry} (h : e ∈ (removeFilesOlderThan dir days ext remove).attempted) :
    e.isRegularFile ∧ (∃ age ∈ e.age, hrsOfDays days < hours age) ∧ wanted ext e.filename := by
  rw [removeFilesOlderThan] at h
  cases hfiles : filesOlderThan (hrsOfDays days) ext dir with
  | none =>
    rw [hfiles] at h
    exact absurd h List.not_mem_nil
  | some files =>
    rw [hfiles] at h
    exact mem_filesOlderThan hfiles (mem_removeFiles h)

/-- Only aged files are removed exactly when the hours of the period are so many after wrapping
around that no file is ever chosen, or when they fit into the `int32_t` and the extension is not
the star. -/
theorem removesOnlyAged_iff (days : UInt32) (ext : Str) :
    RemovesOnlyAged days ext ↔
      (2562047 ≤ 24 * days.toNat % 2 ^ 32 ∧ 24 * days.toNat % 2 ^ 32 < 2 ^ 31) ∨
      (24 * days.toNat < 2 ^ 31 ∧ ext ≠ txt "*") := by
  have hhrs := hrsOfDays_eq days
  have hmax : maxHours = 2562047 := rfl
  constructor
  · intro h
    by_cases hfew : hrsOfDays days < maxHours
    · right
      -- the oldest file there can be is chosen
      have hwanted : wanted ext (if ext = txt "*" then txt "a" else ext) := by
        rw [wanted_iff]
        split_ifs with hstar
        · exact .inl hstar
        · exact .inr (List.infix_refl ext)
      have hone := removeFilesOlderThan_single (hours_maxValue.symm ▸ hfew) hwanted
      obtain ⟨-, hname, age, hage, hold⟩ := h _ _ _ (hone ▸ List.mem_singleton_self _)
      obtain rfl := Option.some.inj hage
      rw [hours_maxValue, hmax] at hold
      refine ⟨by omega, ?_⟩
      rintro rfl
      exact absurd hname (by decide)
    · left
      split_ifs at hhrs <;> omega
  · rintro (⟨hmany, hfits⟩ | ⟨hfits, hstar⟩) dir remove e he
    · obtain ⟨-, ⟨age, -, hold⟩, -⟩ := mem_attempted he
      have hle := hours_le_maxHours age
      rw [if_pos hfits] at hhrs
      omega
    · obtain ⟨hreg, ⟨age, hage, hold⟩, hwanted⟩ := mem_attempted he
      have hname := (wanted_iff.mp hwanted).resolve_left hstar
      have hmod : 24 * days.toNat % 2 ^ 32 = 24 * days.toNat := Nat.mod_eq_of_lt (by omega)
      rw [hmod, if_pos hfits] at hhrs
      refine ⟨hreg, hname, age, hage, ?_⟩
      omega

/-- With 178956971 days a file that is nine hours old is removed. -/
theorem removes_young_file : ¬ ∀ (days : UInt32) (ext : Str), RemovesOnlyAged days ext := by
  intro h
  have hage : hrsOfDays 178956971 < hours 32400000000000 := by decide
  have hext : wanted (txt ".log.") (txt "main.log.2024-03-30") = true := by decide
  have hone := removeFilesOlderThan_single hage hext
  obtain ⟨-, -, age, hage, hold⟩ := h _ _ _ _ _ (hone ▸ List.mem_singleton_self _)
  obtain rfl := Option.some.inj hage
  exact absurd hold (by decide)

end ToolkitCpp.Logger

import ToolkitCpp.Patterns
import ToolkitCpp.Strings
import Mathlib.Data.Set.Basic

/-!
# The suffix of a configuration

`ConfigManager::getSuffixFromConfig` takes the part behind the last slash and deletes every match
of the expression `.json` in it, whose dot stands for any letter.
-/
namespace ToolkitCpp.Manager
open Segments Strings Patterns

/-- `std::regex(".json")`, a class for each letter. -/
def jsonRegex : List (Char → Bool) := (txt ".json").map atom

def getSuffixFromConfig (inConfigPath : Str) : Str :=
  let l := stdvSplit inConfigPath (txt "/")
  let onlyConfName := l.getLastD []
  if onlyConfName ≠ [] then delete jsonRegex onlyConfName else []

/-- A base name: not empty and without a slash. -/
structure BaseName where
  name : Str
  name_ne : name ≠ []
  no_slash : '/' ∉ name
  deriving DecidableEq

def BaseName.file (b : BaseName) : Str := b.name ++ txt ".json"

/-- The suffix of the file, with its directory and without, is the base name. -/
def SuffixRight (d : Str) (b : BaseName) : Prop :=
  getSuffixFromConfig (d ++ '/' :: b.file) = b.name ∧ getSuffixFromConfig b.file = b.name

/-- That holds for all files of the directory, and no two of them have the same suffix. -/
def DirectoryRight (d : Str) (names : Set BaseName) : Prop :=
  (∀ b ∈ names, SuffixRight d b) ∧
    ∀ b ∈ names, ∀ b' ∈ names,
      getSuffixFromConfig (d ++ '/' :: b.file) = getSuffixFromConfig (d ++ '/' :: b'.file) → b = b'

lemma BaseName.file_ne (b : BaseName) : b.file ≠ [] := by simp [BaseName.file, b.name_ne]

lemma BaseName.file_no_slash (b : BaseName) : '/' ∉ b.file := by
  simp [BaseName.file, b.no_slash, txt]

lemma getSuffixFromConfig_of_last {path : Str} {b : BaseName} {pre : List Str}
    (hne : path ≠ []) (h : lines '/' path = pre ++ [b.file]) :
    getSuffixFromConfig path = delete jsonRegex b.file := by
  have hlast : (stdvSplit path (txt "/")).getLastD [] = b.file := by
    have hsplit : stdvSplit path (txt "/") = lines '/' path := stdvSplit_letter hne '/'
    rw [hsplit, h, List.getLastD_concat]
  simp only [getSuffixFromConfig, hlast]
  rw [if_pos b.file_ne]

/-- The directory does not matter. -/
lemma getSuffixFromConfig_file (d : Str) (b : BaseName) :
    getSuffixFromConfig (d ++ '/' :: b.file) = delete jsonRegex b.file ∧
      getSuffixFromConfig b.file = delete jsonRegex b.file := by
  obtain ⟨p, pre, hlines⟩ := lines_append_last b.file_no_slash b.file_ne d
  have hdir : lines '/' (d ++ '/' :: b.file) = (p :: pre) ++ [b.file] := hlines
  have hfile : lines '/' b.file = [] ++ [b.file] := lines_last b.file_no_slash b.file_ne
  exact ⟨getSuffixFromConfig_of_last (by simp) hdir, getSuffixFromConfig_of_last b.file_ne hfile⟩

/-- Of the file's name the extension is deleted, and what matches in the base name. -/
lemma delete_file (b : BaseName) : delete jsonRegex b.file = delete jsonRegex b.name := by
  have hcut : delete jsonRegex (b.name ++ '.' :: txt "json") =
      delete jsonRegex b.name ++ delete jsonRegex ('.' :: txt "json") :=
    delete_append (by decide) b.name (txt "json")
  have hext : delete jsonRegex ('.' :: txt "json") = [] := by decide
  rw [hext, List.append_nil] at hcut
  exact hcut

/-- The files of a directory have the right suffixes exactly when no base name has `json` in it
behind another letter. -/
theorem directoryRight_iff (d : Str) (names : Set BaseName) :
    DirectoryRight d names ↔ ∀ b ∈ names, ¬ Occurs jsonRegex b.name := by
  have hright : ∀ b, SuffixRight d b ↔ ¬ Occurs jsonRegex b.name := by
    intro b
    obtain ⟨hdir, hfile⟩ := getSuffixFromConfig_file d b
    rw [SuffixRight, hdir, hfile, and_self, delete_file, delete_eq_self_iff (by decide)]
  constructor
  · rintro ⟨hall, -⟩ b hb
    exact (hright b).mp (hall b hb)
  · intro h
    refine ⟨fun b hb => (hright b).mpr (h b hb), ?_⟩
    intro b hb b' hb' heq
    have hname := ((hright b).mpr (h b hb)).1
    have hname' := ((hright b').mpr (h b' hb')).1
    rw [hname, hname'] at heq
    cases b
    cases b'
    cases heq
    rfl

/-- The files `a.json` and `a-json.json` of a directory both have the suffix `a`. -/
theorem suffixes_collide : ¬ ∀ (d : Str) (names : Set BaseName), DirectoryRight d names := by
  intro h
  let short : BaseName := ⟨txt "a", by decide, by decide⟩
  let long : BaseName := ⟨txt "a-json", by decide, by decide⟩
  have hsame : short = long := (h (txt "conf") Set.univ).2 short (Set.mem_univ _) long
    (Set.mem_univ _) (by decide)
  exact absurd hsame (by decide)

end ToolkitCpp.Manager

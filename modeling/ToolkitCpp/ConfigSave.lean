import ToolkitCpp.JsonPath

/-!
# Saving the configuration

`ConfigManager::saveOutConfig` writes a temporary file next to the output file, renames it
and corrects owner and mode. The result of each step is assigned to the same variable, so
only the last assignment counts. What the file system answers comes from outside.
-/
namespace ToolkitCpp.Manager
open Json

structure OutFile where
  content : Bytes
  owner : ℕ × ℕ
  mode : ℕ
  deriving DecidableEq, Repr

/-- The file at `m_outConfigPath` and the one with `~` appended to its name. -/
structure OutDir where
  out : Option OutFile
  tmp : Option OutFile
  deriving DecidableEq, Repr

/-- What the file system answers during one save: whether the temporary file can be opened
and what a new one would belong to, how many bytes `fwrite` reports and how many reach the
file, and whether the three calls on the finished file succeed. -/
structure SaveOutcome where
  fopen : Bool
  newOwner : ℕ × ℕ
  newMode : ℕ
  fwrite : ℕ
  flushed : ℕ
  rename : Bool
  chown : Bool
  chmod : Bool
  deriving DecidableEq, Repr

/-- `TBaseJsonWork::saveJson`. The result of `fclose` is ignored. -/
def saveJson (out : Bytes) (file : Option OutFile) (o : SaveOutcome) : Option OutFile × Bool :=
  if o.fopen then
    let f := file.getD ⟨[], o.newOwner, o.newMode⟩
    (some { f with content := out.take o.flushed }, o.fwrite == out.length)
  else (file, false)

/-- `rename` of the temporary file; it fails at least when there is none. -/
def OutDir.renameTmp (d : OutDir) (ok : Bool) : OutDir × Bool :=
  match d.tmp with
  | some f => if ok then (⟨some f, none⟩, true) else (d, false)
  | none => (d, false)

def OutDir.chown (d : OutDir) (ok : Bool) : OutDir × Bool :=
  if ok then ({ d with out := d.out.map fun f => { f with owner := (1000, 1000) } }, true)
  else (d, false)

def OutDir.chmod (d : OutDir) (ok : Bool) : OutDir × Bool :=
  if ok then ({ d with out := d.out.map fun f => { f with mode := 0o644 } }, true)
  else (d, false)

/-- `dump` is the text the JSON library writes with an indent of four. -/
def saveOutConfig (dump : JSON → Bytes) (m : ConfigManager) (d : OutDir)
    (o : SaveOutcome) : ConfigManager × OutDir × Bool :=
  let outJson := m.currentConfig
  let m := { m with previousConfig := outJson }
  let (tmp, _) := saveJson (dump outJson) d.tmp o
  let (d, retOK) := ({ d with tmp := tmp } : OutDir).renameTmp o.rename
  if retOK then
    let (d, _) := d.chown o.chown
    let (d, retOK) := d.chmod o.chmod
    (m, d, retOK)
  else (m, d, retOK)

variable (dump : JSON → Bytes) (m : ConfigManager) (d : OutDir) (o : SaveOutcome)

/-- Afterwards the output file is as before or the whole dump, and success means that the
whole dump is there with its owner and mode. -/
def SaveSound : Prop :=
  ((saveOutConfig dump m d o).2.1.out = d.out ∨
      (saveOutConfig dump m d o).2.1.out.map OutFile.content = some (dump m.currentConfig)) ∧
    ((saveOutConfig dump m d o).2.2 = true →
      (saveOutConfig dump m d o).2.1.out = some ⟨dump m.currentConfig, (1000, 1000), 0o644⟩)

instance : Decidable (SaveSound dump m d o) := inferInstanceAs (Decidable (_ ∧ _))

/-- The temporary file that `rename` finds. -/
def SaveOutcome.written : Option OutFile := (saveJson (dump m.currentConfig) d.tmp o).1

variable {o}

lemma saveOutConfig_unrenamed (h : o.rename = false ∨ o.written dump m d = none) :
    ∃ tmp, saveOutConfig dump m d o =
      ({ m with previousConfig := m.currentConfig }, ⟨d.out, tmp⟩, false) := by
  refine ⟨o.written dump m d, ?_⟩
  unfold SaveOutcome.written at h ⊢
  cases hw : (saveJson (dump m.currentConfig) d.tmp o).1 with
  | none => simp [saveOutConfig, OutDir.renameTmp, hw]
  | some f =>
    have hr : o.rename = false := by simpa [hw] using h
    simp [saveOutConfig, OutDir.renameTmp, hw, hr]

/-- After the rename the result is that of `chmod` alone. -/
lemma saveOutConfig_renamed {f : OutFile} (hr : o.rename = true)
    (hw : o.written dump m d = some f) :
    saveOutConfig dump m d o = ({ m with previousConfig := m.currentConfig },
      ⟨some ⟨f.content, if o.chown then (1000, 1000) else f.owner,
        if o.chmod then 0o644 else f.mode⟩, none⟩, o.chmod) := by
  unfold SaveOutcome.written at hw
  cases hown : o.chown <;> cases hmod : o.chmod <;>
    simp [saveOutConfig, OutDir.renameTmp, OutDir.chown, OutDir.chmod, hw, hr, hown,
      hmod]

/-- For every outcome of the file operations, the save is sound exactly when a renamed
temporary file holds the whole dump or is the old file again, and a successful `chmod` comes
with the whole dump and with the right owner. -/
theorem saveOutConfig_sound_iff (dump : JSON → Bytes) (m : ConfigManager) (d : OutDir)
    (o : SaveOutcome) :
    SaveSound dump m d o ↔ (o.rename = true → ∀ f ∈ o.written dump m d,
      (f.content = dump m.currentConfig ∨
        d.out = some ⟨f.content, if o.chown then (1000, 1000) else f.owner,
          if o.chmod then 0o644 else f.mode⟩) ∧
      (o.chmod = true → f.content = dump m.currentConfig ∧
        (o.chown = true ∨ f.owner = (1000, 1000)))) := by
  cases hr : o.rename with
  | false =>
    obtain ⟨tmp, hsave⟩ := saveOutConfig_unrenamed dump m d (Or.inl hr)
    simp [SaveSound, hsave]
  | true =>
    cases hw : o.written dump m d with
    | none =>
      obtain ⟨tmp, hsave⟩ := saveOutConfig_unrenamed dump m d (Or.inr hw)
      simp [SaveSound, hsave]
    | some f =>
      rw [SaveSound, saveOutConfig_renamed dump m d hr hw]
      cases o.chown <;> cases o.chmod <;>
        simp [or_comm, eq_comm, and_comm]

/-- A temporary file cut short by a full disk replaces the old file, and the save reports
success. -/
theorem saveOutConfig_truncates : ¬ ∀ (dump : JSON → Bytes) (m : ConfigManager) (d : OutDir)
    (o : SaveOutcome), SaveSound dump m d o := by
  intro h
  exact absurd (h (fun _ => [0x7b, 0x7d]) ⟨.object [], .null⟩
    ⟨some ⟨[0x6e, 0x75, 0x6c, 0x6c], (1000, 1000), 0o644⟩, none⟩
    ⟨true, (1000, 1000), 0o644, 0, 0, true, true, true⟩) (by decide)

end ToolkitCpp.Manager

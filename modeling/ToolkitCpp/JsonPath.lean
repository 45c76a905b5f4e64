import ToolkitCpp.JsonFlatten
import ToolkitCpp.Strings

/-!
# Access by path

The accessors that follow a textual path through the objects of a document. All of them move
a cursor from the root: a token that names a member is entered, an empty token that names
none is skipped, and any other token ends the walk.
-/
namespace ToolkitCpp.Json

open JSON Segments Strings

/-- The value below `j` at a list of keys. -/
def nodeAt : JSON → List Str → Option JSON
  | j, [] => some j
  | j, k :: p => (j.member? k).bind (nodeAt · p)

/-- `j` with the value at a list of keys replaced. -/
def setAt (v : JSON) : List Str → JSON → JSON
  | [], _ => v
  | k :: p, object kvs => object (update k (setAt v p) kvs)
  | _ :: _, j => j

theorem nodeAt_cons {j w : JSON} {k : Str} {p : List Str} (h : nodeAt j (k :: p) = some w) :
    ∃ kvs c, j = object kvs ∧ kvs.lookup k = some c ∧ nodeAt c p = some w := by
  cases j with
  | object kvs =>
    simp only [nodeAt, member?, Option.bind_eq_some_iff] at h
    obtain ⟨c, hc, hw⟩ := h
    exact ⟨kvs, c, rfl, hc, hw⟩
  | _ => simp [nodeAt, member?] at h

/-- Storing a value where a path leads changes nothing exactly if it is stored already. -/
theorem setAt_eq_self {j w : JSON} {p : List Str} (v : JSON) (h : nodeAt j p = some w) :
    setAt v p j = j ↔ w = v := by
  induction p generalizing j with
  | nil =>
    cases h
    exact eq_comm
  | cons k p ih =>
    obtain ⟨kvs, c, rfl, hc, hw⟩ := nodeAt_cons h
    rw [setAt, JSON.object.injEq, update_eq_self hc]
    exact ih hw

structure Cursor where
  /-- The keys entered so far. -/
  path : List Str
  node : JSON
  /-- The last token looked up was found. -/
  found : Bool
  deriving DecidableEq

def walk : List Str → JSON → Bool → Cursor
  | [], j, found => ⟨[], j, found⟩
  | token :: tokens, j, found =>
      match j.member? token with
      | some child =>
          let c := walk tokens child true
          { c with path := token :: c.path }
      | none => if token = [] then walk tokens j found else ⟨[], j, false⟩

theorem nodeAt_walk (tokens : List Str) (j : JSON) (found : Bool) :
    nodeAt j (walk tokens j found).path = some (walk tokens j found).node := by
  induction tokens generalizing j found with
  | nil => rfl
  | cons token tokens ih =>
    rw [walk]
    cases hm : j.member? token with
    | some child =>
      simp only [nodeAt, hm, Option.bind_some]
      exact ih child true
    | none =>
      dsimp only
      split_ifs
      · exact ih j found
      · rfl

/-- A leading slash is added when it is missing. -/
def rooted (keyName : Str) : Str :=
  if keyName.head? = some '/' then keyName else '/' :: keyName

/-- One trailing slash is cut off. -/
def chopped (keyName : Str) : Str :=
  if keyName.getLast? = some '/' then keyName.dropLast else keyName

/-- Where the tokens of a path lead in a document. -/
def locate (js : JSON) (keyName : Str) : Cursor := walk (lines '/' keyName) js false

def getParamValueFromJson (js : JSON) (keyName : Str) : Except Exc JSON :=
  let keyName := chopped (rooted keyName)
  let current := locate js keyName
  if current.found then .ok current.node
  else .error (.config
    (txt "getParamValueFromJson except: Нет такого параметра в JSON (" ++ keyName ++ [')']))

/-- The document after the call, and how the call ends: the value is stored where the cursor
stopped, and only then is it tested whether the whole path was found. -/
def setParamValueToJson (js : JSON) (keyPath : Str) (value : JSON) : JSON × Except Exc Unit :=
  let keyPath := rooted keyPath
  let current := locate js keyPath
  (setAt value current.path js,
    if current.found then .ok ()
    else .error (.config
      (txt "setParamValueToJson except: Нет такого параметра в JSON (" ++ keyPath ++ [')'])))

/-- Splitting by a slash gives the pieces that `getline` would. -/
lemma stdvSplit_slash {str : Str} (hne : str ≠ []) : stdvSplit str (txt "/") = lines '/' str :=
  stdvSplit_letter hne '/'

def containsParts : List Str → JSON → Bool → Bool
  | [], _, isFindParamFull => isFindParamFull
  | keyOne :: parts, findParam, isFindParamFull =>
      if keyOne = [] then containsParts parts findParam isFindParamFull
      else match findParam.member? keyOne with
        | some child => containsParts parts child true
        | none => false

def isContainParamInJson (js : JSON) (keyName : Str) : Bool :=
  containsParts (stdvSplit (rooted keyName) (txt "/")) js false

/-- The configurations a `ConfigManager` holds. -/
structure ConfigManager where
  currentConfig : JSON
  previousConfig : JSON
  deriving DecidableEq

/-- `setParamValue`: the exception of the validator is thrown on. -/
def ConfigManager.setParamValue (m : ConfigManager) (keyName : Str) (value : JSON) :
    ConfigManager × Except Exc Unit :=
  let (config, outcome) := setParamValueToJson m.currentConfig keyName value
  ({ m with currentConfig := config }, outcome)

/-- A failed store leaves the document alone: of a document, and of a manager's current one. -/
def FailureKeeps (m : ConfigManager) (keyName : Str) (value : JSON) : Prop :=
  (∀ e, (setParamValueToJson m.currentConfig keyName value).2 = .error e →
    (setParamValueToJson m.currentConfig keyName value).1 = m.currentConfig) ∧
  (∀ e, (m.setParamValue keyName value).2 = .error e → (m.setParamValue keyName value).1 = m)

theorem setParamValueToJson_failed (js value : JSON) (keyName : Str) :
    (∃ e, (setParamValueToJson js keyName value).2 = .error e) ↔
      (locate js (rooted keyName)).found = false := by
  simp only [setParamValueToJson]
  cases (locate js (rooted keyName)).found <;> simp

/-- The document survives every failure exactly when the path is found, or when the value to
store already stands at the last node the path leads to. -/
theorem failureKeeps_iff (m : ConfigManager) (keyName : Str) (value : JSON) :
    FailureKeeps m keyName value ↔
      (locate m.currentConfig (rooted keyName)).found = true ∨
        (locate m.currentConfig (rooted keyName)).node = value := by
  have hfail := setParamValueToJson_failed m.currentConfig value keyName
  have hkeep : (setParamValueToJson m.currentConfig keyName value).1 = m.currentConfig ↔
      (locate m.currentConfig (rooted keyName)).node = value :=
    setAt_eq_self value (nodeAt_walk _ _ _)
  have hmgr : (m.setParamValue keyName value).1 = m ↔
      (setParamValueToJson m.currentConfig keyName value).1 = m.currentConfig := by
    cases m
    simp [ConfigManager.setParamValue]
  have houtcome : (m.setParamValue keyName value).2 =
      (setParamValueToJson m.currentConfig keyName value).2 := rfl
  rw [FailureKeeps, houtcome, hmgr, and_self, hkeep, ← exists_imp, hfail]
  cases (locate m.currentConfig (rooted keyName)).found <;> simp

theorem setParamValue_overwrites_parent :
    ¬ FailureKeeps ⟨object [(['A'], integer 1)], null⟩ (txt "A/B") (integer 5) := by
  intro h
  obtain ⟨e, he⟩ := (setParamValueToJson_failed (object [(['A'], integer 1)]) (integer 5)
    (txt "A/B")).mpr (by decide)
  exact absurd (h.1 e he) (by decide)

end ToolkitCpp.Json

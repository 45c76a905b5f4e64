import ToolkitCpp.ConfigPaths

/-!
# Descriptions and presence

A constraint that `getDefaultConfig` accepts describes every parameter completely. On such a
constraint `checkLostParamInConfig` only tests that the declared parameters outside maps are
there.
-/
namespace ToolkitCpp.Config

open Json JSON Segments

mutual

/-- Every description below a member of the constraint passes `checkOnRequiredKeys`, and
arrays only occur as `Enum`. -/
def requiredValue (key : Str) : JSON → Prop
  | object desc => checkOnRequiredKeys [] desc = .ok () ∧ requiredMembers desc
  | array _ => key = txt "Enum"
  | _ => True

def requiredMembers : Members → Prop
  | [] => True
  | (k, v) :: rest => requiredValue k v ∧ requiredMembers rest

end

/-- The name of a parameter only occurs in the complaint. -/
theorem checkOnRequiredKeys_name {name : Str} {desc : Members}
    (h : checkOnRequiredKeys name desc = .ok ()) (name' : Str) :
    checkOnRequiredKeys name' desc = .ok () := by
  simp only [checkOnRequiredKeys] at h ⊢
  cases htype : fetchString (desc.lookup (txt "Type")) with
  | error e =>
    rw [htype] at h
    simp [bind, Except.bind] at h
  | ok t =>
    rw [htype] at h
    simp only [bind, Except.bind] at h ⊢
    split_ifs at h ⊢ with h1 h2 h3
    · rfl
    · cases hmin : desc.lookup (txt "Min") with
      | none => simp [hmin] at h
      | some lo =>
        cases hmax : desc.lookup (txt "Max") with
        | none => simp [hmin, hmax] at h
        | some hi =>
          simp only [hmin, hmax] at h ⊢
          split_ifs at h ⊢ with h4
          rfl

mutual

theorem requiredValue_of_generate : ∀ {v : JSON} {parentKey key : Str} {flat flat' : Members},
    generateDefaultConfig parentKey key v flat = .ok flat' → requiredValue key v
  | object desc, parentKey, key, flat, flat', h => by
      rw [generateDefaultConfig] at h
      cases hreq : checkOnRequiredKeys ('/' :: (parentKey ++ key)) desc with
      | error e =>
        rw [hreq] at h
        simp [bind, Except.bind] at h
      | ok u =>
        rw [hreq] at h
        cases htype : fetchString (desc.lookup (txt "Type")) with
        | error e =>
          rw [htype] at h
          simp [bind, Except.bind] at h
        | ok t =>
          rw [htype] at h
          simp only [bind, Except.bind] at h
          exact ⟨checkOnRequiredKeys_name hreq [], requiredMembers_of_generate h⟩
  | array xs, parentKey, key, flat, flat', h => by
      rw [generateDefaultConfig] at h
      split_ifs at h with hkey
      exact not_not.mp hkey
  | null, _, _, _, _, _ => trivial
  | boolean _, _, _, _, _, _ => trivial
  | integer _, _, _, _, _, _ => trivial
  | unsigned _, _, _, _, _, _ => trivial
  | float _, _, _, _, _, _ => trivial
  | string _, _, _, _, _, _ => trivial

theorem requiredMembers_of_generate : ∀ {kvs : Members} {parentKey : Str} {flat flat' : Members},
    generateMembers parentKey kvs flat = .ok flat' → requiredMembers kvs
  | [], _, _, _, _ => trivial
  | (k, v) :: rest, parentKey, flat, flat', h => by
      rw [generateMembers] at h
      cases hv : generateDefaultConfig parentKey k v flat with
      | error e =>
        rw [hv] at h
        simp [bind, Except.bind] at h
      | ok flat₁ =>
        rw [hv] at h
        simp only [bind, Except.bind] at h
        exact ⟨requiredValue_of_generate hv, requiredMembers_of_generate h⟩

end

theorem required_of_default {cs : Members} {D : JSON}
    (h : getDefaultConfig (object cs) = .ok D) : requiredMembers cs := by
  rw [getDefaultConfig, membersOf] at h
  cases hgen : generateMembers [] cs [] with
  | error e =>
    rw [hgen] at h
    simp [bind, Except.bind] at h
  | ok flat => exact requiredMembers_of_generate hgen

theorem requiredMembers_mem {kvs : Members} {k : Str} {v : JSON} (h : requiredMembers kvs)
    (hm : (k, v) ∈ kvs) : requiredValue k v := by
  refine mem_of_all (A := requiredMembers) (B := requiredValue) ?_ h hm
  intro l w rest hall
  rw [requiredMembers] at hall
  exact hall

/-- The type of a description, where it is a text. -/
def typeOf (d : Members) : Option Str :=
  match d.lookup (txt "Type") with
  | some (string t) => some t
  | _ => none

theorem typeOf_of_required {d : Members} (h : checkOnRequiredKeys [] d = .ok ()) :
    ∃ t, d.lookup (txt "Type") = some (string t) ∧ t ≠ [] := by
  simp only [checkOnRequiredKeys] at h
  cases hl : d.lookup (txt "Type") with
  | none =>
    rw [hl] at h
    simp [bind, Except.bind, fetchString] at h
  | some v =>
    rw [hl] at h
    cases v with
    | string t =>
      refine ⟨t, rfl, ?_⟩
      rintro rfl
      simp [bind, Except.bind, fetchString, getString] at h
    | _ => simp [bind, Except.bind, fetchString, getString] at h

/-- A map or an array of objects: what lies below describes entries. -/
def holdsEntries (d : Members) : Bool :=
  typeOf d == some (txt "map.object") || typeOf d == some (txt "array.object")

mutual

/-- The parameters declared below a description are present in a value. -/
def presentValue : JSON → Option JSON → Bool
  | object desc, v => holdsEntries desc || (v.isSome && presentMembers desc v)
  | _, _ => true

def presentMembers : Members → Option JSON → Bool
  | [], _ => true
  | (k, desc) :: rest, v => presentValue desc (v.bind (·.member? k)) && presentMembers rest v

end

mutual

/-- The same through the texts of paths: the path of every parameter outside maps and arrays of
objects leads somewhere. -/
def foundValue (N : JSON) (parentKey key : Str) : JSON → Prop
  | object desc => holdsEntries desc = true ∨
      isContainParamInJson N ('/' :: (parentKey ++ key)) = true ∧
        foundMembers N (parentKey ++ key ++ ['/']) desc
  | _ => True

def foundMembers (N : JSON) (parentKey : Str) : Members → Prop
  | [] => True
  | (k, desc) :: rest => foundValue N parentKey k desc ∧ foundMembers N parentKey rest

end

/-- The test of one complete description. -/
theorem checkLostParam_required {N : JSON} {desc : Members}
    (hreq : checkOnRequiredKeys [] desc = .ok ()) (parentKey key : Str) :
    checkLostParam N parentKey key (object desc) =
      if holdsEntries desc then .ok ()
      else if !isContainParamInJson N ('/' :: (parentKey ++ key)) then
        .error (.config
          (txt "параметра /" ++ parentKey ++ key ++ txt " отсутствует в конфиге!"))
      else checkLostMembers N (parentKey ++ key ++ ['/']) desc := by
  obtain ⟨t, htype, -⟩ := typeOf_of_required hreq
  have hentries : holdsEntries desc =
      decide (t = txt "map.object" ∨ t = txt "array.object") := by
    simp [holdsEntries, typeOf, htype, Bool.beq_eq_decide_eq]
  simp only [checkLostParam, checkOnRequiredKeys_name hreq, htype, hentries, decide_eq_true_eq]
  rfl

mutual

theorem checkLostParam_found {N : JSON} : ∀ {v : JSON} {parentKey k : Str}, requiredValue k v →
    (checkLostParam N parentKey k v = .ok () ↔ foundValue N parentKey k v)
  | object desc, parentKey, k, hreq => by
      have hrec : checkLostMembers N (parentKey ++ k ++ ['/']) desc = .ok () ↔ _ :=
        checkLostMembers_found hreq.2
      rw [checkLostParam_required hreq.1, foundValue, ← hrec]
      cases holdsEntries desc with
      | true => simp
      | false => cases isContainParamInJson N ('/' :: (parentKey ++ k)) <;> simp
  | array xs, _, k, hreq => by
      have hkey : k = txt "Enum" := hreq
      simp [checkLostParam, foundValue, hkey]
  | null, _, _, _ => by simp [checkLostParam, foundValue]
  | boolean _, _, _, _ => by simp [checkLostParam, foundValue]
  | integer _, _, _, _ => by simp [checkLostParam, foundValue]
  | unsigned _, _, _, _ => by simp [checkLostParam, foundValue]
  | float _, _, _, _ => by simp [checkLostParam, foundValue]
  | string _, _, _, _ => by simp [checkLostParam, foundValue]

theorem checkLostMembers_found {N : JSON} : ∀ {kvs : Members} {parentKey : Str},
    requiredMembers kvs →
    (checkLostMembers N parentKey kvs = .ok () ↔ foundMembers N parentKey kvs)
  | [], _, _ => by simp [checkLostMembers, foundMembers]
  | (k, v) :: rest, parentKey, hreq => by
      have hhead : checkLostParam N parentKey k v = .ok () ↔ _ := checkLostParam_found hreq.1
      have htail : checkLostMembers N parentKey rest = .ok () ↔ _ := checkLostMembers_found hreq.2
      rw [checkLostMembers, foundMembers, ← hhead, ← htail]
      cases checkLostParam N parentKey k v with
      | error e => simp [bind, Except.bind]
      | ok u => simp [bind, Except.bind]

end

/-- Nothing is lost exactly when every declared parameter is found. -/
theorem checkLost_iff_found {cs : Members} (hreq : requiredMembers cs) {N : JSON} :
    checkLostParamInConfig N (object cs) = .ok () ↔ foundMembers N [] cs :=
  checkLostMembers_found hreq

mutual

theorem checkLostParam_eq {N : JSON} : ∀ {v : JSON} {p : List Str} {k : Str},
    requiredValue k v → plainKey k = true → keysAll plainKey v = true → PlainPath p →
    (presentValue v ((nodeAt N p).bind (·.member? k)) = true →
      checkLostParam N (dirs '/' p) k v = .ok ()) ∧
    (presentValue v ((nodeAt N p).bind (·.member? k)) = false →
      ∃ what, checkLostParam N (dirs '/' p) k v = .error (.config what))
  | object desc, p, k, hreq, hk, hkeys, hp => by
      have hpath : PlainPath (p ++ [k]) := by
        intro l hl
        rcases List.mem_append.mp hl with hl | hl
        · exact hp l hl
        · rw [List.mem_singleton.mp hl]
          exact hk
      have hnode : nodeAt N (p ++ [k]) = (nodeAt N p).bind (·.member? k) := by
        rw [nodeAt_append]
        congr 1
        funext w
        cases hm : w.member? k <;> simp [nodeAt, hm]
      have hcontain := isContain_eq N hpath.tokens (by simp)
      have hdirs : dirs '/' p ++ k ++ ['/'] = dirs '/' (p ++ [k]) := by simp
      have hrec := checkLostMembers_eq (N := N) hreq.2 hkeys hpath
      rw [checkLostParam_required hreq.1, dirs_key, hdirs, hcontain, hnode, presentValue]
      rw [hnode] at hrec
      cases hmap : holdsEntries desc with
      | true => simp
      | false =>
        cases hw : (nodeAt N p).bind (·.member? k) with
        | none => simp
        | some w =>
          rw [hw] at hrec
          simpa using hrec
  | array xs, p, k, hreq, hk, hkeys, hp => by
      have hkey : k = txt "Enum" := hreq
      simp [checkLostParam, presentValue, hkey]
  | null, _, _, _, _, _, _ => by simp [checkLostParam, presentValue]
  | boolean _, _, _, _, _, _, _ => by simp [checkLostParam, presentValue]
  | integer _, _, _, _, _, _, _ => by simp [checkLostParam, presentValue]
  | unsigned _, _, _, _, _, _, _ => by simp [checkLostParam, presentValue]
  | float _, _, _, _, _, _, _ => by simp [checkLostParam, presentValue]
  | string _, _, _, _, _, _, _ => by simp [checkLostParam, presentValue]

theorem checkLostMembers_eq {N : JSON} : ∀ {kvs : Members} {p : List Str},
    requiredMembers kvs → keysAllMembers plainKey kvs = true → PlainPath p →
    (presentMembers kvs (nodeAt N p) = true → checkLostMembers N (dirs '/' p) kvs = .ok ()) ∧
    (presentMembers kvs (nodeAt N p) = false →
      ∃ what, checkLostMembers N (dirs '/' p) kvs = .error (.config what))
  | [], _, _, _, _ => by simp [checkLostMembers, presentMembers]
  | (k, v) :: rest, p, hreq, hkeys, hp => by
      simp only [keysAllMembers, Bool.and_eq_true] at hkeys
      obtain ⟨hhead, hhead'⟩ := checkLostParam_eq (N := N) hreq.1 hkeys.1.1 hkeys.1.2 hp
      obtain ⟨htail, htail'⟩ := checkLostMembers_eq (N := N) hreq.2 hkeys.2 hp
      rw [checkLostMembers, presentMembers]
      cases hv : presentValue v ((nodeAt N p).bind (·.member? k)) with
      | false =>
        obtain ⟨what, hwhat⟩ := hhead' hv
        rw [hwhat]
        exact ⟨by simp, fun _ => ⟨what, rfl⟩⟩
      | true =>
        rw [hhead hv, Bool.true_and]
        exact ⟨htail, htail'⟩

end

end ToolkitCpp.Config

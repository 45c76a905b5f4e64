import ToolkitCpp.ConfigValidator
import ToolkitCpp.JsonLeaves

/-!
# Paths as positions

On documents whose keys are plain, the textual paths of the validator are positions in the
document: the accessors follow them as `nodeAt` does, and a scalar field of a description is
what the flattened constraint holds at the path of the description extended by the field.
-/
namespace ToolkitCpp.Config

open Json JSON Segments

/-- A key that is one token of a path and does not collide with the marker of map entries. -/
def plainKey (k : Str) : Bool :=
  k ≠ [] && !(k.contains '/') && !(k.contains '~') && decide (¬ objectKey <:+: k)

mutual

def keysAll (P : Str → Bool) : JSON → Bool
  | array xs => keysAllElems P xs
  | object kvs => keysAllMembers P kvs
  | _ => true

def keysAllElems (P : Str → Bool) : List JSON → Bool
  | [] => true
  | x :: xs => keysAll P x && keysAllElems P xs

def keysAllMembers (P : Str → Bool) : Members → Bool
  | [] => true
  | (k, v) :: kvs => P k && keysAll P v && keysAllMembers P kvs

end

mutual

/-- No array holds another container. -/
def arraysFlat : JSON → Bool
  | array xs => xs.all isPrimitive
  | object kvs => arraysFlatMembers kvs
  | _ => true

def arraysFlatMembers : Members → Bool
  | [] => true
  | (_, v) :: kvs => arraysFlat v && arraysFlatMembers kvs

end

/-- A document with plain keys and flat arrays. -/
structure Regular (j : JSON) : Prop where
  valid : j.valid = true
  plain : keysAll plainKey j = true
  flat : arraysFlat j = true

theorem keysAllMembers_mem {P : Str → Bool} {kvs : Members} {k : Str} {v : JSON}
    (h : keysAllMembers P kvs = true) (hm : (k, v) ∈ kvs) : P k = true ∧ keysAll P v = true := by
  refine mem_of_all (A := fun kvs => keysAllMembers P kvs = true) (B := fun k v => P k = true ∧ keysAll P v = true) ?_ h hm
  intro l w rest hall
  simp only [keysAllMembers, Bool.and_eq_true] at hall
  exact hall

mutual

theorem keysAll_mono {P Q : Str → Bool} (hPQ : ∀ k, P k = true → Q k = true) :
    ∀ {j : JSON}, keysAll P j = true → keysAll Q j = true
  | array xs, h => by
      rw [keysAll] at h ⊢
      exact keysAllElems_mono hPQ h
  | object kvs, h => by
      rw [keysAll] at h ⊢
      exact keysAllMembers_mono hPQ h
  | null, _ => rfl
  | boolean _, _ => rfl
  | integer _, _ => rfl
  | unsigned _, _ => rfl
  | float _, _ => rfl
  | string _, _ => rfl

theorem keysAllElems_mono {P Q : Str → Bool} (hPQ : ∀ k, P k = true → Q k = true) :
    ∀ {xs : List JSON}, keysAllElems P xs = true → keysAllElems Q xs = true
  | [], _ => rfl
  | x :: xs, h => by
      simp only [keysAllElems, Bool.and_eq_true] at h ⊢
      exact ⟨keysAll_mono hPQ h.1, keysAllElems_mono hPQ h.2⟩

theorem keysAllMembers_mono {P Q : Str → Bool} (hPQ : ∀ k, P k = true → Q k = true) :
    ∀ {kvs : Members}, keysAllMembers P kvs = true → keysAllMembers Q kvs = true
  | [], _ => rfl
  | (k, v) :: kvs, h => by
      simp only [keysAllMembers, Bool.and_eq_true] at h ⊢
      exact ⟨⟨hPQ k h.1.1, keysAll_mono hPQ h.1.2⟩, keysAllMembers_mono hPQ h.2⟩

end

theorem arraysFlatMembers_mem {kvs : Members} {k : Str} {v : JSON}
    (h : arraysFlatMembers kvs = true) (hm : (k, v) ∈ kvs) : arraysFlat v = true := by
  refine mem_of_all (A := fun kvs => arraysFlatMembers kvs = true) (B := fun _ v => arraysFlat v = true) ?_ h hm
  intro l w rest hall
  simp only [arraysFlatMembers, Bool.and_eq_true] at hall
  exact hall

theorem Regular.member {kvs : Members} {k : Str} {v : JSON} (h : Regular (object kvs))
    (hm : (k, v) ∈ kvs) : plainKey k = true ∧ Regular v := by
  obtain ⟨hvalid, hplain, hflat⟩ := h
  have hkey := keysAllMembers_mem hplain hm
  exact ⟨hkey.1, validMembers_mem (valid_members hvalid) hm, hkey.2, arraysFlatMembers_mem hflat hm⟩

/-- A list of plain keys. -/
def PlainPath (p : List Str) : Prop := ∀ k ∈ p, plainKey k = true

theorem plainKey_iff {k : Str} : plainKey k = true ↔
    k ≠ [] ∧ '/' ∉ k ∧ '~' ∉ k ∧ ¬ objectKey <:+: k := by
  simp [plainKey, and_assoc]

/-- A list of keys that are single non-empty tokens of a path. -/
def TokenPath (p : List Str) : Prop := ∀ k ∈ p, k ≠ [] ∧ '/' ∉ k

theorem PlainPath.tokens {p : List Str} (h : PlainPath p) : TokenPath p :=
  fun k hk => ⟨(plainKey_iff.mp (h k hk)).1, (plainKey_iff.mp (h k hk)).2.1⟩

theorem TokenPath.slashFree {p : List Str} (h : TokenPath p) : SlashFree p :=
  fun k hk => (h k hk).2

theorem TokenPath.ne_nil {p : List Str} (h : TokenPath p) : ∀ k ∈ p, k ≠ [] :=
  fun k hk => (h k hk).1

theorem Regular.node {j w : JSON} {p : List Str} (h : Regular j) (hp : nodeAt j p = some w) :
    PlainPath p ∧ Regular w := by
  induction p generalizing j with
  | nil =>
    cases hp
    exact ⟨by simp [PlainPath], h⟩
  | cons k p ih =>
    obtain ⟨kvs, c, rfl, hc, hw⟩ := nodeAt_cons hp
    obtain ⟨hk, hreg⟩ := h.member (lookup_mem hc)
    obtain ⟨hp', hw'⟩ := ih hreg hw
    refine ⟨?_, hw'⟩
    intro l hl
    rcases List.mem_cons.mp hl with rfl | hl
    · exact hk
    · exact hp' l hl

theorem nodeAt_append (j : JSON) (p q : List Str) :
    nodeAt j (p ++ q) = (nodeAt j p).bind (nodeAt · q) := by
  induction p generalizing j with
  | nil => rfl
  | cons k p ih =>
    rw [List.cons_append, nodeAt, nodeAt]
    cases j.member? k with
    | none => rfl
    | some w => simp only [Option.bind_some, ih]

theorem setAt_append {j x : JSON} {p : List Str} (h : nodeAt j p = some x) (v : JSON)
    (q : List Str) : setAt v (p ++ q) j = setAt (setAt v q x) p j := by
  induction p generalizing j with
  | nil =>
    cases h
    rfl
  | cons k p ih =>
    obtain ⟨kvs, c, rfl, hc, hx⟩ := nodeAt_cons h
    rw [List.cons_append, setAt, setAt]
    congr 1
    exact update_congr hc (ih hx)

theorem nodeAt_setAt {j x : JSON} {p : List Str} (h : nodeAt j p = some x) (v : JSON) :
    nodeAt (setAt v p j) p = some v := by
  induction p generalizing j with
  | nil => rfl
  | cons k p ih =>
    obtain ⟨kvs, c, rfl, hc, hx⟩ := nodeAt_cons h
    rw [setAt, nodeAt, member?, lookup_update, if_pos rfl, hc]
    exact ih hx

theorem setAt_setAt {j x : JSON} {p : List Str} (h : nodeAt j p = some x) (v w : JSON) :
    setAt v p (setAt w p j) = setAt v p j := by
  induction p generalizing j with
  | nil => rfl
  | cons k p ih =>
    obtain ⟨kvs, c, rfl, hc, hx⟩ := nodeAt_cons h
    rw [setAt, setAt, setAt, update_update]
    congr 1
    exact update_congr hc (ih hx)

theorem setAt_root {j : JSON} {p : List Str} (hp : p ≠ []) (hhead : ∀ k ∈ p, k ≠ [])
    (h : j.member? [] = none) (v : JSON) : (setAt v p j).member? [] = none := by
  cases p with
  | nil => exact absurd rfl hp
  | cons k p =>
    cases j with
    | object kvs =>
      rw [setAt, member?, lookup_update, if_neg (Ne.symm (hhead k (by simp)))]
      exact h
    | _ => exact h

theorem update_at {k : Str} {v : JSON} {done rest : Members} (f : JSON → JSON)
    (h : k ∉ done.map Prod.fst) :
    update k f (done ++ (k, v) :: rest) = done ++ (k, f v) :: rest := by
  induction done with
  | nil => simp [update]
  | cons e done ih =>
    obtain ⟨l, w⟩ := e
    rw [List.map_cons, List.mem_cons, not_or] at h
    rw [List.cons_append, update, if_neg h.1, ih h.2, List.cons_append]

section Tokens

theorem lines_token {s : Str} {ss : List Str} (hne : s ≠ []) (hs : '/' ∉ s)
    (hss : TokenPath ss) : lines '/' (s ++ pathOf ss) = s :: ss := by
  induction ss generalizing s with
  | nil =>
    rw [pathOf_nil, List.append_nil]
    exact lines_last hs hne
  | cons t ts ih =>
    have ht := hss t (by simp)
    have htail := ih ht.1 ht.2 fun u hu => hss u (by simp [hu])
    rw [pathOf_cons, lines_segment hs, htail]

theorem lines_pathOf {p : List Str} (h : TokenPath p) (hp : p ≠ []) :
    lines '/' (pathOf p) = [] :: p := by
  cases p with
  | nil => exact absurd rfl hp
  | cons s ss =>
    have hs := h s (by simp)
    have hss : TokenPath ss := fun t ht => h t (List.mem_cons_of_mem s ht)
    have htok := lines_token hs.1 hs.2 hss
    have hfirst := lines_segment (d := '/') (s := []) (by simp) (s ++ pathOf ss)
    rw [List.nil_append] at hfirst
    rw [pathOf_cons, hfirst, htok]

theorem pathOf_dirs (p : List Str) : pathOf p ++ ['/'] = '/' :: dirs '/' p := by
  induction p with
  | nil => rfl
  | cons s ss ih => rw [pathOf_cons, dirs_cons, List.cons_append, List.append_assoc, ih]

theorem dirs_key (p : List Str) (k : Str) : '/' :: (dirs '/' p ++ k) = pathOf (p ++ [k]) := by
  have h := pathOf_dirs p
  rw [pathOf_append, pathOf_cons, pathOf_nil, List.append_nil, ← List.cons_append, ← h,
    List.append_assoc]
  rfl

theorem lines_pathOf_slash {p : List Str} (h : TokenPath p) :
    lines '/' (pathOf p ++ ['/']) = [] :: p := by
  have hfirst := lines_segment (d := '/') (s := []) (by simp) (dirs '/' p)
  rw [List.nil_append] at hfirst
  rw [pathOf_dirs, hfirst, lines_dirs h.slashFree]

theorem rooted_slash (x : Str) : rooted ('/' :: x) = '/' :: x := by simp [rooted]

theorem rooted_pathOf {p : List Str} (hp : p ≠ []) (x : Str) :
    rooted (pathOf p ++ x) = pathOf p ++ x := by
  cases p with
  | nil => exact absurd rfl hp
  | cons s ss => rw [pathOf_cons, List.cons_append, rooted_slash]

theorem chopped_slash (x : Str) : chopped (x ++ ['/']) = x := by simp [chopped]

theorem chopped_pathOf {p : List Str} (h : TokenPath p) : chopped (pathOf p) = pathOf p := by
  rcases List.eq_nil_or_concat p with rfl | ⟨q, k, rfl⟩
  · rfl
  · have hk := h k (by simp)
    rw [chopped, if_neg]
    intro hlast
    rw [List.concat_eq_append, pathOf_append, pathOf_cons, pathOf_nil, List.append_nil] at hlast
    have hmem : '/' ∈ k := by
      rw [List.getLast?_append, List.getLast?_cons] at hlast
      cases hk' : k.getLast? with
      | none => exact absurd (List.getLast?_eq_none_iff.mp hk') hk.1
      | some c =>
        simp only [hk', Option.getD_some, Option.some_or, Option.some.injEq] at hlast
        rw [← hlast]
        exact List.mem_of_getLast? hk'
    exact hk.2 hmem

/-- The path of a position, with or without a slash at its end. -/
def Names (key : Str) (p : List Str) : Prop := key = pathOf p ∨ key = pathOf p ++ ['/']

theorem Names.lines {key : Str} {p : List Str} (h : Names key p) (hp : TokenPath p)
    (hne : p ≠ []) : lines '/' key = [] :: p := by
  rcases h with rfl | rfl
  · exact lines_pathOf hp hne
  · exact lines_pathOf_slash hp

theorem Names.rooted {key : Str} {p : List Str} (h : Names key p) (hne : p ≠ []) :
    rooted key = key := by
  rcases h with rfl | rfl
  · have hroot := rooted_pathOf hne []
    rwa [List.append_nil] at hroot
  · exact rooted_pathOf hne _

theorem Names.chopped {key : Str} {p : List Str} (h : Names key p) (hp : TokenPath p) :
    chopped key = pathOf p := by
  rcases h with rfl | rfl
  · exact chopped_pathOf hp
  · exact chopped_slash _

end Tokens

section Accessors

theorem walk_found {j w : JSON} {ts : List Str} (h : nodeAt j ts = some w) (hne : ts ≠ [])
    (b : Bool) : walk ts j b = ⟨ts, w, true⟩ := by
  induction ts generalizing j b with
  | nil => exact absurd rfl hne
  | cons t ts ih =>
    obtain ⟨kvs, c, rfl, hc, hw⟩ := nodeAt_cons h
    have hmem : (object kvs).member? t = some c := hc
    cases ts with
    | nil =>
      cases hw
      simp [walk, hmem]
    | cons u us =>
      have htail := ih hw (by simp) true
      rw [walk, hmem]
      simp only [htail]

theorem walk_lost {j : JSON} {ts : List Str} (h : nodeAt j ts = none) (hts : ∀ t ∈ ts, t ≠ [])
    (b : Bool) : (walk ts j b).found = false := by
  induction ts generalizing j b with
  | nil => simp [nodeAt] at h
  | cons t ts ih =>
    rw [nodeAt] at h
    cases hm : j.member? t with
    | none => simp [walk, hm, hts t (by simp)]
    | some c =>
      rw [hm, Option.bind_some] at h
      simpa [walk, hm] using ih h (fun u hu => hts u (by simp [hu])) true

theorem member_nil {j : JSON} (h : keysAll plainKey j = true) : j.member? [] = none := by
  cases j with
  | object kvs =>
    cases hl : kvs.lookup [] with
    | none => exact hl
    | some v =>
      have hkey := keysAllMembers_mem h (lookup_mem hl)
      simp [plainKey] at hkey
  | _ => rfl

variable {js : JSON} {key : Str} {p : List Str}

theorem locate_found {w : JSON} (hroot : js.member? [] = none) (hkey : Names key p)
    (hp : TokenPath p) (hne : p ≠ []) (h : nodeAt js p = some w) :
    locate js key = ⟨p, w, true⟩ := by
  rw [locate, hkey.lines hp hne, walk, hroot]
  exact walk_found h hne false

theorem locate_lost (hroot : js.member? [] = none) (hkey : Names key p)
    (hp : TokenPath p) (hne : p ≠ []) (h : nodeAt js p = none) :
    (locate js key).found = false := by
  rw [locate, hkey.lines hp hne, walk, hroot]
  exact walk_lost h hp.ne_nil false

/-- The exception of `getParamValueFromJson`. -/
def notInJson (keyName : Str) : Exc :=
  .config (txt "getParamValueFromJson except: Нет такого параметра в JSON (" ++ keyName ++ [')'])

theorem get_found {w : JSON} (hroot : js.member? [] = none) (hkey : Names key p)
    (hp : TokenPath p) (hne : p ≠ []) (h : nodeAt js p = some w) :
    getParamValueFromJson js key = .ok w := by
  have hloc := locate_found hroot (.inl rfl) hp hne h
  simp only [getParamValueFromJson, hkey.rooted hne, hkey.chopped hp, hloc, if_true]

theorem get_lost (hroot : js.member? [] = none) (hkey : Names key p)
    (hp : TokenPath p) (hne : p ≠ []) (h : nodeAt js p = none) :
    getParamValueFromJson js key = .error (notInJson (pathOf p)) := by
  have hloc := locate_lost hroot (.inl rfl) hp hne h
  simp only [getParamValueFromJson, hkey.rooted hne, hkey.chopped hp, hloc]
  rfl

theorem get_named {u : JSON} (hroot : js.member? [] = none) (hkey : Names key p)
    (hp : TokenPath p) (hne : p ≠ []) (h : getParamValueFromJson js key = .ok u) :
    nodeAt js p = some u := by
  cases hnode : nodeAt js p with
  | none =>
    rw [get_lost hroot hkey hp hne hnode] at h
    simp at h
  | some w =>
    rw [get_found hroot hkey hp hne hnode, Except.ok.injEq] at h
    rw [h]

theorem store_found {w : JSON} (v : JSON) (hroot : js.member? [] = none) (hkey : Names key p)
    (hp : TokenPath p) (hne : p ≠ []) (h : nodeAt js p = some w) :
    storeParam js key v = .ok (setAt v p js) := by
  have hloc := locate_found hroot hkey hp hne h
  simp only [storeParam, setParamValueToJson, hkey.rooted hne, hloc, if_true]

theorem containsParts_eq {parts : List Str} (hparts : ∀ t ∈ parts, t ≠ []) (j : JSON)
    (b : Bool) : containsParts parts j b =
      if parts = [] then b else (nodeAt j parts).isSome := by
  induction parts generalizing j b with
  | nil => rfl
  | cons t ts ih =>
    have htail := fun j b => ih (fun u hu => hparts u (by simp [hu])) j b
    rw [containsParts, if_neg (hparts t (by simp)), nodeAt]
    cases hm : j.member? t with
    | none => simp
    | some c =>
      dsimp only
      rw [htail]
      cases ts with
      | nil => simp [nodeAt]
      | cons u us => simp

theorem isContain_eq (js : JSON) (hp : TokenPath p) (hne : p ≠ []) :
    isContainParamInJson js (pathOf p) = (nodeAt js p).isSome := by
  have hkey : Names (pathOf p) p := .inl rfl
  have htext : pathOf p ≠ [] := by
    cases p with
    | nil => exact absurd rfl hne
    | cons s ss => simp
  rw [isContainParamInJson, hkey.rooted hne, stdvSplit_slash htext, hkey.lines hp hne,
    containsParts, if_pos rfl, containsParts_eq hp.ne_nil, if_neg hne]

end Accessors

section Fields

/-- A name that is not the index of an array element. -/
def NonIndex (f : Str) : Prop := ∀ i, f ≠ toString i

theorem nonIndex_of_head {c : Char} {f : Str} (h : c.isDigit = false) : NonIndex (c :: f) := by
  intro i hi
  have hmem : c ∈ Nat.toDigits 10 i := by
    rw [toString] at hi
    rw [← hi]
    simp
  rw [Nat.isDigit_of_mem_toDigits (by decide) (by decide) hmem] at h
  exact absurd h (by decide)

theorem escape_plain {k : Str} (h : plainKey k = true) : escape k = k := by
  obtain ⟨-, hslash, htilde, -⟩ := plainKey_iff.mp h
  exact escape_eq_self htilde hslash

theorem leafMembers_lookup {kvs : Members} (hnd : (kvs.map Prod.fst).Nodup)
    (hplain : keysAllMembers plainKey kvs = true) (s : Str) (ss : List Str) :
    leafMembers kvs s ss = (kvs.lookup s).bind (leafAt · ss) := by
  induction kvs with
  | nil => rfl
  | cons e kvs ih =>
    obtain ⟨k, v⟩ := e
    simp only [keysAllMembers, Bool.and_eq_true] at hplain
    rw [List.map_cons, List.nodup_cons] at hnd
    rw [leafMembers, ih hnd.2 hplain.2, escape_plain hplain.1.1, lookup_cons]
    by_cases hs : s = k
    · have hnone : kvs.lookup k = none := by
        cases hl : kvs.lookup k with
        | none => rfl
        | some w => exact absurd (List.mem_map.mpr ⟨(k, w), lookup_mem hl, rfl⟩) hnd.1
      rw [hs, hnone]
      simp
    · simp [hs]

theorem leafElems_primitive {xs : List JSON} (hxs : xs.all isPrimitive = true) {s : Str}
    {ss : List Str} (h : ss ≠ [] ∨ NonIndex s) (i : ℕ) : leafElems i xs s ss = none := by
  induction xs generalizing i with
  | nil => rfl
  | cons x xs ih =>
    simp only [List.all_cons, Bool.and_eq_true] at hxs
    rw [leafElems, ih hxs.2, leafAt_primitive hxs.1]
    rcases h with hss | hs
    · simp [hss]
    · simp [hs i]

/-- A member of a description as the flattened constraint shows it. -/
def leaf (v : JSON) : Option JSON := leafAt v []

theorem leafAt_field {c : JSON} {f : Str} (h : Regular c) (hf : NonIndex f) (p : List Str) :
    leafAt c (p ++ [f]) = ((nodeAt c p).bind (·.member? f)).bind leaf := by
  induction p generalizing c with
  | nil =>
    cases c with
    | object kvs =>
      have hleaf : leafAt (object kvs) [f] = leafMembers kvs f [] := by
        cases kvs <;> rfl
      rw [List.nil_append, hleaf, leafMembers_lookup (valid_nodup h.valid) h.plain]
      rfl
    | array xs =>
      have hleaf : leafAt (array xs) [f] = leafElems 0 xs f [] := by
        cases xs <;> rfl
      rw [List.nil_append, hleaf, leafElems_primitive h.flat (.inr hf)]
      rfl
    | _ => rfl
  | cons k p ih =>
    cases c with
    | object kvs =>
      have hleaf : leafAt (object kvs) (k :: (p ++ [f])) = leafMembers kvs k (p ++ [f]) := by
        cases kvs <;> rfl
      rw [List.cons_append, hleaf, leafMembers_lookup (valid_nodup h.valid) h.plain, nodeAt,
        member?]
      cases hl : kvs.lookup k with
      | none => rfl
      | some v =>
        simp only [Option.bind_some]
        exact ih (h.member (lookup_mem hl)).2
    | array xs =>
      have hleaf : leafAt (array xs) (k :: (p ++ [f])) = leafElems 0 xs k (p ++ [f]) := by
        cases xs <;> rfl
      rw [List.cons_append, hleaf, leafElems_primitive h.flat (.inl (by simp))]
      rfl
    | _ => rfl

def scalarField (d : Members) (f : Str) : Option JSON := (d.lookup f).bind leaf

/-- The view of a parameter through its description. -/
def descView (d : Members) : ParamView where
  type := scalarField d (txt "Type")
  min := scalarField d (txt "Min")
  max := scalarField d (txt "Max")
  dflt := scalarField d (txt "Default")
  enum := .ok (d.lookup (txt "Enum"))

variable {c : JSON} {p : List Str}

theorem lookup_field (h : Regular c) (hp : SlashFree p) {f : Str} (hf : NonIndex f)
    (hslash : '/' ∉ f) : (flatten c).lookup (pathOf p ++ '/' :: f) =
      ((nodeAt c p).bind (·.member? f)).bind leaf := by
  have hfree : SlashFree (p ++ [f]) := by
    intro s hs
    rcases List.mem_append.mp hs with hs | hs
    · exact hp s hs
    · rw [List.mem_singleton.mp hs]
      exact hslash
  have hpath : pathOf p ++ '/' :: f = pathOf (p ++ [f]) := by simp
  rw [hpath, lookup_flatten c hfree, leafAt_field h hf]

theorem viewAt_described (h : Regular c) {d : Members}
    (hn : nodeAt c p = some (object d)) : viewAt c (pathOf p) = descView d := by
  have hp : PlainPath p := (h.node hn).1
  have hfield : ∀ {f : Str}, NonIndex f → '/' ∉ f →
      (flatten c).lookup (pathOf p ++ '/' :: f) = scalarField d f := by
    intro f hf hslash
    rw [lookup_field h hp.tokens.slashFree hf hslash, hn]
    rfl
  have henum : pathOf p ++ txt "/Enum" = pathOf (p ++ [txt "Enum"]) := by
    rw [pathOf_append, pathOf_cons, pathOf_nil, List.append_nil]
    rfl
  have hpe : PlainPath (p ++ [txt "Enum"]) := by
    intro k hk
    rcases List.mem_append.mp hk with hk | hk
    · exact hp k hk
    · rw [List.mem_singleton.mp hk]
      decide
  have hnode : nodeAt c (p ++ [txt "Enum"]) = d.lookup (txt "Enum") := by
    rw [nodeAt_append, hn]
    simp [nodeAt, member?]
  have hview : (viewAt c (pathOf p)).enum = .ok (d.lookup (txt "Enum")) := by
    simp only [viewAt, henum]
    rw [isContain_eq c hpe.tokens (by simp), hnode]
    cases hl : d.lookup (txt "Enum") with
    | none => rfl
    | some e =>
      rw [hl] at hnode
      rw [get_found (member_nil h.plain) (.inl rfl) hpe.tokens (by simp) hnode]
      rfl
  have htype : (viewAt c (pathOf p)).type = scalarField d (txt "Type") :=
    hfield (nonIndex_of_head (c := 'T') (by decide)) (by decide)
  have hmin : (viewAt c (pathOf p)).min = scalarField d (txt "Min") :=
    hfield (nonIndex_of_head (c := 'M') (by decide)) (by decide)
  have hmax : (viewAt c (pathOf p)).max = scalarField d (txt "Max") :=
    hfield (nonIndex_of_head (c := 'M') (by decide)) (by decide)
  have hdflt : (viewAt c (pathOf p)).dflt = scalarField d (txt "Default") :=
    hfield (nonIndex_of_head (c := 'D') (by decide)) (by decide)
  rw [descView, ← hview, ← htype, ← hmin, ← hmax, ← hdflt]

theorem viewAt_undescribed (h : Regular c) (hp : SlashFree p)
    (hn : ∀ d, nodeAt c p ≠ some (object d)) : (viewAt c (pathOf p)).type = none := by
  have htype := lookup_field h hp (nonIndex_of_head (c := 'T') (f := txt "ype") (by decide))
    (by decide)
  refine Eq.trans htype ?_
  cases hnode : nodeAt c p with
  | none => rfl
  | some w =>
    cases w with
    | object d => exact absurd hnode (hn d)
    | _ => rfl

end Fields

end ToolkitCpp.Config

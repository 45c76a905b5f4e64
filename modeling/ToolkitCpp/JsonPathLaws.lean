import ToolkitCpp.JsonPath

/-!
# Laws of the access by path

`isContainParamInJson`, `getParamValueFromJson`, `setParamValueToJson` and `removeElementFromJson`
follow the tokens of a path that are not empty, as long as no object on the way has an empty key.
The three that move a cursor enter such a key if there is one, so a value with an empty key that
was stored at a path can be missed when the path goes on with empty tokens.
-/
namespace ToolkitCpp.Json
open JSON Segments

/-- `j` without the member at a list of keys. -/
def removeAt : List Str → JSON → JSON
  | [k], object kvs => object (eraseKey k kvs)
  | k :: k' :: p, object kvs => object (update k (removeAt (k' :: p)) kvs)
  | _, j => j

/-- The loop of `removeElementFromJson`: the keys entered, or nothing if it throws. -/
def enter : List Str → JSON → Option (List Str)
  | [], _ => some []
  | token :: tokens, j =>
      match j.member? token with
      | some child => (enter tokens child).map (token :: ·)
      | none => if token = [] then enter tokens j else none

/-- The document after the call, and how the call ends. -/
def removeElementFromJson (js : JSON) (keyName : Str) : JSON × Except Exc Unit :=
  let keyName := chopped (rooted keyName)
  match enter (lines '/' keyName) js with
  | some (k :: path) => (removeAt (k :: path) js, .ok ())
  | _ => (js, .error (.config
      (txt "removeElementFromJson exception: No such parameter in JSON (" ++ keyName ++ [')'])))

mutual

/-- None of the objects has an empty key. -/
def noEmptyKeys : JSON → Bool
  | array xs => noEmptyKeysElems xs
  | object kvs => noEmptyKeysMembers kvs
  | _ => true

def noEmptyKeysElems : List JSON → Bool
  | [] => true
  | x :: xs => noEmptyKeys x && noEmptyKeysElems xs

def noEmptyKeysMembers : Members → Bool
  | [] => true
  | (k, x) :: xs => k ≠ [] && (noEmptyKeys x && noEmptyKeysMembers xs)

end

def nonEmpty (token : Str) : Bool := !token.isEmpty

/-- The keys that a path names. -/
def keysOf (keyName : Str) : List Str := (lines '/' keyName).filter nonEmpty

/-- Neither path is a beginning of the other. -/
def Apart (ks ls : List Str) : Prop := ¬ ks <+: ls ∧ ¬ ls <+: ks

structure PathLaws (js : JSON) (p : Str) (v : JSON) : Prop where
  get_iff : isContainParamInJson js p = true ↔ ∃ w, getParamValueFromJson js p = .ok w
  set_iff : isContainParamInJson js p = true ↔ (setParamValueToJson js p v).2 = .ok ()
  remove_iff : isContainParamInJson js p = true ↔ (removeElementFromJson js p).2 = .ok ()
  get_set : isContainParamInJson js p = true →
    getParamValueFromJson (setParamValueToJson js p v).1 p = .ok v
  removed : isContainParamInJson js p = true →
    isContainParamInJson (removeElementFromJson js p).1 p = false
  set_frame : isContainParamInJson js p = true → ∀ q, Apart (keysOf q) (keysOf p) →
    getParamValueFromJson (setParamValueToJson js p v).1 q = getParamValueFromJson js q
  remove_frame : isContainParamInJson js p = true → ∀ q, Apart (keysOf q) (keysOf p) →
    getParamValueFromJson (removeElementFromJson js p).1 q = getParamValueFromJson js q
  remove_failed : (removeElementFromJson js p).2 ≠ .ok () → (removeElementFromJson js p).1 = js

lemma nonEmpty_iff {token : Str} : nonEmpty token = true ↔ token ≠ [] := by
  simp [nonEmpty]

lemma filter_replicate_nil (n : ℕ) : (List.replicate n ([] : Str)).filter nonEmpty = [] := by
  rw [List.filter_eq_nil_iff]
  intro token htoken
  rw [List.eq_of_mem_replicate htoken]
  decide

lemma keysOf_rooted (p : Str) : keysOf (rooted p) = keysOf p := by
  unfold rooted
  split_ifs
  · rfl
  · rw [keysOf, lines, if_pos rfl, List.filter_cons_of_neg (by decide)]
    rfl

lemma nonEmpty_of_mem_keysOf {p k : Str} (h : k ∈ keysOf p) : k ≠ [] :=
  nonEmpty_iff.mp (List.mem_filter.mp h).2

/-- A path is a text that does not end in a slash, followed by slashes, or all slashes. -/
lemma slashes_behind (p : Str) : (∃ n, p = List.replicate n '/') ∨
    ∃ s x n, x ≠ '/' ∧ p = s ++ x :: List.replicate n '/' := by
  induction p using List.reverseRecOn with
  | nil => exact .inl ⟨0, rfl⟩
  | append_singleton p c ih =>
    by_cases hc : c = '/'
    · rcases ih with ⟨n, rfl⟩ | ⟨s, x, n, hx, rfl⟩
      · exact .inl ⟨n + 1, by rw [hc, List.replicate_succ']⟩
      · exact .inr ⟨s, x, n + 1, hx, by rw [hc, List.replicate_succ']; simp⟩
    · exact .inr ⟨p, c, 0, hc, rfl⟩

lemma keysOf_replicate (n : ℕ) : keysOf (List.replicate n '/') = [] := by
  rw [keysOf, lines_replicate, filter_replicate_nil]

lemma chopped_concat (s : Str) : chopped (s ++ ['/']) = s := by
  simp [chopped]

lemma three_slashes_iff {x : Char} (hx : x ≠ '/') (s : Str) (n : ℕ) :
    txt "///" <:+ s ++ x :: List.replicate n '/' ↔ 3 ≤ n := by
  constructor
  · intro h
    have hrev : ['/', '/', '/'] <+: List.replicate n '/' ++ x :: s.reverse := by
      have hprefix := List.reverse_prefix.mpr h
      rw [show (txt "///").reverse = ['/', '/', '/'] from rfl] at hprefix
      simpa using hprefix
    by_contra hn
    have hcases : n = 0 ∨ n = 1 ∨ n = 2 := by omega
    rcases hcases with rfl | rfl | rfl
    · simp [hx.symm] at hrev
    · simp [List.replicate_succ, hx.symm] at hrev
    · simp [List.replicate_succ, hx.symm] at hrev
  · intro h
    refine ⟨s ++ x :: List.replicate (n - 3) '/', ?_⟩
    have hsplit : List.replicate n '/' = List.replicate (n - 3) '/' ++ txt "///" := by
      rw [show txt "///" = List.replicate 3 '/' from rfl, List.replicate_append_replicate,
        Nat.sub_add_cancel h]
    rw [hsplit]
    simp

/-- The tokens of a path end in its last key and in empty tokens, of which the functions that cut
a slash off see one less. -/
lemma tokens_spec (p : Str) : keysOf p = [] ∧ keysOf (chopped (rooted p)) = [] ∨
    ∃ pre k n, k ≠ [] ∧ lines '/' (rooted p) = pre ++ k :: List.replicate (n - 1) [] ∧
      lines '/' (chopped (rooted p)) = pre ++ k :: List.replicate (n - 2) [] ∧
      (txt "///" <:+ p ↔ 3 ≤ n) := by
  rcases slashes_behind p with ⟨n, rfl⟩ | ⟨s, x, n, hx, rfl⟩
  · have hrooted : ∃ m, rooted (List.replicate n '/') = List.replicate (m + 1) '/' := by
      cases n with
      | zero => exact ⟨0, rfl⟩
      | succ n => exact ⟨n, by simp [rooted, List.replicate_succ]⟩
    obtain ⟨m, hm⟩ := hrooted
    have hchopped : chopped (List.replicate (m + 1) '/') = List.replicate m '/' := by
      rw [List.replicate_succ', chopped_concat]
    rw [hm, hchopped]
    exact .inl ⟨keysOf_replicate n, keysOf_replicate m⟩
  · have hrooted : ∃ s', rooted (s ++ x :: List.replicate n '/') =
        s' ++ x :: List.replicate n '/' := by
      unfold rooted
      split_ifs
      · exact ⟨s, rfl⟩
      · exact ⟨'/' :: s, rfl⟩
    obtain ⟨s', hs'⟩ := hrooted
    have hchopped : chopped (s' ++ x :: List.replicate n '/') =
        s' ++ x :: List.replicate (n - 1) '/' := by
      cases n with
      | zero => simp [chopped, hx]
      | succ n =>
        have hsnoc : s' ++ x :: List.replicate (n + 1) '/' =
            (s' ++ x :: List.replicate n '/') ++ ['/'] := by
          simp [List.replicate_succ']
        rw [hsnoc, chopped_concat, Nat.add_sub_cancel]
    obtain ⟨pre, k, hk, hlines⟩ := lines_concat hx s'
    refine .inr ⟨pre, k, n, hk, ?_, ?_, three_slashes_iff hx s n⟩
    · rw [hs', lines_concat_replicate hx, hlines]
      simp
    · rw [hs', hchopped, lines_concat_replicate hx, hlines, Nat.sub_sub]
      simp

lemma keysOf_chopped (p : Str) : keysOf (chopped (rooted p)) = keysOf p := by
  rcases tokens_spec p with ⟨hkeys, hchopped⟩ | ⟨pre, k, n, -, hlines, hchopped, -⟩
  · rw [hkeys, hchopped]
  · rw [← keysOf_rooted p, keysOf, keysOf, hlines, hchopped, List.filter_append,
      List.filter_append, List.filter_cons, List.filter_cons, filter_replicate_nil,
      filter_replicate_nil]

lemma noEmptyKeys_lookup {kvs : Members} (h : noEmptyKeysMembers kvs = true) :
    kvs.lookup [] = none ∧ ∀ k c, kvs.lookup k = some c → noEmptyKeys c = true := by
  induction kvs with
  | nil => simp
  | cons e rest ih =>
    obtain ⟨l, w⟩ := e
    simp only [noEmptyKeysMembers, Bool.and_eq_true, decide_eq_true_eq] at h
    obtain ⟨hl, hw, hrest⟩ := h
    obtain ⟨hnone, hall⟩ := ih hrest
    refine ⟨by rw [lookup_cons, if_neg (Ne.symm hl), hnone], fun k c hc => ?_⟩
    rw [lookup_cons] at hc
    split_ifs at hc with hk
    · cases hc
      exact hw
    · exact hall k c hc

lemma noEmptyKeys_member {j : JSON} (h : noEmptyKeys j = true) :
    j.member? [] = none ∧ ∀ k c, j.member? k = some c → noEmptyKeys c = true := by
  cases j with
  | object kvs =>
    rw [noEmptyKeys] at h
    exact noEmptyKeys_lookup h
  | _ => simp [member?]

lemma containsParts_eq (tokens : List Str) (j : JSON) (found : Bool) :
    containsParts tokens j found =
      if tokens.filter nonEmpty = [] then found
      else (nodeAt j (tokens.filter nonEmpty)).isSome := by
  induction tokens generalizing j found with
  | nil => rfl
  | cons token tokens ih =>
    rw [containsParts]
    by_cases htoken : token = []
    · rw [if_pos htoken, ih, List.filter_cons_of_neg (by simp [htoken, nonEmpty])]
    · rw [if_neg htoken, List.filter_cons_of_pos (nonEmpty_iff.mpr htoken),
        if_neg (List.cons_ne_nil _ _), nodeAt]
      cases j.member? token with
      | none => rfl
      | some child =>
        simp only [Option.bind_some, ih]
        split_ifs with hlast
        · rw [hlast]
          rfl
        · rfl

/-- Where no object has an empty key, a cursor follows the keys of the path. -/
lemma walk_plain {j : JSON} (hj : noEmptyKeys j = true) (tokens : List Str) (found : Bool) :
    (walk tokens j found).found = containsParts tokens j found ∧
      ((walk tokens j found).found = true →
        (walk tokens j found).path = tokens.filter nonEmpty) := by
  induction tokens generalizing j found with
  | nil => exact ⟨rfl, fun _ => rfl⟩
  | cons token tokens ih =>
    obtain ⟨hnil, hchild⟩ := noEmptyKeys_member hj
    rw [walk, containsParts]
    by_cases htoken : token = []
    · rw [if_pos htoken, htoken, hnil, List.filter_cons_of_neg (by decide)]
      exact ih hj found
    · rw [List.filter_cons_of_pos (nonEmpty_iff.mpr htoken)]
      simp only [htoken, if_false]
      cases hm : j.member? token with
      | none => exact ⟨rfl, fun h => Bool.noConfusion h⟩
      | some child =>
        obtain ⟨hfound, hpath⟩ := ih (hchild token child hm) true
        exact ⟨hfound, fun h => congrArg (token :: ·) (hpath h)⟩

lemma walk_start (tokens : List Str) (j : JSON) :
    (walk tokens j false).path = (walk tokens j true).path ∧
      ((walk tokens j false).found = true ↔
        (walk tokens j true).found = true ∧ (walk tokens j true).path ≠ []) := by
  induction tokens generalizing j with
  | nil => simp [walk]
  | cons token tokens ih =>
    rw [walk, walk]
    cases j.member? token with
    | some child => simp
    | none =>
      dsimp only
      split_ifs
      · exact ih j
      · simp

lemma enter_eq (tokens : List Str) (j : JSON) :
    enter tokens j =
      if (walk tokens j true).found then some (walk tokens j true).path else none := by
  induction tokens generalizing j with
  | nil => rfl
  | cons token tokens ih =>
    rw [enter, walk]
    cases j.member? token with
    | some child =>
      simp only [ih child]
      split_ifs <;> rfl
    | none =>
      by_cases htoken : token = []
      · simp only [htoken, if_true]
        exact ih j
      · simp only [htoken, if_false]
        rfl

lemma member_setAt (v : JSON) (k : Str) (ks : List Str) (j : JSON) (l : Str) :
    (setAt v (k :: ks) j).member? l =
      if l = k then (j.member? l).map (setAt v ks) else j.member? l := by
  cases j with
  | object kvs => exact lookup_update k l (setAt v ks) kvs
  | _ => simp [setAt, member?]

lemma member_removeAt_last (k : Str) (j : JSON) (l : Str) :
    (removeAt [k] j).member? l = if l = k then none else j.member? l := by
  cases j with
  | object kvs => exact lookup_eraseKey k l kvs
  | _ => simp [removeAt, member?]

lemma member_removeAt (k k' : Str) (ks : List Str) (j : JSON) (l : Str) :
    (removeAt (k :: k' :: ks) j).member? l =
      if l = k then (j.member? l).map (removeAt (k' :: ks)) else j.member? l := by
  cases j with
  | object kvs => exact lookup_update k l (removeAt (k' :: ks)) kvs
  | _ => simp [removeAt, member?]

lemma nodeAt_setAt {j w : JSON} {ks : List Str} (v : JSON) (h : nodeAt j ks = some w) :
    nodeAt (setAt v ks j) ks = some v := by
  induction ks generalizing j with
  | nil => rfl
  | cons k ks ih =>
    rw [nodeAt, Option.bind_eq_some_iff] at h
    obtain ⟨c, hc, hw⟩ := h
    rw [nodeAt, member_setAt, if_pos rfl, hc]
    exact ih hw

lemma nodeAt_removeAt (j : JSON) {ks : List Str} (hne : ks ≠ []) :
    nodeAt (removeAt ks j) ks = none := by
  induction ks generalizing j with
  | nil => exact absurd rfl hne
  | cons k ks ih =>
    cases ks with
    | nil => rw [nodeAt, member_removeAt_last, if_pos rfl, Option.bind_none]
    | cons k' ks =>
      rw [nodeAt, member_removeAt, if_pos rfl]
      cases j.member? k with
      | none => rfl
      | some c => exact ih c (List.cons_ne_nil _ _)

/-- No object before the end of the keys has an empty key. -/
def Clear : List Str → JSON → Prop
  | [], _ => True
  | k :: ks, j => j.member? [] = none ∧ ∀ c, j.member? k = some c → Clear ks c

lemma clear_of_noEmptyKeys {j : JSON} (hj : noEmptyKeys j = true) (ks : List Str) : Clear ks j := by
  induction ks generalizing j with
  | nil => trivial
  | cons k ks ih =>
    obtain ⟨hnil, hchild⟩ := noEmptyKeys_member hj
    exact ⟨hnil, fun c hc => ih (hchild k c hc)⟩

lemma Clear.setAt {j : JSON} {ks : List Str} (h : Clear ks j) (hks : ∀ k ∈ ks, k ≠ []) (v : JSON) :
    Clear ks (setAt v ks j) := by
  induction ks generalizing j with
  | nil => trivial
  | cons k ks ih =>
    obtain ⟨hnil, hchild⟩ := h
    have hk : k ≠ [] := hks k List.mem_cons_self
    constructor
    · rw [member_setAt, if_neg hk.symm, hnil]
    · intro c hc
      rw [member_setAt, if_pos rfl, Option.map_eq_some_iff] at hc
      obtain ⟨d, hd, rfl⟩ := hc
      exact ih (hchild d hd) fun l hl => hks l (List.mem_cons_of_mem k hl)

/-- A cursor that has come to the last key goes on from there. -/
lemma walk_front {j w : JSON} {front : List Str} {k : Str} (tokens : List Str) (found : Bool)
    (hclear : Clear (front.filter nonEmpty ++ [k]) j)
    (hnode : nodeAt j (front.filter nonEmpty ++ [k]) = some w) :
    (walk (front ++ k :: tokens) j found).found = (walk tokens w true).found ∧
      (walk (front ++ k :: tokens) j found).node = (walk tokens w true).node := by
  induction front generalizing j found with
  | nil =>
    rw [List.filter_nil, List.nil_append, nodeAt, Option.bind_eq_some_iff] at hnode
    obtain ⟨c, hc, hw⟩ := hnode
    cases hw
    rw [List.nil_append, walk, hc]
    exact ⟨rfl, rfl⟩
  | cons token front ih =>
    rw [List.cons_append, walk]
    by_cases htoken : token = []
    · rw [List.filter_cons_of_neg (by simp [htoken, nonEmpty])] at hclear hnode
      have hnil : j.member? token = none := by
        rw [htoken]
        cases hkeys : front.filter nonEmpty ++ [k] with
        | nil => simp at hkeys
        | cons l ls =>
          rw [hkeys] at hclear
          exact hclear.1
      rw [hnil]
      simp only [htoken, if_true]
      exact ih found hclear hnode
    · rw [List.filter_cons_of_pos (nonEmpty_iff.mpr htoken), List.cons_append] at hclear hnode
      rw [nodeAt, Option.bind_eq_some_iff] at hnode
      obtain ⟨c, hc, hw⟩ := hnode
      rw [hc]
      exact ih true (hclear.2 c hc) hw

/-- Two documents that differ only at and below the end of the keys. -/
def OffPath : List Str → JSON → JSON → Prop
  | [], _, _ => True
  | k :: ks, j, j' => (∀ l, l ≠ k → j'.member? l = j.member? l) ∧
      (ks ≠ [] → ∃ c c', j.member? k = some c ∧ j'.member? k = some c' ∧ OffPath ks c c')

lemma offPath_setAt {j w : JSON} {ks : List Str} (v : JSON) (h : nodeAt j ks = some w) :
    OffPath ks j (setAt v ks j) := by
  induction ks generalizing j with
  | nil => trivial
  | cons k ks ih =>
    rw [nodeAt, Option.bind_eq_some_iff] at h
    obtain ⟨c, hc, hw⟩ := h
    refine ⟨fun l hl => by rw [member_setAt, if_neg hl], fun _ => ⟨c, setAt v ks c, hc, ?_, ih hw⟩⟩
    rw [member_setAt, if_pos rfl, hc]
    rfl

lemma offPath_removeAt {j w : JSON} {ks : List Str} (h : nodeAt j ks = some w) :
    OffPath ks j (removeAt ks j) := by
  induction ks generalizing j with
  | nil => trivial
  | cons k ks ih =>
    rw [nodeAt, Option.bind_eq_some_iff] at h
    obtain ⟨c, hc, hw⟩ := h
    cases ks with
    | nil => exact ⟨fun l hl => by rw [member_removeAt_last, if_neg hl], fun hne => absurd rfl hne⟩
    | cons k' ks =>
      refine ⟨fun l hl => by rw [member_removeAt, if_neg hl],
        fun _ => ⟨c, removeAt (k' :: ks) c, hc, ?_, ih hw⟩⟩
      rw [member_removeAt, if_pos rfl, hc]
      rfl

/-- A cursor that leaves the keys before their end sees no difference. -/
lemma walk_offPath {ks : List Str} {j j' : JSON} (hoff : OffPath ks j j') (hks : ∀ k ∈ ks, k ≠ [])
    {tokens : List Str} (hapart : Apart (tokens.filter nonEmpty) ks) (found : Bool) :
    (walk tokens j' found).found = (walk tokens j found).found ∧
      ((walk tokens j found).found = true →
        (walk tokens j' found).node = (walk tokens j found).node) := by
  induction tokens generalizing ks j j' found with
  | nil => exact absurd List.nil_prefix hapart.1
  | cons token tokens ih =>
    cases ks with
    | nil => exact absurd List.nil_prefix hapart.2
    | cons k ks =>
      by_cases hsame : token = k
      · have hk : token ≠ [] := hsame ▸ hks k List.mem_cons_self
        rw [List.filter_cons_of_pos (nonEmpty_iff.mpr hk), Apart, hsame, List.cons_prefix_cons,
          List.cons_prefix_cons] at hapart
        obtain ⟨hnot, hnot'⟩ := hapart
        have hne : ks ≠ [] := by
          rintro rfl
          exact hnot' ⟨rfl, List.nil_prefix⟩
        obtain ⟨c, c', hc, hc', hrest⟩ := hoff.2 hne
        rw [walk, walk, hsame, hc, hc']
        exact ih hrest (fun l hl => hks l (List.mem_cons_of_mem k hl))
          ⟨fun h => hnot ⟨rfl, h⟩, fun h => hnot' ⟨rfl, h⟩⟩ true
      · rw [walk, walk, hoff.1 token hsame]
        cases j.member? token with
        | some c => exact ⟨rfl, fun _ => rfl⟩
        | none =>
          by_cases htoken : token = []
          · rw [List.filter_cons_of_neg (by simp [htoken, nonEmpty])] at hapart
            simp only [htoken, if_true]
            exact ih hoff hks hapart found
          · dsimp only
            rw [if_neg htoken, if_neg htoken]
            exact ⟨rfl, fun h => Bool.noConfusion h⟩

lemma sizeOf_member {j c : JSON} {k : Str} (h : j.member? k = some c) : sizeOf c < sizeOf j := by
  cases j with
  | object kvs =>
    have hmem : (k, c) ∈ kvs := by
      obtain ⟨before, behind, hkvs, -⟩ := List.lookup_eq_some_iff.mp h
      rw [hkvs]
      simp
    have hlt := List.sizeOf_lt_of_mem hmem
    simp only [Prod.mk.sizeOf_spec] at hlt
    rw [object.sizeOf_spec]
    omega
  | _ => simp [member?] at h

/-- Behind the last key a cursor enters empty keys as long as there are any. -/
lemma walk_empties (n : ℕ) (v : JSON) :
    (walk (List.replicate n []) v true).found = true ∧
      sizeOf (walk (List.replicate n []) v true).node ≤ sizeOf v ∧
      (v.member? [] = none → (walk (List.replicate n []) v true).node = v) := by
  induction n generalizing v with
  | zero => exact ⟨rfl, Nat.le_refl _, fun _ => rfl⟩
  | succ n ih =>
    rw [List.replicate_succ, walk]
    cases hm : v.member? [] with
    | none =>
      simp only [if_true]
      obtain ⟨hfound, hsize, hnode⟩ := ih v
      exact ⟨hfound, hsize, fun _ => hnode hm⟩
    | some c =>
      obtain ⟨hfound, hsize, -⟩ := ih c
      refine ⟨hfound, ?_, fun h => absurd h (Option.some_ne_none c)⟩
      exact Nat.le_trans hsize (Nat.le_of_lt (sizeOf_member hm))

lemma walk_empties_ne {v c : JSON} (h : v.member? [] = some c) (n : ℕ) :
    (walk (List.replicate (n + 1) []) v true).node ≠ v := by
  rw [List.replicate_succ, walk, h]
  intro hsame
  have hsize := (walk_empties n c).2.1
  have hlt := sizeOf_member h
  rw [hsame] at hsize
  omega

variable {js v : JSON} {p : Str}

lemma rooted_ne_nil (p : Str) : rooted p ≠ [] := by
  unfold rooted
  split_ifs with h
  · rintro rfl
    simp at h
  · simp

lemma contains_iff : isContainParamInJson js p = true ↔
    keysOf p ≠ [] ∧ ∃ w, nodeAt js (keysOf p) = some w := by
  rw [isContainParamInJson, stdvSplit_slash (rooted_ne_nil p), containsParts_eq,
    show (lines '/' (rooted p)).filter nonEmpty = keysOf p from keysOf_rooted p]
  split_ifs with h
  · simp [h]
  · simp [h, Option.isSome_iff_exists]

/-- The cursor of a spelling of the path. -/
lemma locate_spec (hjs : noEmptyKeys js = true) {s : Str} (hs : keysOf s = keysOf p) :
    (locate js s).found = isContainParamInJson js p ∧
      (isContainParamInJson js p = true → (locate js s).path = keysOf p ∧
        nodeAt js (keysOf p) = some (locate js s).node) := by
  obtain ⟨hfound, hpath⟩ := walk_plain hjs (lines '/' s) false
  have hcontains : containsParts (lines '/' s) js false = isContainParamInJson js p := by
    rw [isContainParamInJson, stdvSplit_slash (rooted_ne_nil p), containsParts_eq,
      containsParts_eq, show (lines '/' s).filter nonEmpty = keysOf p from hs,
      show (lines '/' (rooted p)).filter nonEmpty = keysOf p from keysOf_rooted p]
  have hlocated : (locate js s).found = isContainParamInJson js p := hfound.trans hcontains
  refine ⟨hlocated, fun h => ?_⟩
  have hkeys : (locate js s).path = keysOf p := (hpath (hlocated.trans h)).trans hs
  have hnode := nodeAt_walk (lines '/' s) js false
  rw [show (walk (lines '/' s) js false).path = keysOf p from hkeys] at hnode
  exact ⟨hkeys, hnode⟩

lemma removeElementFromJson_eq (js : JSON) (p : Str) :
    removeElementFromJson js p =
      if (locate js (chopped (rooted p))).found then
        (removeAt (locate js (chopped (rooted p))).path js, .ok ())
      else (js, .error (.config
        (txt "removeElementFromJson exception: No such parameter in JSON (" ++
          chopped (rooted p) ++ [')']))) := by
  obtain ⟨hpath, hfound⟩ := walk_start (lines '/' (chopped (rooted p))) js
  rw [removeElementFromJson, enter_eq, locate]
  by_cases hall : (walk (lines '/' (chopped (rooted p))) js true).found = true
  · rw [if_pos hall]
    cases hkeys : (walk (lines '/' (chopped (rooted p))) js true).path with
    | nil =>
      have hnot : ¬ (walk (lines '/' (chopped (rooted p))) js false).found = true := by
        rw [hfound, hkeys]
        simp
      rw [if_neg hnot]
    | cons k path =>
      have hyes : (walk (lines '/' (chopped (rooted p))) js false).found = true := by
        rw [hfound, hkeys]
        exact ⟨hall, List.cons_ne_nil _ _⟩
      rw [if_pos hyes, hpath, hkeys]
  · have hnot : ¬ (walk (lines '/' (chopped (rooted p))) js false).found = true := by
      rw [hfound]
      exact fun h => hall h.1
    rw [if_neg hall, if_neg hnot]

lemma getParamValueFromJson_iff (js : JSON) (p : Str) :
    (∃ w, getParamValueFromJson js p = .ok w) ↔
      (locate js (chopped (rooted p))).found = true := by
  simp only [getParamValueFromJson]
  split_ifs with h <;> simp [h]

lemma getParamValueFromJson_congr {js' : JSON} {q : Str}
    (h : (locate js' (chopped (rooted q))).found = (locate js (chopped (rooted q))).found ∧
      ((locate js (chopped (rooted q))).found = true →
        (locate js' (chopped (rooted q))).node = (locate js (chopped (rooted q))).node)) :
    getParamValueFromJson js' q = getParamValueFromJson js q := by
  simp only [getParamValueFromJson, h.1]
  split_ifs with hfound
  · rw [h.2 hfound]
  · rfl

/-- A value that is read at a path apart from the keys of a change is not changed. -/
lemma get_offPath {js' : JSON} {q : Str} (hoff : OffPath (keysOf p) js js')
    (hapart : Apart (keysOf q) (keysOf p)) :
    getParamValueFromJson js' q = getParamValueFromJson js q := by
  rw [← keysOf_chopped q] at hapart
  exact getParamValueFromJson_congr
    (walk_offPath hoff (fun k hk => nonEmpty_of_mem_keysOf hk) hapart false)

/-- What is stored is read back, unless it has an empty key and the path ends in three slashes. -/
lemma get_set_iff (hjs : noEmptyKeys js = true) (h : isContainParamInJson js p = true) :
    getParamValueFromJson (setAt v (keysOf p) js) p = .ok v ↔
      ¬ ((v.member? []).isSome ∧ txt "///" <:+ p) := by
  obtain ⟨hne, w, hw⟩ := contains_iff.mp h
  rcases tokens_spec p with ⟨hkeys, -⟩ | ⟨pre, k, n, hk, hlines, hchopped, hslashes⟩
  · exact absurd hkeys hne
  · have hkeys : keysOf p = pre.filter nonEmpty ++ [k] := by
      rw [← keysOf_rooted p, keysOf, hlines, List.filter_append,
        List.filter_cons_of_pos (nonEmpty_iff.mpr hk), filter_replicate_nil]
    have hclear : Clear (keysOf p) (setAt v (keysOf p) js) :=
      (clear_of_noEmptyKeys hjs _).setAt (fun l hl => nonEmpty_of_mem_keysOf hl) v
    have hnode : nodeAt (setAt v (keysOf p) js) (keysOf p) = some v := nodeAt_setAt v hw
    generalize setAt v (keysOf p) js = js' at hclear hnode ⊢
    rw [hkeys] at hclear hnode
    obtain ⟨hfound, hread⟩ := walk_front (List.replicate (n - 2) []) false hclear hnode
    rw [(walk_empties (n - 2) v).1] at hfound
    have hget : getParamValueFromJson js' p = .ok (walk (List.replicate (n - 2) []) v true).node := by
      simp only [getParamValueFromJson, locate, hchopped, hfound, if_true, hread]
    rw [hget, Except.ok.injEq, hslashes]
    cases hm : v.member? [] with
    | none => simp [(walk_empties (n - 2) v).2.2 hm]
    | some c =>
      by_cases hn : 3 ≤ n
      · obtain ⟨m, rfl⟩ : ∃ m, n = m + 3 := ⟨n - 3, by omega⟩
        simp [show m + 3 - 2 = m + 1 from rfl, walk_empties_ne hm m]
      · have hzero : n - 2 = 0 := by omega
        rw [hzero]
        simp [walk, hn]

/-- For every document without empty keys, every path and every value: the laws hold unless the
path is found, ends in three slashes, and the value has an empty key. -/
theorem pathLaws_iff (js : JSON) (p : Str) (v : JSON) (hjs : noEmptyKeys js = true) :
    PathLaws js p v ↔
      ¬ (isContainParamInJson js p = true ∧ (v.member? []).isSome ∧ txt "///" <:+ p) := by
  obtain ⟨hset, hsetPath⟩ := locate_spec hjs (keysOf_rooted p)
  obtain ⟨hget, hgetPath⟩ := locate_spec hjs (keysOf_chopped p)
  have hstored : isContainParamInJson js p = true →
      (setParamValueToJson js p v).1 = setAt v (keysOf p) js := by
    intro h
    simp only [setParamValueToJson, (hsetPath h).1]
  constructor
  · rintro hlaws ⟨hcontains, hslip⟩
    have hread := hlaws.get_set hcontains
    rw [hstored hcontains, get_set_iff hjs hcontains] at hread
    exact hread hslip
  · intro hno
    have hremoved : isContainParamInJson js p = true →
        removeElementFromJson js p = (removeAt (keysOf p) js, .ok ()) := by
      intro h
      rw [removeElementFromJson_eq, hget, if_pos h, (hgetPath h).1]
    refine ⟨?_, ?_, ?_, ?_, ?_, ?_, ?_, ?_⟩
    · rw [getParamValueFromJson_iff, hget]
    · simp only [setParamValueToJson, hset]
      split_ifs with h <;> simp [h]
    · rw [removeElementFromJson_eq, hget]
      split_ifs with h <;> simp [h]
    · intro h
      rw [hstored h, get_set_iff hjs h]
      exact fun hslip => hno ⟨h, hslip⟩
    · intro h
      obtain ⟨hne, -⟩ := contains_iff.mp h
      rw [hremoved h, Bool.eq_false_iff, ne_eq, contains_iff, nodeAt_removeAt js hne]
      simp
    · intro h q hapart
      rw [hstored h]
      exact get_offPath (offPath_setAt v (hsetPath h).2) hapart
    · intro h q hapart
      rw [hremoved h]
      exact get_offPath (offPath_removeAt (hgetPath h).2) hapart
    · rw [removeElementFromJson_eq]
      split_ifs with h
      · exact fun hne => absurd rfl hne
      · exact fun _ => rfl

/-- A parameter inside a section, spelled with doubled and trailing slashes. -/
theorem pathLaws_iff_section :
    PathLaws (object [(txt "A", object [(txt "B", integer 1)])]) (txt "A//B//") (integer 5) :=
  (pathLaws_iff _ _ _ (by decide)).mpr (by decide)

theorem pathLaws_fail : ¬ ∀ (js : JSON) (p : Str) (v : JSON), noEmptyKeys js = true →
    PathLaws js p v := by
  intro h
  have hlaws := h (object [(txt "A", integer 1)]) (txt "A///") (object [([], integer 5)]) (by decide)
  exact absurd (hlaws.get_set (by decide)) (by decide)

end ToolkitCpp.Json

import ToolkitCpp.JsonLeaves

/-!
# Patches

`diff` writes down the operations that turn one value into another, each with a JSON pointer to
where it is carried out; `patch` carries a list of operations out. An operation whose pointer
begins with a token acts on the child that the token names and leaves the rest alone, so a patch
is followed down the two values as `diff` was.
-/
namespace ToolkitCpp.Json

open JSON

/-- The operations that `diff` writes; a patch knows three more kinds. -/
inductive Operation
  | add (path : Str) (value : JSON)
  | remove (path : Str)
  | replace (path : Str) (value : JSON)

def Operation.path : Operation → Str
  | add path _ => path
  | remove path => path
  | replace path _ => path

def Operation.isReplace : Operation → Bool
  | replace _ _ => true
  | _ => false

/-- The elements of the source behind the end of the target. Each operation is put in front of
those written before, so the last element goes first. -/
def removals (path : Str) (i : ℕ) : List JSON → List Operation
  | [] => []
  | _ :: xs => removals path (i + 1) xs ++ [.remove (path ++ '/' :: toString i)]

/-- The second pass over two objects. -/
def additions (path : Str) (source target : Members) : List Operation :=
  (target.filter fun e => (source.lookup e.1).isNone).map
    fun e => .add (path ++ '/' :: escape e.1) e.2

mutual

def diff (path : Str) (source target : JSON) : List Operation :=
  if eqv source target then []
  else
    match source, target with
    | array xs, array ys => diffElems path 0 xs ys
    | object kvs, object lvs => diffMembers path lvs kvs ++ additions path kvs lvs
    -- Values of different kinds, and two primitive values.
    | _, _ => [.replace path target]

def diffElems (path : Str) (i : ℕ) : List JSON → List JSON → List Operation
  | x :: xs, y :: ys => diff (path ++ '/' :: toString i) x y ++ diffElems path (i + 1) xs ys
  | [], ys => ys.map (.add (path ++ txt "/-"))
  | x :: xs, [] => removals path i (x :: xs)

/-- The first pass over two objects. -/
def diffMembers (path : Str) (target : Members) : Members → List Operation
  | [] => []
  | (k, v) :: kvs =>
      (match target.lookup k with
      | some w => diff (path ++ '/' :: escape k) v w
      | none => [.remove (path ++ '/' :: escape k)]) ++ diffMembers path target kvs

end

/-- `f` applied to the value that `at` finds through a pointer. -/
def modifyAt (f : JSON → Except Exc JSON) : List Str → JSON → Except Exc JSON
  | [], j => f j
  | t :: ts, object kvs =>
      match kvs.lookup t with
      | none => .error (.json 403)
      | some v => do
          let v ← modifyAt f ts v
          .ok (object (update t (fun _ => v) kvs))
  | t :: ts, array xs =>
      if t = txt "-" then .error (.json 402)
      else do
        let i ← arrayIndex t
        match xs[i]? with
        | none => .error (.json 401)
        | some x => do
            let x ← modifyAt f ts x
            .ok (array (xs.set i x))
  | _ :: _, _ => .error (.json 404)

/-- What `operation_add` does with the parent of the new value. -/
def addTo (lastPath : Str) (val : JSON) : JSON → Except Exc JSON
  | null => .ok (object [(lastPath, val)])
  | object kvs => .ok (object (put lastPath val kvs))
  | array xs =>
      if lastPath = txt "-" then .ok (array (xs ++ [val]))
      else do
        let idx ← arrayIndex lastPath
        if xs.length < idx then .error (.json 401) else .ok (array (xs.insertIdx idx val))
  -- Here the library has only an assertion.
  | _ => .error .undefined

/-- What `operation_remove` does with the parent of the value. -/
def removeFrom (lastPath : Str) : JSON → Except Exc JSON
  | object kvs =>
      if (kvs.lookup lastPath).isSome then .ok (object (eraseKey lastPath kvs))
      else .error (.json 403)
  | array xs => do
      let idx ← arrayIndex lastPath
      if idx < xs.length then .ok (array (xs.eraseIdx idx)) else .error (.json 401)
  | j => .ok j

/-- The first token is looked up twice if it is not the last, the first time only to see whether
it leads anywhere. -/
def operationAdd (ptr : List Str) (val result : JSON) : Except Exc JSON :=
  match ptr.getLast? with
  | none => .ok val
  | some lastPath => modifyAt (addTo lastPath val) ptr.dropLast result

def operationRemove (ptr : List Str) (result : JSON) : Except Exc JSON :=
  match ptr.getLast? with
  | none => .error (.json 405)
  | some lastPath => modifyAt (removeFrom lastPath) ptr.dropLast result

def operate (result : JSON) : Operation → Except Exc JSON
  | .add path value => do
      let ptr ← pointerTokens path
      operationAdd ptr value result
  | .remove path => do
      let ptr ← pointerTokens path
      operationRemove ptr result
  | .replace path value => do
      let ptr ← pointerTokens path
      modifyAt (fun _ => .ok value) ptr result

def patch (j : JSON) (ops : List Operation) : Except Exc JSON := ops.foldlM operate j

lemma digitChar_pos : ∀ d < 10, 0 < d → ('1' ≤ d.digitChar && d.digitChar ≤ '9') = true := by
  decide

lemma head_toString {i : ℕ} (hi : 0 < i) :
    ∃ c s, toString i = c :: s ∧ ('1' ≤ c && c ≤ '9') = true := by
  induction i using Nat.strong_induction_on with
  | h i ih =>
    by_cases hlt : i < 10
    · exact ⟨i.digitChar, [], Nat.toDigits_of_lt_base hlt, digitChar_pos i hlt hi⟩
    · have hdiv : i / 10 < i := Nat.div_lt_self hi (by decide)
      obtain ⟨c, s, hs, hc⟩ := ih (i / 10) hdiv (by omega)
      refine ⟨c, s ++ [(i % 10).digitChar], ?_, hc⟩
      rw [toString] at hs ⊢
      rw [Nat.toDigits_of_base_le (by decide) (Nat.not_lt.mp hlt), hs]
      rfl

lemma isDigit_toString (i : ℕ) : (toString i).all Char.isDigit = true :=
  List.all_eq_true.mpr fun _ hc => Nat.isDigit_of_mem_toDigits (by decide) (by decide) hc

/-- An index written in decimal is read back. -/
theorem arrayIndex_toString {i : ℕ} (hi : i < 2 ^ 63) : arrayIndex (toString i) = .ok i := by
  have hread : (toString i).foldl (fun n c => 10 * n + (c.toNat - '0'.toNat)) 0 = i :=
    Nat.ofDigitChars_ten_toDigits
  rcases Nat.eq_zero_or_pos i with rfl | hpos
  · rfl
  · obtain ⟨c, s, hs, hc⟩ := head_toString hpos
    have hzero : c ≠ '0' := by
      rintro rfl
      exact absurd hc (by decide)
    have hall := isDigit_toString i
    rw [hs] at hread hall ⊢
    have hne : ¬ (c :: s = [] ∨ ¬ (c :: s).all Char.isDigit = true) := by
      simp only [hall]
      simp
    rw [arrayIndex, if_neg (by simp [hzero]), if_neg (by simp [hc]), if_neg hne, hread]
    dsimp only
    rw [if_neg (by omega), if_neg (by omega)]

lemma toString_ne_dash (i : ℕ) : toString i ≠ txt "-" := by
  intro h
  have hall := isDigit_toString i
  rw [h] at hall
  exact absurd hall (by decide)

lemma escape_toString (i : ℕ) : escape (toString i) = toString i := by
  apply escape_eq_self
  · intro h
    have hdigit := List.all_eq_true.mp (isDigit_toString i) _ h
    exact absurd hdigit (by decide)
  · exact toString_slashFree i

/-- The operation at its pointer below another one. -/
def Operation.under (ref : Str) : Operation → Operation
  | add path value => add (ref ++ path) value
  | remove path => remove (ref ++ path)
  | replace path value => replace (ref ++ path) value

@[simp] lemma path_under (ref : Str) (op : Operation) : (op.under ref).path = ref ++ op.path := by
  cases op <;> rfl

@[simp] lemma isReplace_under (ref : Str) (op : Operation) :
    (op.under ref).isReplace = op.isReplace := by
  cases op <;> rfl

lemma removals_under (ref path : Str) (i : ℕ) (xs : List JSON) :
    removals (ref ++ path) i xs = (removals path i xs).map (.under ref) := by
  induction xs generalizing i with
  | nil => rfl
  | cons x xs ih => simp [removals, ih, Operation.under]

lemma additions_under (ref path : Str) (kvs lvs : Members) :
    additions (ref ++ path) kvs lvs = (additions path kvs lvs).map (.under ref) := by
  simp [additions, Operation.under]

lemma diff_array (path : Str) (xs ys : List JSON) : diff path (array xs) (array ys) =
    if eqv (array xs) (array ys) then [] else diffElems path 0 xs ys := by
  rw [diff]

lemma diff_object (path : Str) (kvs lvs : Members) : diff path (object kvs) (object lvs) =
    if eqv (object kvs) (object lvs) then []
    else diffMembers path lvs kvs ++ additions path kvs lvs := by
  rw [diff]

/-- Two arrays or two objects. -/
def bothContainers : JSON → JSON → Bool
  | array _, array _ => true
  | object _, object _ => true
  | _, _ => false

lemma diff_replace {source target : JSON} (h : bothContainers source target = false) (path : Str) :
    diff path source target = if eqv source target then [] else [.replace path target] := by
  rw [diff]
  · rintro xs ys rfl rfl
    exact Bool.noConfusion h
  · rintro kvs lvs rfl rfl
    exact Bool.noConfusion h

lemma diff_replace_under {source target : JSON} (h : bothContainers source target = false)
    (ref path : Str) :
    diff (ref ++ path) source target = (diff path source target).map (.under ref) := by
  rw [diff_replace h, diff_replace h]
  split_ifs
  · rfl
  · rfl

mutual

theorem diff_under (ref path : Str) :
    ∀ source target, diff (ref ++ path) source target = (diff path source target).map (.under ref)
  | array xs, target => by
      cases target with
      | array ys =>
        rw [diff_array, diff_array]
        split_ifs
        · rfl
        · exact diffElems_under ref path 0 xs ys
      | _ => exact diff_replace_under rfl ref path
  | object kvs, target => by
      cases target with
      | object lvs =>
        rw [diff_object, diff_object]
        split_ifs
        · rfl
        · rw [List.map_append, diffMembers_under ref path lvs kvs, additions_under]
      | _ => exact diff_replace_under rfl ref path
  | null, _ => diff_replace_under rfl ref path
  | boolean _, _ => diff_replace_under rfl ref path
  | integer _, _ => diff_replace_under rfl ref path
  | unsigned _, _ => diff_replace_under rfl ref path
  | float _, _ => diff_replace_under rfl ref path
  | string _, _ => diff_replace_under rfl ref path

theorem diffElems_under (ref path : Str) (i : ℕ) :
    ∀ xs ys, diffElems (ref ++ path) i xs ys = (diffElems path i xs ys).map (.under ref)
  | x :: xs, y :: ys => by
      rw [diffElems, diffElems, List.map_append, ← diffElems_under ref path (i + 1) xs ys,
        ← diff_under ref (path ++ '/' :: toString i) x y, List.append_assoc]
  | [], ys => by simp [diffElems, Operation.under]
  | x :: xs, [] => by
      rw [diffElems, diffElems, removals_under]

theorem diffMembers_under (ref path : Str) (target : Members) : ∀ kvs,
    diffMembers (ref ++ path) target kvs = (diffMembers path target kvs).map (.under ref)
  | [] => rfl
  | (k, v) :: kvs => by
      rw [diffMembers, diffMembers, List.map_append, ← diffMembers_under ref path target kvs,
        List.append_assoc]
      cases target.lookup k with
      | none => rfl
      | some w => rw [← diff_under ref (path ++ '/' :: escape k) v w]

end

/-- The operation is carried out somewhere below the root. -/
def Operation.Inner (op : Operation) : Prop := ∃ t ts, pointerTokens op.path = .ok (t :: ts)

lemma cut_of_tokens {p : Str} {ts : List Str} (h : pointerTokens p = .ok ts) : Cut p := by
  cases p with
  | nil => exact .inl rfl
  | cons c q =>
    rw [pointerTokens] at h
    split_ifs at h with hc
    exact .inr (by simpa using hc)

lemma Operation.Inner.under {op : Operation} (h : op.Inner) (k : Str) :
    (op.under ('/' :: escape k)).Inner := by
  obtain ⟨t, ts, hts⟩ := h
  refine ⟨k, t :: ts, ?_⟩
  rw [path_under, List.cons_append, pointerTokens_escape k (cut_of_tokens hts), hts]
  rfl

lemma modifyAt_cons (f : JSON → Except Exc JSON) (t : Str) (ts : List Str) (j : JSON) :
    modifyAt f (t :: ts) j = modifyAt (modifyAt f ts) [t] j := by
  cases j <;> rfl

/-- The operation with its pointer split already. -/
def Operation.carryOut (ptr : List Str) (result : JSON) : Operation → Except Exc JSON
  | add _ value => operationAdd ptr value result
  | remove _ => operationRemove ptr result
  | replace _ value => modifyAt (fun _ => .ok value) ptr result

lemma operate_of_tokens {op : Operation} {ptr : List Str} (h : pointerTokens op.path = .ok ptr)
    (j : JSON) : operate j op = op.carryOut ptr j := by
  cases op with
  | add path value =>
    rw [operate, show pointerTokens path = .ok ptr from h]
    rfl
  | remove path =>
    rw [operate, show pointerTokens path = .ok ptr from h]
    rfl
  | replace path value =>
    rw [operate, show pointerTokens path = .ok ptr from h]
    rfl

lemma carryOut_under (ref : Str) (op : Operation) (ptr : List Str) (j : JSON) :
    (op.under ref).carryOut ptr j = op.carryOut ptr j := by
  cases op <;> rfl

lemma carryOut_cons (op : Operation) (k t : Str) (ts : List Str) (j : JSON) :
    op.carryOut (k :: t :: ts) j = modifyAt (fun v => op.carryOut (t :: ts) v) [k] j := by
  have hlast : (t :: ts).getLast? = some ((t :: ts).getLast (List.cons_ne_nil t ts)) :=
    List.getLast?_eq_some_getLast _
  cases op with
  | add path value =>
    simp only [Operation.carryOut, operationAdd, List.getLast?_cons_cons, hlast,
      List.dropLast_cons_cons]
    exact modifyAt_cons _ k _ j
  | remove path =>
    simp only [Operation.carryOut, operationRemove, List.getLast?_cons_cons, hlast,
      List.dropLast_cons_cons]
    exact modifyAt_cons _ k _ j
  | replace path value => exact modifyAt_cons _ k _ j

/-- An operation whose pointer begins with a token is carried out at the child it names. -/
theorem operate_under {op : Operation} (h : op.Inner) (k : Str) (j : JSON) :
    operate j (op.under ('/' :: escape k)) = modifyAt (operate · op) [k] j := by
  obtain ⟨t, ts, hts⟩ := h
  have htokens : pointerTokens (op.under ('/' :: escape k)).path = .ok (k :: t :: ts) := by
    rw [path_under, List.cons_append, pointerTokens_escape k (cut_of_tokens hts), hts]
    rfl
  have hchild : (operate · op) = fun v => op.carryOut (t :: ts) v :=
    funext fun v => operate_of_tokens hts v
  rw [operate_of_tokens htokens, carryOut_under, carryOut_cons, hchild]

lemma patch_cons (j : JSON) (op : Operation) (ops : List Operation) :
    patch j (op :: ops) = (operate j op).bind (patch · ops) := rfl

lemma patch_append (j : JSON) (ops ops' : List Operation) :
    patch j (ops ++ ops') = (patch j ops).bind (patch · ops') :=
  List.foldlM_append

/-- A patch whose pointers begin with a token runs at the child, wherever that is plugged in. -/
theorem patch_under {k : Str} {plug : JSON → JSON}
    (hplug : ∀ f v, modifyAt f [k] (plug v) = (f v).map plug) {ops : List Operation}
    (hops : ∀ op ∈ ops, op.Inner) (v : JSON) :
    patch (plug v) (ops.map (.under ('/' :: escape k))) = (patch v ops).map plug := by
  induction ops generalizing v with
  | nil => rfl
  | cons op ops ih =>
    rw [List.map_cons, patch_cons, operate_under (hops op (by simp)), hplug, patch_cons]
    cases operate v op with
    | error e => rfl
    | ok w => exact ih (fun o ho => hops o (by simp [ho])) w

lemma modifyAt_member {k : Str} {ds : Members} (hk : k ∉ ds.map Prod.fst) (rest : Members)
    (f : JSON → Except Exc JSON) (v : JSON) : modifyAt f [k] (object (ds ++ (k, v) :: rest)) =
      (f v).map fun w => object (ds ++ (k, w) :: rest) := by
  rw [modifyAt, lookup_append_cons hk]
  simp only [modifyAt]
  cases f v with
  | error e => rfl
  | ok w =>
    simp only [bind, Except.bind, Except.map, update_append_cons hk]

lemma modifyAt_elem {ds : List JSON} (hds : ds.length < 2 ^ 63) (xs : List JSON)
    (f : JSON → Except Exc JSON) (x : JSON) :
    modifyAt f [toString ds.length] (array (ds ++ x :: xs)) =
      (f x).map fun y => array (ds ++ y :: xs) := by
  rw [modifyAt, if_neg (toString_ne_dash _), arrayIndex_toString hds]
  simp only [modifyAt, bind, Except.bind, List.getElem?_append_right (Nat.le_refl _), Nat.sub_self,
    List.getElem?_cons_zero]
  cases f x with
  | error e => rfl
  | ok y => simp [Except.map]

lemma pointerTokens_single (k : Str) : pointerTokens ('/' :: escape k) = .ok [k] := by
  have htokens := pointerTokens_escape k (.inl rfl : Cut [])
  rwa [List.append_nil] at htokens

lemma pointerTokens_index (i : ℕ) : pointerTokens ('/' :: toString i) = .ok [toString i] := by
  have htokens := pointerTokens_single (toString i)
  rwa [escape_toString] at htokens

lemma operate_add_key (kvs : Members) (k : Str) (v : JSON) :
    operate (object kvs) (.add ('/' :: escape k) v) = .ok (object (put k v kvs)) := by
  rw [operate, pointerTokens_single]
  rfl

lemma operate_remove_key {kvs : Members} {k : Str} {v : JSON} (h : kvs.lookup k = some v) :
    operate (object kvs) (.remove ('/' :: escape k)) = .ok (object (eraseKey k kvs)) := by
  rw [operate, pointerTokens_single]
  simp [bind, Except.bind, operationRemove, modifyAt, removeFrom, h]

lemma operate_add_end (xs : List JSON) (v : JSON) :
    operate (array xs) (.add (txt "/-") v) = .ok (array (xs ++ [v])) := by
  rw [operate, show pointerTokens (txt "/-") = .ok [txt "-"] from pointerTokens_single (txt "-")]
  rfl

lemma operate_remove_end {ds : List JSON} (hds : ds.length < 2 ^ 63) (x : JSON) :
    operate (array (ds ++ [x])) (.remove ('/' :: toString ds.length)) = .ok (array ds) := by
  rw [operate, pointerTokens_index]
  simp [bind, Except.bind, operationRemove, modifyAt, removeFrom, arrayIndex_toString hds,
    List.eraseIdx_append_of_length_le]

/-- The elements at the end are removed from the last to the first. -/
theorem patch_removals (ds xs : List JSON) (h : ds.length + xs.length < 2 ^ 63) :
    patch (array (ds ++ xs)) (removals [] ds.length xs) = .ok (array ds) := by
  induction xs generalizing ds with
  | nil =>
    rw [List.append_nil]
    rfl
  | cons x xs ih =>
    rw [List.length_cons] at h
    have hrest := ih (ds ++ [x]) (by simp; omega)
    rw [List.length_append, List.length_singleton, List.append_assoc] at hrest
    rw [removals, patch_append, show ds ++ x :: xs = ds ++ ([x] ++ xs) from rfl, hrest]
    simp only [Except.bind]
    rw [patch_cons, List.nil_append, operate_remove_end (by omega)]
    rfl

theorem patch_additions_end (ds ys : List JSON) :
    patch (array ds) (ys.map (.add (txt "/-"))) = .ok (array (ds ++ ys)) := by
  induction ys generalizing ds with
  | nil =>
    rw [List.append_nil]
    rfl
  | cons y ys ih =>
    rw [List.map_cons, patch_cons, operate_add_end]
    simp only [Except.bind]
    rw [ih, List.append_assoc]
    rfl

/-- Members put one after the other. -/
def putAll (kvs news : Members) : Members := news.foldl (fun m e => put e.1 e.2 m) kvs

lemma putAll_ordered {kvs : Members} (h : (kvs.map Prod.fst).Pairwise (· < ·)) (news : Members) :
    ((putAll kvs news).map Prod.fst).Pairwise (· < ·) := by
  induction news generalizing kvs with
  | nil => exact h
  | cons e news ih => exact ih (put_pairwise e.1 e.2 h)

lemma lookup_putAll (kvs : Members) {news : Members} (hnews : (news.map Prod.fst).Nodup) (k : Str) :
    (putAll kvs news).lookup k = (news.lookup k).or (kvs.lookup k) := by
  induction news generalizing kvs with
  | nil => rfl
  | cons e news ih =>
    obtain ⟨l, w⟩ := e
    rw [List.map_cons, List.nodup_cons] at hnews
    have hput : (putAll kvs ((l, w) :: news)).lookup k =
        (news.lookup k).or ((put l w kvs).lookup k) := ih (put l w kvs) hnews.2
    rw [hput, lookup_put, lookup_cons]
    by_cases hk : k = l
    · simp [hk, lookup_eq_none_of_notMem hnews.1]
    · simp [hk]

theorem patch_additions_keys (kvs news : Members) :
    patch (object kvs) (news.map fun e => .add ('/' :: escape e.1) e.2) =
      .ok (object (putAll kvs news)) := by
  induction news generalizing kvs with
  | nil => rfl
  | cons e news ih =>
    rw [List.map_cons, patch_cons, operate_add_key]
    exact ih (put e.1 e.2 kvs)

lemma diff_token (k : Str) (source target : JSON) : diff ('/' :: escape k) source target =
    (diff [] source target).map (.under ('/' :: escape k)) := by
  have hunder := diff_under ('/' :: escape k) [] source target
  rwa [List.append_nil] at hunder

lemma diff_index (i : ℕ) (source target : JSON) : diff ('/' :: toString i) source target =
    (diff [] source target).map (.under ('/' :: escape (toString i))) := by
  rw [← diff_token, escape_toString]

/-- Replacing is the only operation that `diff` asks for at the root. -/
def InnerOrReplace (ops : List Operation) : Prop := ∀ op ∈ ops, op.isReplace = false → op.Inner

lemma InnerOrReplace.append {ops ops' : List Operation} (h : InnerOrReplace ops)
    (h' : InnerOrReplace ops') : InnerOrReplace (ops ++ ops') := by
  intro op hop
  rcases List.mem_append.mp hop with hop | hop
  · exact h op hop
  · exact h' op hop

lemma InnerOrReplace.under {ops : List Operation} (h : InnerOrReplace ops) (k : Str) :
    InnerOrReplace (ops.map (.under ('/' :: escape k))) := by
  intro op hop hkind
  obtain ⟨op, hmem, rfl⟩ := List.mem_map.mp hop
  rw [isReplace_under] at hkind
  exact (h op hmem hkind).under k

lemma removals_inner (i : ℕ) (xs : List JSON) : InnerOrReplace (removals [] i xs) := by
  induction xs generalizing i with
  | nil =>
    intro op hop
    exact absurd hop List.not_mem_nil
  | cons x xs ih =>
    refine (ih (i + 1)).append ?_
    intro op hop _
    rw [List.mem_singleton.mp hop]
    exact ⟨_, _, pointerTokens_index i⟩

lemma diff_replace_inner {source target : JSON} (h : bothContainers source target = false) :
    InnerOrReplace (diff [] source target) := by
  rw [diff_replace h]
  intro op hop hkind
  split_ifs at hop
  · exact absurd hop List.not_mem_nil
  · rw [List.mem_singleton.mp hop] at hkind
    exact Bool.noConfusion hkind

lemma additions_inner (kvs lvs : Members) : InnerOrReplace (additions [] kvs lvs) := by
  intro op hop _
  obtain ⟨e, -, rfl⟩ := List.mem_map.mp hop
  exact ⟨_, _, pointerTokens_single e.1⟩

mutual

theorem diff_inner : ∀ source target, InnerOrReplace (diff [] source target)
  | array xs, target => by
      cases target with
      | array ys =>
        rw [diff_array]
        split_ifs
        · intro op hop
          exact absurd hop List.not_mem_nil
        · exact diffElems_inner 0 xs ys
      | _ => exact diff_replace_inner rfl
  | object kvs, target => by
      cases target with
      | object lvs =>
        rw [diff_object]
        split_ifs
        · intro op hop
          exact absurd hop List.not_mem_nil
        · exact (diffMembers_inner lvs kvs).append (additions_inner kvs lvs)
      | _ => exact diff_replace_inner rfl
  | null, _ => diff_replace_inner rfl
  | boolean _, _ => diff_replace_inner rfl
  | integer _, _ => diff_replace_inner rfl
  | unsigned _, _ => diff_replace_inner rfl
  | float _, _ => diff_replace_inner rfl
  | string _, _ => diff_replace_inner rfl

theorem diffElems_inner (i : ℕ) : ∀ xs ys, InnerOrReplace (diffElems [] i xs ys)
  | x :: xs, y :: ys => by
      rw [diffElems, List.nil_append, diff_index]
      exact ((diff_inner x y).under (toString i)).append (diffElems_inner (i + 1) xs ys)
  | [], ys => by
      intro op hop _
      rw [diffElems] at hop
      obtain ⟨y, -, rfl⟩ := List.mem_map.mp hop
      exact ⟨_, _, pointerTokens_single (txt "-")⟩
  | x :: xs, [] => by
      rw [diffElems]
      exact removals_inner i (x :: xs)

theorem diffMembers_inner (target : Members) : ∀ kvs, InnerOrReplace (diffMembers [] target kvs)
  | [] => by
      intro op hop
      exact absurd hop List.not_mem_nil
  | (k, v) :: kvs => by
      rw [diffMembers]
      refine InnerOrReplace.append ?_ (diffMembers_inner target kvs)
      cases target.lookup k with
      | none =>
        intro op hop _
        rw [List.mem_singleton.mp hop]
        exact ⟨_, _, pointerTokens_single k⟩
      | some w =>
        dsimp only
        rw [List.nil_append, diff_token]
        exact (diff_inner v w).under k

end

end ToolkitCpp.Json

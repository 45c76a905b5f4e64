import ToolkitCpp.JsonPatch

/-!
# Fitting a document to a template

`removeUnfamiliarField` writes the difference between a document and a template down as a patch,
takes the replacing operations out and carries the rest out. What is left of the patch removes
what the template lacks and adds what the document lacks, so the result has the shape of the
template and keeps the values of the document.
-/
namespace ToolkitCpp.Json

open JSON

/-- The loop over `patchForSearch`. The counter has no sign in the source: it is decreased from 0
to its largest value, which is -1 here, and increased to 0 again before it is used. -/
def eraseReplaces : List Operation → List Operation → ℤ → Except Exc (List Operation)
  | [], patch, _ => .ok patch
  | it :: patchForSearch, patch, idx =>
      if it.isReplace then
        if 0 ≤ idx ∧ idx < patch.length then
          eraseReplaces patchForSearch (patch.eraseIdx idx.toNat) (idx - 1 + 1)
        else .error (.json 401)
      else eraseReplaces patchForSearch patch (idx + 1)

/-- The operations that are left are also printed, which texts made of characters always can be. -/
def removeUnfamiliarField (inJs templateJs : JSON) : Except Exc JSON := do
  let ops := diff [] inJs templateJs
  let ops ← eraseReplaces ops ops 0
  if !ops.isEmpty then patch inJs ops else .ok inJs

mutual

/-- The value `inJs` brought into the shape of a template. -/
def merge : JSON → JSON → JSON
  | array xs, array ys => array (mergeElems xs ys)
  | object kvs, object lvs => object (mergeMembers kvs lvs)
  | inJs, _ => inJs

def mergeElems : List JSON → List JSON → List JSON
  | _, [] => []
  | [], y :: ys => y :: ys
  | x :: xs, y :: ys => merge x y :: mergeElems xs ys

def mergeMembers (kvs : Members) : Members → Members
  | [] => []
  | (k, w) :: lvs =>
      (k, match kvs.lookup k with
          | some v => merge v w
          | none => w) :: mergeMembers kvs lvs

end

def withoutReplaces (ops : List Operation) : List Operation := ops.filter fun op => !op.isReplace

/-- The counter stands at the operation that is looked at, so that one is erased. -/
theorem eraseReplaces_eq (done ops : List Operation) :
    eraseReplaces ops (done ++ ops) done.length = .ok (done ++ withoutReplaces ops) := by
  induction ops generalizing done with
  | nil => rfl
  | cons op ops ih =>
    rw [eraseReplaces]
    by_cases hop : op.isReplace = true
    · have hrange : (0 : ℤ) ≤ done.length ∧ (done.length : ℤ) < (done ++ op :: ops).length := by
        rw [List.length_append, List.length_cons]
        omega
      have herase : (done ++ op :: ops).eraseIdx (done.length : ℤ).toNat = done ++ ops := by
        rw [Int.toNat_natCast, List.eraseIdx_append_of_length_le (Nat.le_refl _), Nat.sub_self]
        rfl
      have hidx : (done.length : ℤ) - 1 + 1 = done.length := by omega
      rw [if_pos hop, if_pos hrange, herase, hidx, ih done, withoutReplaces, withoutReplaces,
        List.filter_cons_of_neg (by simp [hop])]
    · have hkeep : withoutReplaces (op :: ops) = op :: withoutReplaces ops :=
        List.filter_cons_of_pos (by simp [hop])
      have hnext := ih (done ++ [op])
      rw [List.append_assoc, List.append_assoc, List.length_append, List.length_singleton,
        Nat.cast_add, Nat.cast_one] at hnext
      rw [if_neg hop, hkeep]
      exact hnext

theorem removeUnfamiliarField_eq_patch (inJs templateJs : JSON) :
    removeUnfamiliarField inJs templateJs =
      patch inJs (withoutReplaces (diff [] inJs templateJs)) := by
  have hloop := eraseReplaces_eq [] (diff [] inJs templateJs)
  rw [List.nil_append, List.nil_append, List.length_nil, Nat.cast_zero] at hloop
  rw [removeUnfamiliarField]
  simp only [hloop, bind, Except.bind]
  cases withoutReplaces (diff [] inJs templateJs) with
  | nil => rfl
  | cons op ops => rfl

lemma withoutReplaces_append (ops ops' : List Operation) :
    withoutReplaces (ops ++ ops') = withoutReplaces ops ++ withoutReplaces ops' :=
  List.filter_append ops ops'

lemma withoutReplaces_under (ref : Str) (ops : List Operation) :
    withoutReplaces (ops.map (.under ref)) = (withoutReplaces ops).map (.under ref) := by
  rw [withoutReplaces, withoutReplaces, List.filter_map]
  congr 2
  funext op
  simp

lemma withoutReplaces_eq_self {ops : List Operation} (h : ∀ op ∈ ops, op.isReplace = false) :
    withoutReplaces ops = ops := by
  rw [withoutReplaces, List.filter_eq_self]
  intro op hop
  rw [h op hop]
  rfl

lemma inner_withoutReplaces (source target : JSON) :
    ∀ op ∈ withoutReplaces (diff [] source target), op.Inner := by
  intro op hop
  obtain ⟨hmem, hkind⟩ := List.mem_filter.mp hop
  exact diff_inner source target op hmem (by simpa using hkind)

lemma isReplace_removals {op : Operation} {i : ℕ} {xs : List JSON} (h : op ∈ removals [] i xs) :
    op.isReplace = false := by
  induction xs generalizing i with
  | nil => exact absurd h List.not_mem_nil
  | cons x xs ih =>
    rcases List.mem_append.mp h with h | h
    · exact ih h
    · rw [List.mem_singleton.mp h]
      rfl

lemma isReplace_additions {op : Operation} {kvs lvs : Members} (h : op ∈ additions [] kvs lvs) :
    op.isReplace = false := by
  obtain ⟨e, -, rfl⟩ := List.mem_map.mp h
  rfl

lemma merge_eq_left {inJs t : JSON} (h : bothContainers inJs t = false) : merge inJs t = inJs := by
  rw [merge]
  · rintro xs ys rfl rfl
    exact Bool.noConfusion h
  · rintro kvs lvs rfl rfl
    exact Bool.noConfusion h

lemma keys_mergeMembers (kvs lvs : Members) :
    (mergeMembers kvs lvs).map Prod.fst = lvs.map Prod.fst := by
  induction lvs with
  | nil => rfl
  | cons e lvs ih => rw [mergeMembers, List.map_cons, List.map_cons, ih]

lemma lookup_mergeMembers (kvs lvs : Members) (k : Str) : (mergeMembers kvs lvs).lookup k =
    (lvs.lookup k).map fun w => match kvs.lookup k with
      | some v => merge v w
      | none => w := by
  induction lvs with
  | nil => rfl
  | cons e lvs ih =>
    obtain ⟨l, w⟩ := e
    rw [mergeMembers, lookup_cons, lookup_cons, ih]
    by_cases hk : k = l
    · simp [hk]
    · simp [hk]

lemma length_mergeElems (xs ys : List JSON) : (mergeElems xs ys).length = ys.length := by
  induction ys generalizing xs with
  | nil => rw [mergeElems]
  | cons y ys ih =>
    cases xs with
    | nil => rw [mergeElems]
    | cons x xs => rw [mergeElems, List.length_cons, List.length_cons, ih]

lemma nodup_middle {ds kvs : Members} {k : Str} {v : JSON}
    (h : ((ds ++ (k, v) :: kvs).map Prod.fst).Nodup) :
    k ∉ ds.map Prod.fst ∧ k ∉ kvs.map Prod.fst ∧ ((ds ++ kvs).map Prod.fst).Nodup := by
  rw [List.map_append, List.map_cons, List.nodup_middle, List.nodup_cons, List.mem_append, not_or,
    ← List.map_append] at h
  exact ⟨h.1.1, h.1.2, h.2⟩

mutual

/-- Values that the library takes for equal differ in the kinds of numbers at most. -/
theorem merge_of_cmp : ∀ {inJs t : JSON}, inJs.valid = true → cmp inJs t = .eq → merge inJs t = inJs
  | array xs, t, hin, h => by
      cases t with
      | array ys =>
        rw [JSON.cmp] at h
        rw [merge, mergeElems_of_cmp (valid_array_iff.mp hin).2 h]
      | _ => exact merge_eq_left rfl
  | object kvs, t, hin, h => by
      cases t with
      | object lvs =>
        rw [JSON.cmp] at h
        rw [merge, ← List.nil_append kvs,
          mergeMembers_of_cmp [] (valid_nodup hin) (valid_members hin) h]
        rfl
      | _ => exact merge_eq_left rfl
  | null, _, _, _ => merge_eq_left rfl
  | boolean _, _, _, _ => merge_eq_left rfl
  | integer _, _, _, _ => merge_eq_left rfl
  | unsigned _, _, _, _ => merge_eq_left rfl
  | float _, _, _, _ => merge_eq_left rfl
  | string _, _, _, _ => merge_eq_left rfl
termination_by structural inJs => inJs

theorem mergeElems_of_cmp : ∀ {xs ys : List JSON}, validElems xs = true → cmpElems xs ys = .eq →
    mergeElems xs ys = xs
  | [], [], _, _ => rfl
  | [], _ :: _, _, h => by simp [cmpElems] at h
  | _ :: _, [], _, h => by simp [cmpElems] at h
  | x :: xs, y :: ys, hxs, h => by
      rw [validElems, Bool.and_eq_true] at hxs
      rw [cmpElems, Ordering.then_eq_eq] at h
      rw [mergeElems, merge_of_cmp hxs.1 h.1, mergeElems_of_cmp hxs.2 h.2]
termination_by structural xs => xs

/-- The members before those that are compared have other keys. -/
theorem mergeMembers_of_cmp (ds : Members) : ∀ {kvs lvs : Members},
    ((ds ++ kvs).map Prod.fst).Nodup → validMembers kvs = true → cmpMembers kvs lvs = .eq →
    mergeMembers (ds ++ kvs) lvs = kvs
  | [], [], _, _, _ => rfl
  | [], _ :: _, _, _, h => by simp [cmpMembers] at h
  | _ :: _, [], _, _, h => by simp [cmpMembers] at h
  | (k, v) :: kvs, (l, w) :: lvs, hnd, hkvs, h => by
      rw [validMembers, Bool.and_eq_true] at hkvs
      rw [cmpMembers, Ordering.then_eq_eq, Ordering.then_eq_eq, Std.compare_eq_iff_eq] at h
      obtain ⟨⟨rfl, hvalue⟩, hrest⟩ := h
      have hk : k ∉ ds.map Prod.fst := (nodup_middle hnd).1
      have hassoc : ds ++ (k, v) :: kvs = (ds ++ [(k, v)]) ++ kvs := by simp
      rw [mergeMembers, lookup_append_cons hk]
      dsimp only
      rw [merge_of_cmp hkvs.1 hvalue, hassoc]
      rw [hassoc] at hnd
      rw [mergeMembers_of_cmp (ds ++ [(k, v)]) hnd hkvs.2 hrest]
termination_by structural kvs => kvs

end

/-- What the first pass leaves of the members. -/
def common (lvs kvs : Members) : Members :=
  kvs.filterMap fun e => (lvs.lookup e.1).map fun w => (e.1, merge e.2 w)

lemma common_cons_none {lvs : Members} {k : Str} (h : lvs.lookup k = none) (v : JSON)
    (kvs : Members) : common lvs ((k, v) :: kvs) = common lvs kvs :=
  List.filterMap_cons_none (by simp [h])

lemma common_cons_some {lvs : Members} {k : Str} {w : JSON} (h : lvs.lookup k = some w) (v : JSON)
    (kvs : Members) : common lvs ((k, v) :: kvs) = (k, merge v w) :: common lvs kvs :=
  List.filterMap_cons_some (by simp [h])

lemma lookup_common (lvs kvs : Members) (k : Str) : (common lvs kvs).lookup k =
    (kvs.lookup k).bind fun v => (lvs.lookup k).map (merge v) := by
  induction kvs with
  | nil => rfl
  | cons e kvs ih =>
    obtain ⟨l, v⟩ := e
    rw [lookup_cons]
    cases hl : lvs.lookup l with
    | none =>
      rw [common_cons_none hl, ih]
      by_cases hk : k = l
      · simp [hk, hl]
      · simp [hk]
    | some w =>
      rw [common_cons_some hl, lookup_cons, ih]
      by_cases hk : k = l
      · simp [hk, hl]
      · simp [hk]

lemma common_ordered (lvs : Members) {kvs : Members} (h : (kvs.map Prod.fst).Pairwise (· < ·)) :
    ((common lvs kvs).map Prod.fst).Pairwise (· < ·) := by
  have hsub : ((common lvs kvs).map Prod.fst).Sublist (kvs.map Prod.fst) := by
    clear h
    induction kvs with
    | nil => exact List.Sublist.refl _
    | cons e kvs ih =>
      obtain ⟨l, v⟩ := e
      cases hl : lvs.lookup l with
      | none =>
        rw [common_cons_none hl]
        exact ih.cons l
      | some w =>
        rw [common_cons_some hl]
        exact ih.cons_cons l
  exact h.sublist hsub

/-- The second pass completes the members to those of the merge. -/
lemma putAll_common {kvs lvs : Members} (hkvs : (kvs.map Prod.fst).Pairwise (· < ·))
    (hlvs : (lvs.map Prod.fst).Pairwise (· < ·)) :
    putAll (common lvs kvs) (lvs.filter fun e => (kvs.lookup e.1).isNone) = mergeMembers kvs lvs := by
  apply members_ext
  · exact putAll_ordered (common_ordered lvs hkvs) _
  · rw [keys_mergeMembers]
    exact hlvs
  · intro k
    have hnews : ((lvs.filter fun e => (kvs.lookup e.1).isNone).map Prod.fst).Nodup :=
      (ordered_nodup hlvs).sublist (List.filter_sublist.map Prod.fst)
    rw [lookup_putAll _ hnews, lookup_filter fun l => (kvs.lookup l).isNone, lookup_common,
      lookup_mergeMembers]
    cases kvs.lookup k with
    | none => simp
    | some v => simp

lemma patch_diff_replace {inJs t : JSON} (h : bothContainers inJs t = false) :
    patch inJs (withoutReplaces (diff [] inJs t)) = .ok (merge inJs t) := by
  rw [diff_replace h, merge_eq_left h]
  split_ifs
  · rfl
  · rfl

mutual

theorem patch_diff : ∀ {inJs t : JSON}, inJs.valid = true → t.valid = true →
    patch inJs (withoutReplaces (diff [] inJs t)) = .ok (merge inJs t)
  | array xs, t, hin, ht => by
      cases t with
      | array ys =>
        rw [diff_array]
        split_ifs with heq
        · rw [merge_of_cmp hin (by simpa [eqv] using heq)]
          rfl
        · obtain ⟨hlen, hxs⟩ := valid_array_iff.mp hin
          exact patch_diffElems [] hxs (valid_array_iff.mp ht).2 (by simpa using hlen)
      | _ => exact patch_diff_replace rfl
  | object kvs, t, hin, ht => by
      cases t with
      | object lvs =>
        rw [diff_object]
        split_ifs with heq
        · rw [merge_of_cmp hin (by simpa [eqv] using heq)]
          rfl
        · have hfirst := patch_diffMembers [] lvs (valid_nodup hin) (valid_members hin)
            (valid_members ht)
          rw [List.nil_append, List.nil_append] at hfirst
          rw [withoutReplaces_append, patch_append, hfirst, merge,
            ← putAll_common (valid_object_iff.mp hin).1 (valid_object_iff.mp ht).1,
            withoutReplaces_eq_self fun op hop => isReplace_additions hop]
          exact patch_additions_keys _ _
      | _ => exact patch_diff_replace rfl
  | null, _, _, _ => patch_diff_replace rfl
  | boolean _, _, _, _ => patch_diff_replace rfl
  | integer _, _, _, _ => patch_diff_replace rfl
  | unsigned _, _, _, _ => patch_diff_replace rfl
  | float _, _, _, _ => patch_diff_replace rfl
  | string _, _, _, _ => patch_diff_replace rfl
termination_by structural inJs => inJs

/-- The elements before those that are looked at are merged already. -/
theorem patch_diffElems (ds : List JSON) : ∀ {xs ys : List JSON}, validElems xs = true →
    validElems ys = true → ds.length + xs.length < 2 ^ 63 →
    patch (array (ds ++ xs)) (withoutReplaces (diffElems [] ds.length xs ys)) =
      .ok (array (ds ++ mergeElems xs ys))
  | x :: xs, y :: ys, hxs, hys, hlen => by
      rw [validElems, Bool.and_eq_true] at hxs hys
      rw [List.length_cons] at hlen
      have hds : ds.length < 2 ^ 63 := by omega
      have helem := patch_under (modifyAt_elem hds xs) (inner_withoutReplaces x y) x
      rw [patch_diff hxs.1 hys.1] at helem
      have hrest := patch_diffElems (ds ++ [merge x y]) hxs.2 hys.2
        (by rw [List.length_append, List.length_singleton]; omega)
      rw [List.length_append, List.length_singleton, List.append_assoc, List.append_assoc] at hrest
      rw [diffElems, withoutReplaces_append, patch_append, List.nil_append, diff_index,
        withoutReplaces_under, helem, mergeElems]
      exact hrest
  | [], ys, _, _, _ => by
      have hadds : withoutReplaces (ys.map (.add (txt "/-"))) = ys.map (.add (txt "/-")) := by
        apply withoutReplaces_eq_self
        intro op hop
        obtain ⟨y, -, rfl⟩ := List.mem_map.mp hop
        rfl
      have hmerge : mergeElems [] ys = ys := by cases ys <;> rw [mergeElems]
      rw [diffElems, List.nil_append, hadds, hmerge, List.append_nil]
      exact patch_additions_end ds ys
  | x :: xs, [], _, _, hlen => by
      rw [diffElems, withoutReplaces_eq_self fun op hop => isReplace_removals hop, mergeElems,
        List.append_nil]
      exact patch_removals ds (x :: xs) hlen
termination_by structural xs => xs

/-- The members before those that are looked at are merged or removed already. -/
theorem patch_diffMembers (ds lvs : Members) : ∀ {kvs : Members},
    ((ds ++ kvs).map Prod.fst).Nodup → validMembers kvs = true → validMembers lvs = true →
    patch (object (ds ++ kvs)) (withoutReplaces (diffMembers [] lvs kvs)) =
      .ok (object (ds ++ common lvs kvs))
  | [], _, _, _ => rfl
  | (k, v) :: kvs, hnd, hkvs, hlvs => by
      rw [validMembers, Bool.and_eq_true] at hkvs
      obtain ⟨hds, hrest, hnd'⟩ := nodup_middle hnd
      rw [diffMembers, withoutReplaces_append, patch_append]
      cases hk : lvs.lookup k with
      | none =>
        have hremove : patch (object (ds ++ (k, v) :: kvs)) [.remove ('/' :: escape k)] =
            .ok (object (ds ++ kvs)) := by
          rw [patch_cons, operate_remove_key (lookup_append_cons hds v kvs),
            eraseKey_append_cons hds hrest]
          rfl
        rw [common_cons_none hk]
        dsimp only
        rw [withoutReplaces_eq_self (by simp [Operation.isReplace]), List.nil_append, hremove]
        exact patch_diffMembers ds lvs hnd' hkvs.2 hlvs
      | some w =>
        have hmember := patch_under (modifyAt_member hds kvs) (inner_withoutReplaces v w) v
        rw [patch_diff hkvs.1 (validMembers_mem hlvs (lookup_mem hk))] at hmember
        have hothers := patch_diffMembers (ds ++ [(k, merge v w)]) lvs (by simpa using hnd)
          hkvs.2 hlvs
        rw [List.append_assoc, List.append_assoc] at hothers
        rw [common_cons_some hk]
        dsimp only
        rw [List.nil_append, diff_token, withoutReplaces_under, hmember]
        exact hothers
termination_by structural kvs => kvs

end

lemma merge_self {t : JSON} (h : t.valid = true) : merge t t = t := merge_of_cmp h (cmp_self t)

mutual

theorem merge_valid : ∀ (t : JSON) {inJs : JSON}, inJs.valid = true → t.valid = true →
    (merge inJs t).valid = true
  | array ys, inJs, hin, ht => by
      cases inJs with
      | array xs =>
        rw [valid_array_iff] at hin ht
        rw [merge, valid_array_iff, length_mergeElems]
        exact ⟨ht.1, mergeElems_valid ys hin.2 ht.2⟩
      | _ =>
        rw [merge_eq_left rfl]
        exact hin
  | object lvs, inJs, hin, ht => by
      cases inJs with
      | object kvs =>
        have hlen := congrArg List.length (keys_mergeMembers kvs lvs)
        rw [List.length_map, List.length_map] at hlen
        rw [valid_object_iff] at ht
        rw [merge, valid_object_iff, keys_mergeMembers, hlen]
        exact ⟨ht.1, ht.2.1, mergeMembers_valid lvs (valid_members hin) ht.2.2⟩
      | _ =>
        rw [merge_eq_left rfl]
        exact hin
  | null, inJs, hin, _ => by cases inJs <;> exact hin
  | boolean _, inJs, hin, _ => by cases inJs <;> exact hin
  | integer _, inJs, hin, _ => by cases inJs <;> exact hin
  | unsigned _, inJs, hin, _ => by cases inJs <;> exact hin
  | float _, inJs, hin, _ => by cases inJs <;> exact hin
  | string _, inJs, hin, _ => by cases inJs <;> exact hin

theorem mergeElems_valid : ∀ (ys : List JSON) {xs : List JSON}, validElems xs = true →
    validElems ys = true → validElems (mergeElems xs ys) = true
  | [], _, _, _ => by rw [mergeElems, validElems]
  | y :: ys, xs, hxs, hys => by
      cases xs with
      | nil =>
        rw [mergeElems]
        exact hys
      | cons x xs =>
        rw [validElems, Bool.and_eq_true] at hxs hys
        rw [mergeElems, validElems, Bool.and_eq_true]
        exact ⟨merge_valid y hxs.1 hys.1, mergeElems_valid ys hxs.2 hys.2⟩

theorem mergeMembers_valid : ∀ (lvs : Members) {kvs : Members}, validMembers kvs = true →
    validMembers lvs = true → validMembers (mergeMembers kvs lvs) = true
  | [], _, _, _ => by rw [mergeMembers, validMembers]
  | (k, w) :: lvs, kvs, hkvs, hlvs => by
      rw [validMembers, Bool.and_eq_true] at hlvs
      rw [mergeMembers, validMembers, Bool.and_eq_true]
      refine ⟨?_, mergeMembers_valid lvs hkvs hlvs.2⟩
      cases hk : kvs.lookup k with
      | none => exact hlvs.1
      | some v => exact merge_valid w (validMembers_mem hkvs (lookup_mem hk)) hlvs.1

end

mutual

theorem merge_merge : ∀ (t inJs : JSON), t.valid = true → merge (merge inJs t) t = merge inJs t
  | array ys, inJs, ht => by
      cases inJs with
      | array xs =>
        rw [merge, merge, mergeElems_mergeElems ys xs (valid_array_iff.mp ht).2]
      | _ => rw [merge_eq_left rfl, merge_eq_left rfl]
  | object lvs, inJs, ht => by
      cases inJs with
      | object kvs =>
        rw [merge, merge, mergeMembers_mergeMembers lvs kvs (valid_members ht)]
        intro k w hmem
        rw [lookup_mergeMembers, lookup_eq_some_of_mem (valid_nodup ht) hmem]
        rfl
      | _ => rw [merge_eq_left rfl, merge_eq_left rfl]
  | null, inJs, _ => by cases inJs <;> rfl
  | boolean _, inJs, _ => by cases inJs <;> rfl
  | integer _, inJs, _ => by cases inJs <;> rfl
  | unsigned _, inJs, _ => by cases inJs <;> rfl
  | float _, inJs, _ => by cases inJs <;> rfl
  | string _, inJs, _ => by cases inJs <;> rfl
termination_by structural t => t

theorem mergeElems_mergeElems : ∀ (ys xs : List JSON), validElems ys = true →
    mergeElems (mergeElems xs ys) ys = mergeElems xs ys
  | [], _, _ => by rw [mergeElems, mergeElems]
  | y :: ys, xs, hys => by
      rw [validElems, Bool.and_eq_true] at hys
      cases xs with
      | nil =>
        have htail := mergeElems_of_cmp hys.2 (cmpElems_self ys)
        rw [mergeElems, mergeElems, merge_self hys.1, htail]
      | cons x xs =>
        rw [mergeElems, mergeElems, merge_merge y x hys.1, mergeElems_mergeElems ys xs hys.2]
termination_by structural ys => ys

/-- `merged` holds the merged members of the whole template. -/
theorem mergeMembers_mergeMembers : ∀ (lvs kvs : Members) {merged : Members},
    validMembers lvs = true →
    (∀ k w, (k, w) ∈ lvs → merged.lookup k = some (match kvs.lookup k with
      | some v => merge v w
      | none => w)) →
    mergeMembers merged lvs = mergeMembers kvs lvs
  | [], _, _, _, _ => by rw [mergeMembers, mergeMembers]
  | (k, w) :: lvs, kvs, merged, hlvs, hmerged => by
      rw [validMembers, Bool.and_eq_true] at hlvs
      have hrest := mergeMembers_mergeMembers lvs kvs hlvs.2
        fun l u hmem => hmerged l u (List.mem_cons_of_mem _ hmem)
      rw [mergeMembers, mergeMembers, hmerged k w List.mem_cons_self, hrest]
      cases kvs.lookup k with
      | none =>
        dsimp only
        rw [merge_self hlvs.1]
      | some v =>
        dsimp only
        rw [merge_merge w v hlvs.1]
termination_by structural lvs => lvs

end

lemma removeUnfamiliarField_of_valid {inJs t : JSON} (hin : inJs.valid = true)
    (ht : t.valid = true) : removeUnfamiliarField inJs t = .ok (merge inJs t) := by
  rw [removeUnfamiliarField_eq_patch]
  exact patch_diff hin ht

/-- The document is merged into the template, and a second time changes nothing. -/
theorem removeUnfamiliarField_eq_merge (inJs templateJs : Document) :
    removeUnfamiliarField inJs.1 templateJs.1 = .ok (merge inJs.1 templateJs.1) ∧
      (removeUnfamiliarField inJs.1 templateJs.1).bind (removeUnfamiliarField · templateJs.1) =
        removeUnfamiliarField inJs.1 templateJs.1 := by
  have honce := removeUnfamiliarField_of_valid inJs.2 templateJs.2
  have htwice := removeUnfamiliarField_of_valid (merge_valid templateJs.1 inJs.2 templateJs.2)
    templateJs.2
  refine ⟨honce, ?_⟩
  rw [honce]
  simp only [Except.bind]
  rw [htwice, merge_merge templateJs.1 inJs.1 templateJs.2]

/-- The first element keeps its value, the second and the unknown key go, the missing key comes. -/
example : removeUnfamiliarField
    (object [(txt "b", array [boolean true, boolean true]), (txt "d", null)])
    (object [(txt "b", array [boolean false]), (txt "c", null)]) =
      .ok (object [(txt "b", array [boolean true]), (txt "c", null)]) := by
  rfl

end ToolkitCpp.Json

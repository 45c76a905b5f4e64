import Mathlib.Data.List.Nodup
import ToolkitCpp.JsonValue

/-!
# The members of an object

The members of an object stand in the order of their keys. What the operations on them do is
said through `lookup`; two ordered lists of members with the same lookups are the same.
-/
namespace ToolkitCpp.Json

open JSON

/-- Assignment through `operator[]` of an object: the members stay in key order. -/
def put (k : Str) (v : JSON) : Members → Members
  | [] => [(k, v)]
  | (l, w) :: rest =>
      if k < l then (k, v) :: (l, w) :: rest
      else if k = l then (k, v) :: rest
      else (l, w) :: put k v rest

theorem lookup_cons (k l : Str) (w : JSON) (rest : Members) :
    List.lookup k ((l, w) :: rest) = if k = l then some w else rest.lookup k := by
  rw [List.lookup_cons]
  by_cases h : k = l
  · simp [h]
  · simp [h, beq_false_of_ne h]

theorem lookup_put (k l : Str) (v : JSON) (m : Members) :
    (put k v m).lookup l = if l = k then some v else m.lookup l := by
  induction m with
  | nil => rw [put, lookup_cons]
  | cons e rest ih =>
    obtain ⟨l', w⟩ := e
    rw [put]
    by_cases hlt : k < l'
    · rw [if_pos hlt, lookup_cons]
    · by_cases heq : k = l'
      · subst heq
        rw [if_neg hlt, if_pos rfl, lookup_cons, lookup_cons]
        by_cases hl : l = k <;> simp [hl]
      · rw [if_neg hlt, if_neg heq, lookup_cons, lookup_cons, ih]
        by_cases hl : l = k
        · simp [hl, heq]
        · simp [hl]

def update (k : Str) (f : JSON → JSON) : Members → Members
  | [] => []
  | (l, w) :: rest => if k = l then (l, f w) :: rest else (l, w) :: update k f rest

/-- `erase(key)` of an object. -/
def eraseKey (k : Str) (kvs : Members) : Members := kvs.filter fun e => e.1 ≠ k

theorem lookup_update (k l : Str) (f : JSON → JSON) (kvs : Members) :
    (update k f kvs).lookup l = if l = k then (kvs.lookup l).map f else kvs.lookup l := by
  induction kvs with
  | nil => simp [update]
  | cons e rest ih =>
    obtain ⟨m, w⟩ := e
    rw [update]
    by_cases hkm : k = m
    · subst hkm
      rw [if_pos rfl, lookup_cons, lookup_cons]
      by_cases hlk : l = k <;> simp [hlk]
    · rw [if_neg hkm, lookup_cons, lookup_cons, ih]
      by_cases hlm : l = m
      · have hlk : l ≠ k := fun h => hkm (h.symm.trans hlm)
        simp [hlm, Ne.symm hkm]
      · simp [hlm]

theorem update_congr {k : Str} {f g : JSON → JSON} {kvs : Members} {w : JSON}
    (h : kvs.lookup k = some w) (hfg : f w = g w) : update k f kvs = update k g kvs := by
  induction kvs with
  | nil => rfl
  | cons e rest ih =>
    obtain ⟨l, u⟩ := e
    rw [lookup_cons] at h
    rw [update, update]
    split_ifs at h ⊢ with hk
    · cases h
      rw [hfg]
    · rw [ih h]

theorem update_update (k : Str) (f g : JSON → JSON) (kvs : Members) :
    update k f (update k g kvs) = update k (fun j => f (g j)) kvs := by
  induction kvs with
  | nil => rfl
  | cons e rest ih =>
    obtain ⟨l, u⟩ := e
    rw [update, update]
    split_ifs with hk
    · rw [update, if_pos hk]
    · rw [update, if_neg hk, ih]

theorem update_eq_self {k : Str} {f : JSON → JSON} {kvs : Members} {w : JSON}
    (h : kvs.lookup k = some w) : update k f kvs = kvs ↔ f w = w := by
  induction kvs with
  | nil => simp at h
  | cons e rest ih =>
    obtain ⟨l, u⟩ := e
    rw [lookup_cons] at h
    rw [update]
    split_ifs at h ⊢ with hk
    · cases h
      simp
    · simp [ih h]

theorem lookup_eq_none_of_notMem {k : Str} {kvs : Members} (h : k ∉ kvs.map Prod.fst) :
    kvs.lookup k = none := by
  rw [List.lookup_eq_none_iff]
  intro e he
  rw [bne_iff_ne]
  rintro rfl
  exact h (List.mem_map_of_mem he)

theorem lookup_append_cons {k : Str} {ds : Members} (h : k ∉ ds.map Prod.fst) (v : JSON)
    (rest : Members) : (ds ++ (k, v) :: rest).lookup k = some v := by
  induction ds with
  | nil => rw [List.nil_append, lookup_cons, if_pos rfl]
  | cons e ds ih =>
    simp only [List.map_cons, List.mem_cons, not_or] at h
    rw [List.cons_append, lookup_cons, if_neg h.1]
    exact ih h.2

theorem update_append_cons {k : Str} {ds : Members} (h : k ∉ ds.map Prod.fst) (f : JSON → JSON)
    (v : JSON) (rest : Members) : update k f (ds ++ (k, v) :: rest) = ds ++ (k, f v) :: rest := by
  induction ds with
  | nil => rw [List.nil_append, update, if_pos rfl, List.nil_append]
  | cons e ds ih =>
    simp only [List.map_cons, List.mem_cons, not_or] at h
    rw [List.cons_append, update, if_neg h.1, ih h.2, List.cons_append]

theorem eraseKey_append_cons {k : Str} {ds rest : Members} (hds : k ∉ ds.map Prod.fst)
    (hrest : k ∉ rest.map Prod.fst) (v : JSON) : eraseKey k (ds ++ (k, v) :: rest) = ds ++ rest := by
  have hkeep : ∀ {kvs : Members}, k ∉ kvs.map Prod.fst → kvs.filter (fun e => e.1 ≠ k) = kvs := by
    intro kvs hk
    rw [List.filter_eq_self]
    intro e he
    rw [decide_eq_true_eq]
    rintro rfl
    exact hk (List.mem_map_of_mem he)
  rw [eraseKey, List.filter_append, hkeep hds, List.filter_cons_of_neg (by simp), hkeep hrest]

theorem lookup_filter (P : Str → Bool) (l : Str) (kvs : Members) :
    (kvs.filter fun e => P e.1).lookup l = if P l then kvs.lookup l else none := by
  induction kvs with
  | nil => simp
  | cons e rest ih =>
    obtain ⟨m, w⟩ := e
    by_cases hm : P m = true
    · rw [List.filter_cons_of_pos (by simp [hm]), lookup_cons, lookup_cons, ih]
      by_cases hl : l = m
      · simp [hl, hm]
      · simp [hl]
    · rw [List.filter_cons_of_neg (by simp [hm]), lookup_cons, ih]
      by_cases hl : l = m
      · simp [hl, hm]
      · simp [hl]

theorem lookup_eraseKey (k l : Str) (kvs : Members) :
    (eraseKey k kvs).lookup l = if l = k then none else kvs.lookup l := by
  rw [eraseKey, lookup_filter (fun m => m ≠ k)]
  by_cases hl : l = k <;> simp [hl]

theorem mem_put {k : Str} {v : JSON} {kvs : Members} {e : Str × JSON} (h : e ∈ put k v kvs) :
    e = (k, v) ∨ e ∈ kvs := by
  induction kvs with
  | nil =>
    rw [put, List.mem_singleton] at h
    exact .inl h
  | cons f kvs ih =>
    obtain ⟨l, w⟩ := f
    rw [put] at h
    split_ifs at h with hlt heq
    · exact List.mem_cons.mp h
    · rcases List.mem_cons.mp h with h | h
      · exact .inl h
      · exact .inr (List.mem_cons_of_mem _ h)
    · rcases List.mem_cons.mp h with h | h
      · exact .inr (by simp [h])
      · rcases ih h with h | h
        · exact .inl h
        · exact .inr (List.mem_cons_of_mem _ h)

theorem put_pairwise (k : Str) (v : JSON) {kvs : Members}
    (h : (kvs.map Prod.fst).Pairwise (· < ·)) :
    ((put k v kvs).map Prod.fst).Pairwise (· < ·) := by
  induction kvs with
  | nil => simp [put]
  | cons f kvs ih =>
    obtain ⟨l, w⟩ := f
    rw [List.map_cons, List.pairwise_cons] at h
    rw [put]
    split_ifs with hlt heq
    · rw [List.map_cons, List.pairwise_cons, List.map_cons, List.pairwise_cons]
      refine ⟨?_, h⟩
      intro m hm
      rcases List.mem_cons.mp hm with rfl | hm
      · exact hlt
      · exact List.lt_trans hlt (h.1 m hm)
    · rw [List.map_cons, List.pairwise_cons]
      subst heq
      exact h
    · rw [List.map_cons, List.pairwise_cons]
      refine ⟨?_, ih h.2⟩
      intro m hm
      obtain ⟨e, he, rfl⟩ := List.mem_map.mp hm
      rcases mem_put he with rfl | he
      · rcases List.le_iff_lt_or_eq.mp (List.not_lt.mp hlt) with hlt' | heq'
        · exact hlt'
        · exact absurd heq'.symm heq
      · exact h.1 _ (List.mem_map_of_mem he)

/-- What a recursion over the members checks at each of them. -/
theorem mem_of_all {A : Members → Prop} {B : Str → JSON → Prop}
    (hcons : ∀ k v kvs, A ((k, v) :: kvs) → B k v ∧ A kvs) {kvs : Members} {k : Str} {v : JSON}
    (h : A kvs) (hm : (k, v) ∈ kvs) : B k v := by
  induction kvs with
  | nil => simp at hm
  | cons e kvs ih =>
    obtain ⟨hhead, htail⟩ := hcons e.1 e.2 kvs h
    rcases List.mem_cons.mp hm with rfl | hm
    · exact hhead
    · exact ih htail hm

theorem validMembers_mem {kvs : Members} {k : Str} {v : JSON}
    (h : validMembers kvs = true) (hm : (k, v) ∈ kvs) : v.valid = true := by
  refine mem_of_all (A := fun kvs => validMembers kvs = true) (B := fun _ v => v.valid = true) ?_ h hm
  intro l w rest hall
  simp only [validMembers, Bool.and_eq_true] at hall
  exact hall

theorem ordered_nodup {kvs : Members} (h : (kvs.map Prod.fst).Pairwise (· < ·)) :
    (kvs.map Prod.fst).Nodup := by
  refine h.imp ?_
  rintro a b hlt rfl
  exact List.lt_irrefl a hlt

theorem valid_array_iff {xs : List JSON} :
    (array xs).valid = true ↔ xs.length < 2 ^ 63 ∧ validElems xs = true := by
  rw [JSON.valid, Bool.and_eq_true, decide_eq_true_eq]

theorem valid_object_iff {kvs : Members} : (object kvs).valid = true ↔
    (kvs.map Prod.fst).Pairwise (· < ·) ∧ kvs.length < 2 ^ 63 ∧ validMembers kvs = true := by
  rw [JSON.valid, Bool.and_eq_true, Bool.and_eq_true, decide_eq_true_eq, decide_eq_true_eq, and_assoc]

theorem valid_nodup {kvs : Members} (h : (object kvs).valid = true) :
    (kvs.map Prod.fst).Nodup :=
  ordered_nodup (valid_object_iff.mp h).1

theorem valid_members {kvs : Members} (h : (object kvs).valid = true) :
    validMembers kvs = true :=
  (valid_object_iff.mp h).2.2

theorem lookup_mem {kvs : Members} {k : Str} {v : JSON} (h : kvs.lookup k = some v) :
    (k, v) ∈ kvs := by
  induction kvs with
  | nil => simp at h
  | cons e kvs ih =>
    obtain ⟨l, w⟩ := e
    rw [lookup_cons] at h
    split_ifs at h with hk
    · cases h
      simp [hk]
    · exact List.mem_cons_of_mem _ (ih h)

theorem lookup_eq_some_of_mem {kvs : Members} {k : Str} {v : JSON}
    (hnd : (kvs.map Prod.fst).Nodup) (hm : (k, v) ∈ kvs) : kvs.lookup k = some v := by
  induction kvs with
  | nil => simp at hm
  | cons e kvs ih =>
    obtain ⟨l, w⟩ := e
    rw [List.map_cons, List.nodup_cons] at hnd
    rw [lookup_cons]
    rcases List.mem_cons.mp hm with heq | htail
    · cases heq
      simp
    · have hne : k ≠ l := by
        rintro rfl
        exact hnd.1 (List.mem_map.mpr ⟨(k, v), htail, rfl⟩)
      rw [if_neg hne]
      exact ih hnd.2 htail

/-- Ordered members are known by what is found under each key. -/
theorem members_ext {kvs lvs : Members} (hk : (kvs.map Prod.fst).Pairwise (· < ·))
    (hl : (lvs.map Prod.fst).Pairwise (· < ·)) (h : ∀ k, kvs.lookup k = lvs.lookup k) :
    kvs = lvs := by
  have hmem : ∀ e, e ∈ kvs ↔ e ∈ lvs := by
    intro e
    constructor
    · intro he
      exact lookup_mem ((h e.1).symm.trans (lookup_eq_some_of_mem (ordered_nodup hk) he))
    · intro he
      exact lookup_mem ((h e.1).trans (lookup_eq_some_of_mem (ordered_nodup hl) he))
  have hperm : kvs.Perm lvs :=
    (List.perm_ext_iff_of_nodup (List.Nodup.of_map _ (ordered_nodup hk))
      (List.Nodup.of_map _ (ordered_nodup hl))).mpr hmem
  refine hperm.eq_of_pairwise ?_ (List.pairwise_map.mp hk) (List.pairwise_map.mp hl)
  intro a b _ _ hab hba
  exact absurd (List.lt_trans hab hba) (List.lt_irrefl a.1)

end ToolkitCpp.Json

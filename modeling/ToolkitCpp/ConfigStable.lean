import ToolkitCpp.ConfigAdmits
import ToolkitCpp.ConfigPresence
import ToolkitCpp.ConfigWalk

/-!
# Configurations that validation leaves alone

A run of `recurseJogConfig` that leaves the configuration alone comes to the same values in the
same places from the start to the end. So it returns the configuration exactly when the step at
each of these values ends without an exception. A configuration comes out unchanged for every old
configuration exactly when nothing declared is missing and each of its values fits where the
texts of its place lead, in the constraint and in the configuration.
-/
namespace ToolkitCpp.Config

open Json JSON Segments

/-- The key a value is descended into with. -/
def descendKey (key : Str) : Str := if key ≠ [] then key ++ ['/'] else key

/-- The values a walk comes to that goes below an object when `descends` says so, with the texts
they are looked at with. The first argument is the position of a value, unless it is in an array. -/
inductive Visits (descends : Str → Str → Option ℕ → JSON → Str → Prop) (N : JSON) :
    Option (List Str) → Str → Str → Option ℕ → JSON → Prop
  | member {k : Str} {v : JSON} (h : (k, v) ∈ membersOf N) : Visits descends N (some [k]) [] k none v
  | deeper {q : Option (List Str)} {parentKey k key l : Str} {kvs : Members} {w : JSON}
      (hv : Visits descends N q parentKey k none (object kvs))
      (hkey : descends parentKey k none (object kvs) key) (hw : (l, w) ∈ kvs) :
      Visits descends N (q.map (· ++ [l])) (parentKey ++ descendKey key) l none w
  | elem {q : Option (List Str)} {parentKey k : Str} {xs : List JSON} {i : ℕ} {x : JSON}
      (hv : Visits descends N q parentKey k none (array xs)) (hx : xs[i]? = some x) :
      Visits descends N none parentKey k (some i) x
  | inElem {q : Option (List Str)} {parentKey k key l : Str} {i : ℕ} {kvs : Members} {w : JSON}
      (hv : Visits descends N q parentKey k (some i) (object kvs))
      (hkey : descends parentKey k (some i) (object kvs) key) (hw : (l, w) ∈ kvs) :
      Visits descends N none (parentKey ++ k ++ '/' :: (toString i ++ ['/'])) l none w

/-- In a configuration without containers the walk comes to the members only. -/
theorem visits_flat {descends : Str → Str → Option ℕ → JSON → Str → Prop} {N : JSON}
    (hflat : ∀ e ∈ membersOf N, e.2.isPrimitive = true) {q : Option (List Str)}
    {parentKey k : Str} {idx : Option ℕ} {v : JSON} (h : Visits descends N q parentKey k idx v) :
    parentKey = [] ∧ idx = none ∧ q = some [k] ∧ (k, v) ∈ membersOf N := by
  induction h with
  | member hmem => exact ⟨rfl, rfl, rfl, hmem⟩
  | deeper _ _ _ ih =>
    have hprim := hflat _ ih.2.2.2
    simp [isPrimitive] at hprim
  | elem _ _ ih =>
    have hprim := hflat _ ih.2.2.2
    simp [isPrimitive] at hprim
  | inElem _ _ _ ih => simp at ih

/-- An array is not looked at itself where it is a member, only its elements are. -/
def LookedAt (idx : Option ℕ) (v : JSON) : Prop := idx = none → v.isArray = false

/-- A value fits: its parent is found under the edited parent path, and the description under the
edited constraint path admits it with the size of that parent; `key` is the key the walk descends
with. -/
def Fits (c N : JSON) (parentKey k : Str) (idx : Option ℕ) (v : JSON) (key : Str) : Prop :=
  ∃ pl u, place c parentKey k idx = .ok pl ∧
    getParamValueFromJson N ('/' :: pl.parentPath) = .ok u ∧
    AdmittedAt c pl.constrPath v u.size ∧ pl.key = key

/-- Every value that the walk looks at while the configuration is unchanged. -/
def EachVisited (c N : JSON) (P : Str → Str → Option ℕ → JSON → Prop) : Prop :=
  ∀ ⦃q parentKey k idx v⦄, Visits (Fits c N) N q parentKey k idx v → LookedAt idx v →
    P parentKey k idx v

section Steps

variable {c N O : JSON} {parentKey k : Str} {idx : Option ℕ} {v : JSON}

theorem bind_ok {α β : Type} {a : Except Exc α} {f : α → Except Exc β} {b : β}
    (h : (a >>= f) = .ok b) : ∃ y, a = .ok y ∧ f y = .ok b := by
  cases a with
  | error e => simp [bind, Except.bind] at h
  | ok y => exact ⟨y, rfl, h⟩

theorem verdict_true_iff {pl : Place} : verdict c N pl v = .ok true ↔
    ∃ u, getParamValueFromJson N ('/' :: pl.parentPath) = .ok u ∧
      AdmittedAt c pl.constrPath v u.size := by
  rw [verdict]
  cases getParamValueFromJson N ('/' :: pl.parentPath) with
  | error e => simp [bind, Except.bind]
  | ok u => simp [bind, Except.bind, validateForOne_true_iff]

theorem verdict_false_iff {pl : Place} : verdict c N pl v = .ok false ↔
    ∃ u, getParamValueFromJson N ('/' :: pl.parentPath) = .ok u ∧
      ReadableAt c pl.constrPath v ∧ ¬ AdmittedAt c pl.constrPath v u.size := by
  rw [verdict]
  cases getParamValueFromJson N ('/' :: pl.parentPath) with
  | error e => simp [bind, Except.bind]
  | ok u =>
    simp only [bind, Except.bind, Except.ok.injEq, exists_eq_left']
    exact validateForOne_false_iff

theorem fits_of_verdict {pl : Place} (hpl : place c parentKey k idx = .ok pl)
    (hv : verdict c N pl v = .ok true) : Fits c N parentKey k idx v pl.key := by
  obtain ⟨u, hu, hadmits⟩ := verdict_true_iff.mp hv
  exact ⟨pl, u, hpl, hu, hadmits, rfl⟩

theorem Fits.key_eq {key : Str} {pl : Place} (h : Fits c N parentKey k idx v key)
    (hpl : place c parentKey k idx = .ok pl) : key = pl.key := by
  obtain ⟨pl', -, hpl', -, -, rfl⟩ := h
  rw [hpl, Except.ok.injEq] at hpl'
  rw [hpl']

theorem Fits.proc {key : Str} (h : Fits c N parentKey k idx v key) (O : JSON) :
    anyParamProc c N O parentKey k idx v =
      .ok (if v.empty then (false, key, N) else (true, descendKey key, N)) := by
  obtain ⟨pl, u, hpl, hu, hadmits, rfl⟩ := h
  have hv : verdict c N pl v = .ok true := verdict_true_iff.mpr ⟨u, hu, hadmits⟩
  simp only [anyParamProc, hpl, bind, Except.bind, hv, descendKey]
  cases v.empty <;> rfl

/-- A step that ends well has let the value pass or has replaced it. -/
theorem anyParamProc_ok {r : Bool × Str × JSON}
    (h : anyParamProc c N O parentKey k idx v = .ok r) :
    ∃ pl, place c parentKey k idx = .ok pl ∧
      (verdict c N pl v = .ok true ∧
          r = (if v.empty then (false, pl.key, N) else (true, descendKey pl.key, N)) ∨
        verdict c N pl v = .ok false ∧
          ∃ M, replaceParam c N O parentKey k pl = .ok M ∧ r = (false, pl.key, M)) := by
  obtain ⟨pl, hpl, h⟩ := bind_ok h
  refine ⟨pl, hpl, ?_⟩
  obtain ⟨b, hb, h⟩ := bind_ok h
  cases b with
  | true =>
    refine .inl ⟨hb, ?_⟩
    rw [descendKey]
    cases hemp : v.empty <;> simpa [hemp, eq_comm] using h
  | false =>
    obtain ⟨M, hM, h⟩ := bind_ok (f := fun M => .ok (false, pl.key, M)) h
    rw [Except.ok.injEq] at h
    exact .inr ⟨hb, M, hM, h.symm⟩

/-- The walk only goes on below a value that fits. -/
theorem fits_of_descent {r : Bool × Str × JSON}
    (h : anyParamProc c N O parentKey k idx v = .ok r) (hr : r.1 = true) :
    ∃ key, Fits c N parentKey k idx v key ∧ r = (true, descendKey key, N) := by
  obtain ⟨pl, hpl, ⟨hv, rfl⟩ | ⟨-, M, -, rfl⟩⟩ := anyParamProc_ok h
  · refine ⟨pl.key, fits_of_verdict hpl hv, ?_⟩
    cases hemp : v.empty <;> simp_all
  · simp at hr

theorem empty_object {kvs : Members} (h : kvs ≠ []) : (object kvs).empty = false := by
  simpa [JSON.empty, JSON.size] using h

theorem lookedAt_primitive (hv : v.isPrimitive = true) : LookedAt idx v := by
  intro _
  cases v <;> simp_all [isArray, isPrimitive]

theorem lookedAt_elem (i : ℕ) (v : JSON) : LookedAt (some i) v := by
  intro h
  simp at h

end Steps

section Rule

variable {c N O : JSON}

/-- No step changes the configuration. -/
def Keeps (c N O : JSON) : Prop :=
  EachVisited c N fun parentKey k idx v =>
    ∀ r, anyParamProc c N O parentKey k idx v = .ok r → r.2.2 = N

/-- No step throws. -/
def Passes (c N O : JSON) : Prop :=
  EachVisited c N fun parentKey k idx v => ∃ r, anyParamProc c N O parentKey k idx v = .ok r

/-- A part of the walk returns the configuration, or some step throws. -/
def Kept (c N O : JSON) (result : Except Exc JSON) : Prop :=
  result = .ok N ∨ ¬ Passes c N O ∧ ∃ e, result = .error e

theorem kept_bind {a : Except Exc JSON} {f : JSON → Except Exc JSON} (ha : Kept c N O a)
    (hf : Kept c N O (f N)) : Kept c N O (a >>= f) := by
  rcases ha with rfl | ⟨hno, e, rfl⟩
  · exact hf
  · exact .inr ⟨hno, e, rfl⟩

theorem Kept.eq {result : Except Exc JSON} (h : Kept c N O result) {M : JSON}
    (hM : result = .ok M) : M = N := by
  rcases h with h | ⟨-, e, h⟩
  · rw [h, Except.ok.injEq] at hM
    exact hM.symm
  · rw [h] at hM
    simp at hM

section Parts

variable {q : Option (List Str)} {parentKey k : Str} {idx : Option ℕ} {v : JSON}

/-- A step, and what is done after it. -/
theorem Keeps.step (h : Keeps c N O) (hv : Visits (Fits c N) N q parentKey k idx v)
    (hlook : LookedAt idx v) {f : Bool × Str × JSON → Except Exc JSON}
    (hf : ∀ r, anyParamProc c N O parentKey k idx v = .ok r → r.2.2 = N → Kept c N O (f r)) :
    Kept c N O (anyParamProc c N O parentKey k idx v >>= f) := by
  cases hr : anyParamProc c N O parentKey k idx v with
  | error e =>
    refine .inr ⟨fun hpass => ?_, e, rfl⟩
    obtain ⟨r, hok⟩ := hpass hv hlook
    rw [hr] at hok
    simp at hok
  | ok r => exact hf r hr (h hv hlook r hr)

/-- A value with nothing below it is done after its own step. -/
theorem Keeps.leaf (h : Keeps c N O) (hv : Visits (Fits c N) N q parentKey k idx v)
    (hlook : LookedAt idx v) : Kept c N O (do
      let (_, _, M) ← anyParamProc c N O parentKey k idx v
      .ok M) :=
  h.step hv hlook fun _ _ hr => .inl (congrArg _ hr)

/-- The walk goes on below an object that fits. -/
theorem Keeps.descent (h : Keeps c N O) {kvs : Members} {g : Str → Str}
    (hv : Visits (Fits c N) N q parentKey k idx (object kvs)) (hlook : LookedAt idx (object kvs))
    (hrest : ∀ key, Fits c N parentKey k idx (object kvs) key →
      Kept c N O (jogMembers c O (g (descendKey key)) kvs N)) : Kept c N O (do
      let (descend, key', M) ← anyParamProc c N O parentKey k idx (object kvs)
      if descend then jogMembers c O (g key') kvs M else .ok M) := by
  refine h.step hv hlook fun r hr hkeep => ?_
  cases hb : r.1 with
  | false =>
    left
    simp [hb, hkeep]
  | true =>
    obtain ⟨key, hfits, rfl⟩ := fits_of_descent hr hb
    exact hrest key hfits

end Parts

-- The induction follows the walk; where it goes below a value, that value fits.
mutual

theorem Keeps.value (h : Keeps c N O) : ∀ (v : JSON) {q : Option (List Str)} {parentKey k : Str},
    Visits (Fits c N) N q parentKey k none v → Kept c N O (jogValue c O parentKey k v N)
  | object kvs, _, parentKey, _, hv => by
      rw [jogValue]
      exact h.descent (g := (parentKey ++ ·)) hv (fun _ => rfl) fun key hfits =>
        h.members kvs fun e he => ⟨_, .deeper hv hfits he⟩
  | array xs, _, _, _, hv => by
      rw [jogValue]
      exact h.elems xs fun j x hx => by simpa using Visits.elem hv hx
  | null, _, _, _, hv => h.leaf hv (lookedAt_primitive rfl)
  | boolean _, _, _, _, hv => h.leaf hv (lookedAt_primitive rfl)
  | integer _, _, _, _, hv => h.leaf hv (lookedAt_primitive rfl)
  | unsigned _, _, _, _, hv => h.leaf hv (lookedAt_primitive rfl)
  | float _, _, _, _, hv => h.leaf hv (lookedAt_primitive rfl)
  | string _, _, _, _, hv => h.leaf hv (lookedAt_primitive rfl)
termination_by structural v => v

theorem Keeps.members (h : Keeps c N O) : ∀ (kvs : Members) {parentKey : Str},
    (∀ e ∈ kvs, ∃ q, Visits (Fits c N) N q parentKey e.1 none e.2) →
    Kept c N O (jogMembers c O parentKey kvs N)
  | [], _, _ => .inl rfl
  | (k, v) :: rest, _, hv => by
      obtain ⟨q, hq⟩ := hv (k, v) (by simp)
      rw [jogMembers]
      exact kept_bind (h.value v hq)
        (h.members rest fun e he => hv e (List.mem_cons_of_mem _ he))
termination_by structural kvs => kvs

theorem Keeps.elem (h : Keeps c N O) : ∀ (v : JSON) {q : Option (List Str)} {parentKey k : Str}
    {i : ℕ}, Visits (Fits c N) N q parentKey k (some i) v →
    Kept c N O (jogElem c O parentKey k i v N)
  | object kvs, _, parentKey, k, i, hv => by
      rw [jogElem]
      exact h.descent (g := fun _ => parentKey ++ k ++ '/' :: (toString i ++ ['/'])) hv
        (lookedAt_elem i _) fun key hfits => h.members kvs fun e he => ⟨_, .inElem hv hfits he⟩
  | array _, _, _, _, i, hv => h.leaf hv (lookedAt_elem i _)
  | null, _, _, _, i, hv => h.leaf hv (lookedAt_elem i _)
  | boolean _, _, _, _, i, hv => h.leaf hv (lookedAt_elem i _)
  | integer _, _, _, _, i, hv => h.leaf hv (lookedAt_elem i _)
  | unsigned _, _, _, _, i, hv => h.leaf hv (lookedAt_elem i _)
  | float _, _, _, _, i, hv => h.leaf hv (lookedAt_elem i _)
  | string _, _, _, _, i, hv => h.leaf hv (lookedAt_elem i _)
termination_by structural v => v

theorem Keeps.elems (h : Keeps c N O) : ∀ (xs : List JSON) {parentKey k : Str} {i : ℕ},
    (∀ j x, xs[j]? = some x → Visits (Fits c N) N none parentKey k (some (i + j)) x) →
    Kept c N O (jogElems c O parentKey k i xs N)
  | [], _, _, _, _ => .inl rfl
  | x :: xs, _, _, i, hv => by
      rw [jogElems]
      refine kept_bind (h.elem x (hv 0 x rfl)) (h.elems xs fun j y hy => ?_)
      rw [Nat.add_assoc, Nat.add_comm 1 j]
      exact hv (j + 1) y hy
termination_by structural xs => xs

end

/-- The part of the walk that begins at a value ends well. -/
def Ends (c N O : JSON) (parentKey k : Str) (idx : Option ℕ) (v : JSON) : Prop :=
  ∃ M : JSON, (match idx with
    | none => jogValue c O parentKey k v N
    | some i => jogElem c O parentKey k i v N) = .ok M

theorem Keeps.ends_member (h : Keeps c N O) {parentKey : Str} {kvs : Members} {M : JSON}
    (hv : ∀ e ∈ kvs, ∃ q, Visits (Fits c N) N q parentKey e.1 none e.2)
    (hrun : jogMembers c O parentKey kvs N = .ok M) {e : Str × JSON} (he : e ∈ kvs) :
    Ends c N O parentKey e.1 none e.2 := by
  induction kvs with
  | nil => simp at he
  | cons f rest ih =>
    rw [jogMembers] at hrun
    obtain ⟨M₁, hhead, htail⟩ := bind_ok hrun
    obtain ⟨q, hq⟩ := hv f (by simp)
    rcases List.mem_cons.mp he with rfl | he
    · exact ⟨M₁, hhead⟩
    · rw [(h.value f.2 hq).eq hhead] at htail
      exact ih (fun g hg => hv g (List.mem_cons_of_mem _ hg)) htail he

theorem Keeps.ends_elem (h : Keeps c N O) {parentKey k : Str} {xs : List JSON} {i : ℕ} {M : JSON}
    (hv : ∀ j x, xs[j]? = some x → Visits (Fits c N) N none parentKey k (some (i + j)) x)
    (hrun : jogElems c O parentKey k i xs N = .ok M) {j : ℕ} {x : JSON} (hx : xs[j]? = some x) :
    Ends c N O parentKey k (some (i + j)) x := by
  induction xs generalizing i j with
  | nil => simp at hx
  | cons y ys ih =>
    rw [jogElems] at hrun
    obtain ⟨M₁, hhead, htail⟩ := bind_ok hrun
    rw [(h.elem y (hv 0 y rfl)).eq hhead] at htail
    cases j with
    | zero =>
      rw [List.getElem?_cons_zero, Option.some.injEq] at hx
      rw [← hx]
      exact ⟨M₁, hhead⟩
    | succ j =>
      have hshift : ∀ j, i + (j + 1) = i + 1 + j := by
        intro j
        omega
      rw [hshift]
      refine ih (fun l z hz => ?_) htail hx
      rw [← hshift]
      exact hv (l + 1) z hz

/-- Where the whole walk ends well, so does each part of it. -/
theorem Keeps.ends (h : Keeps c N O) {M : JSON} (hrun : recurseJogConfig c N O [] N = .ok M)
    {q : Option (List Str)} {parentKey k : Str} {idx : Option ℕ} {v : JSON}
    (hv : Visits (Fits c N) N q parentKey k idx v) : Ends c N O parentKey k idx v := by
  induction hv with
  | member hmem => exact h.ends_member (fun e he => ⟨_, .member he⟩) hrun hmem
  | @deeper q parentKey k key l kvs w hv hkey hw ih =>
    obtain ⟨M₁, hM₁⟩ := ih
    have hne : kvs ≠ [] := by
      rintro rfl
      simp at hw
    simp only [jogValue, hkey.proc O, empty_object hne, bind, Except.bind, Bool.false_eq_true,
      if_false, if_true] at hM₁
    exact h.ends_member (fun e he => ⟨_, .deeper hv hkey he⟩) hM₁ hw
  | @elem q parentKey k xs i x hv hx ih =>
    obtain ⟨M₁, hM₁⟩ := ih
    simp only [jogValue] at hM₁
    have hends := h.ends_elem (fun j y hy => by simpa using Visits.elem hv hy) hM₁ hx
    rwa [Nat.zero_add] at hends
  | @inElem q parentKey k key l i kvs w hv hkey hw ih =>
    obtain ⟨M₁, hM₁⟩ := ih
    have hne : kvs ≠ [] := by
      rintro rfl
      simp at hw
    simp only [jogElem, hkey.proc O, empty_object hne, bind, Except.bind, Bool.false_eq_true,
      if_false, if_true] at hM₁
    exact h.ends_member (fun e he => ⟨_, .inElem hv hkey he⟩) hM₁ hw

/-- The part of the walk at a value that is looked at starts with its step. -/
theorem Ends.step {parentKey k : Str} {idx : Option ℕ} {v : JSON}
    (h : Ends c N O parentKey k idx v) (hlook : LookedAt idx v) :
    ∃ r, anyParamProc c N O parentKey k idx v = .ok r := by
  obtain ⟨M, hM⟩ := h
  cases idx with
  | none =>
    have hno := hlook rfl
    cases v with
    | array xs => simp [isArray] at hno
    | _ =>
      simp only [jogValue] at hM
      obtain ⟨r, hr, -⟩ := bind_ok hM
      exact ⟨r, hr⟩
  | some i =>
    cases v <;>
    · simp only [jogElem] at hM
      obtain ⟨r, hr, -⟩ := bind_ok hM
      exact ⟨r, hr⟩

/-- A walk whose steps change nothing returns the configuration exactly when no step throws. -/
theorem Keeps.returns_iff (h : Keeps c N O) :
    recurseJogConfig c N O [] N = .ok N ↔ Passes c N O := by
  constructor
  · intro hrun q parentKey k idx v hv hlook
    exact (h.ends hrun hv).step hlook
  · intro hpass
    rcases h.members (membersOf N) (fun e he => ⟨_, .member he⟩) with hrun | ⟨hno, -⟩
    · exact hrun
    · exact absurd hpass hno

end Rule

section Replacements

variable {c M O D : JSON} {parentKey k : Str} {pl : Place}

/-- Which value is put in place of a refused one, and under which path: inside an entry of a map
the stored default while the old configuration is the default one, else the old value under the
path of the refused one, else the old value of its parent. -/
inductive Replaces (c D O : JSON) (parentKey k : Str) (pl : Place) : Str → JSON → Prop
  | default (hin : objectKey <:+: parentKey) (hO : eqv O D = true) :
      Replaces c D O parentKey k pl ('/' :: pl.parentPath)
        (valueJson (flatten c) ('/' :: (pl.parentPath ++ txt "/Default")))
  | own {o : JSON} (hno : ¬ (eqv O D = true ∧ objectKey <:+: parentKey))
      (hin : isContainParamInJson O ('/' :: (parentKey ++ k)) = true)
      (ho : getParamValueFromJson O ('/' :: (parentKey ++ k)) = .ok o) :
      Replaces c D O parentKey k pl ('/' :: (parentKey ++ k)) o
  | parent {o : JSON} (hno : ¬ (eqv O D = true ∧ objectKey <:+: parentKey))
      (hout : isContainParamInJson O ('/' :: (parentKey ++ k)) = false)
      (htype : pl.typeParent = txt "map.object" ∨ pl.typeParent = txt "array.object" ∨
        objectKey <:+: parentKey)
      (ho : getParamValueFromJson O ('/' :: pl.parentPath) = .ok o) :
      Replaces c D O parentKey k pl ('/' :: pl.parentPath) o

theorem replaceParam_iff (hD : getDefaultConfig c = .ok D) {M' : JSON} :
    replaceParam c M O parentKey k pl = .ok M' ↔
      ∃ path value, Replaces c D O parentKey k pl path value ∧
        storeParam M path value = .ok M' := by
  have hcond : (eqv O D && decide (objectKey <:+: parentKey)) = true ↔
      eqv O D = true ∧ objectKey <:+: parentKey := by simp
  simp only [replaceParam, hD, bind, Except.bind, hcond]
  by_cases hdefault : eqv O D = true ∧ objectKey <:+: parentKey
  · rw [if_pos hdefault]
    constructor
    · intro h
      exact ⟨_, _, .default hdefault.2 hdefault.1, h⟩
    · rintro ⟨path, value, hrep, h⟩
      cases hrep with
      | default => exact h
      | own hno => exact absurd hdefault hno
      | parent hno => exact absurd hdefault hno
  · rw [if_neg hdefault]
    cases hin : isContainParamInJson O ('/' :: (parentKey ++ k)) with
    | true =>
      simp only [Bool.not_true, Bool.false_eq_true, if_false]
      constructor
      · intro h
        obtain ⟨o, ho, h⟩ := bind_ok h
        exact ⟨_, _, .own hdefault hin ho, h⟩
      · rintro ⟨path, value, hrep, h⟩
        cases hrep with
        | default hmap hO => exact absurd ⟨hO, hmap⟩ hdefault
        | own _ _ ho => rw [ho]; exact h
        | parent _ hout => simp [hout] at hin
    | false =>
      simp only [Bool.not_false, if_true, decide_eq_true_eq]
      constructor
      · intro h
        split_ifs at h with htype
        obtain ⟨o, ho, h⟩ := bind_ok h
        exact ⟨_, _, .parent hdefault hin htype ho, h⟩
      · rintro ⟨path, value, hrep, h⟩
        cases hrep with
        | default hmap hO => exact absurd ⟨hO, hmap⟩ hdefault
        | own _ hown => simp [hown] at hin
        | parent _ _ htype ho =>
          rw [if_pos htype, ho]
          exact h

theorem storeParam_iff {path : Str} {value M' : JSON} : storeParam M path value = .ok M' ↔
    (locate M (rooted path)).found = true ∧
      M' = setAt value (locate M (rooted path)).path M := by
  simp only [storeParam, setParamValueToJson]
  cases (locate M (rooted path)).found <;> simp [eq_comm]

end Replacements

section Unchanged

variable {c N O D : JSON}

/-- An old configuration from which nothing can be taken. -/
def Refuses (c O : JSON) : Prop :=
  ∀ M parentKey k pl, ∃ e, replaceParam c M O parentKey k pl = .error e

theorem walk_primitive {j : JSON} (hj : j.isPrimitive = true) (tokens : List Str) :
    (walk tokens j false).found = false := by
  have hnone : ∀ t, j.member? t = none := by
    intro t
    cases j <;> simp_all [member?, isPrimitive]
  induction tokens with
  | nil => rfl
  | cons t ts ih =>
    rw [walk, hnone]
    dsimp only
    split_ifs
    · exact ih
    · rfl

theorem containsParts_primitive {j : JSON} (hj : j.isPrimitive = true) (parts : List Str) :
    containsParts parts j false = false := by
  have hnone : ∀ t, j.member? t = none := by
    intro t
    cases j <;> simp_all [member?, isPrimitive]
  induction parts with
  | nil => rfl
  | cons t ts ih =>
    rw [containsParts, hnone]
    split_ifs
    · exact ih
    · rfl

/-- A value without members other than the default configuration gives nothing. -/
theorem refuses_primitive (hD : getDefaultConfig c = .ok D) (hO : O.isPrimitive = true)
    (hne : eqv O D = false) : Refuses c O := by
  intro M parentKey k pl
  have hcontain : ∀ path, isContainParamInJson O path = false :=
    fun path => containsParts_primitive hO _
  have hget : ∀ path, ∃ e, getParamValueFromJson O path = .error e := by
    intro path
    simp only [getParamValueFromJson, locate, walk_primitive hO]
    exact ⟨_, rfl⟩
  simp only [replaceParam, hD, bind, Except.bind, hne, hcontain, Bool.false_and,
    Bool.false_eq_true, if_false, Bool.not_false, if_true]
  split_ifs
  · obtain ⟨e, he⟩ := hget ('/' :: pl.parentPath)
    exact ⟨e, by rw [he]⟩
  · exact ⟨_, rfl⟩

theorem exists_refuses (hD : getDefaultConfig c = .ok D) : ∃ O, Refuses c O := by
  by_cases hnull : eqv null D = true
  · have hD' : D = null := by
      cases D <;> simp_all [eqv, JSON.cmp, operands, number?, rank]
    refine ⟨boolean true, refuses_primitive hD rfl ?_⟩
    rw [hD']
    decide
  · exact ⟨null, refuses_primitive hD rfl (by simpa using hnull)⟩

theorem Refuses.step (hO : Refuses c O) {parentKey k : Str} {idx : Option ℕ} {v : JSON}
    {r : Bool × Str × JSON} (h : anyParamProc c N O parentKey k idx v = .ok r) :
    (∃ key, Fits c N parentKey k idx v key) ∧ r.2.2 = N := by
  obtain ⟨pl, hpl, ⟨hv, rfl⟩ | ⟨-, M, hM, -⟩⟩ := anyParamProc_ok h
  · refine ⟨⟨_, fits_of_verdict hpl hv⟩, ?_⟩
    cases v.empty <;> rfl
  · obtain ⟨e, he⟩ := hO N parentKey k pl
    rw [he] at hM
    simp at hM

theorem validate_iff {cs : Members} (hD : getDefaultConfig (object cs) = .ok D) {N O M : JSON} :
    validateAndReplaceConfig (object cs) N O = .ok M ↔
      foundMembers N [] cs ∧ recurseJogConfig (object cs) N O [] N = .ok M := by
  rw [← checkLost_iff_found (required_of_default hD), validateAndReplaceConfig]
  cases checkLostParamInConfig N (object cs) with
  | error e => simp [bind, Except.bind]
  | ok u => simp [bind, Except.bind]

/-- A configuration is left alone whatever the old configuration is exactly when nothing is
missing and every value fits. -/
theorem unchanged_iff {cs : Members} (hD : getDefaultConfig (object cs) = .ok D) (N : JSON) :
    (∀ O, validateAndReplaceConfig (object cs) N O = .ok N) ↔ foundMembers N [] cs ∧
      EachVisited (object cs) N fun parentKey k idx v =>
        ∃ key, Fits (object cs) N parentKey k idx v key := by
  simp only [validate_iff hD]
  constructor
  · intro h
    obtain ⟨O, hO⟩ := exists_refuses hD
    have hkeeps : Keeps (object cs) N O := fun _ _ _ _ _ _ _ r hr => (hO.step hr).2
    refine ⟨(h O).1, fun q parentKey k idx v hv hlook => ?_⟩
    obtain ⟨r, hr⟩ := hkeeps.returns_iff.mp (h O).2 hv hlook
    exact (hO.step hr).1
  · rintro ⟨hfound, hfits⟩ O
    have hkeeps : Keeps (object cs) N O := by
      intro q parentKey k idx v hv hlook r hr
      obtain ⟨key, hkey⟩ := hfits hv hlook
      rw [hkey.proc O, Except.ok.injEq] at hr
      rw [← hr]
      cases v.empty <;> rfl
    refine ⟨hfound, hkeeps.returns_iff.mpr fun q parentKey k idx v hv hlook => ?_⟩
    obtain ⟨key, hkey⟩ := hfits hv hlook
    exact ⟨_, hkey.proc O⟩

end Unchanged

end ToolkitCpp.Config

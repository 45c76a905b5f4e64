import ToolkitCpp.ConfigConform
import ToolkitCpp.ConfigStable

/-!
# Soundness of the validator

What stands at the declared parameters after a call of `validateAndReplaceConfig` with an old
configuration that conforms. During the call the configuration is a mosaic: each of its nodes is
either covered by a replacement, and then it conforms, or it has the shape it came with. So the
result conforms when every value that its check lets pass conforms, and every value that its
check refuses is covered by what is put in its place.
-/
namespace ToolkitCpp.Config

open Json JSON Segments

/-- What a position of a configuration is declared as. -/
inductive Slot
  | root (cs : Members)
  | param (d : Members)
  | entry (d : Members)
  | free

namespace Slot

def member (cs : Members) (k : Str) : Slot :=
  match cs.lookup k with
  | some (object d) => param d
  | _ => free

/-- Maps hold entries under any name, and the debug section is not declared. -/
def child : Slot → Str → Slot
  | root cs, k => if txt "ForDebug" <+: k then free else member cs k
  | param d, k =>
      if typeOf d = some (txt "object") then member d k
      else if typeOf d = some (txt "map.object") then entry d else free
  | entry d, k => member d k
  | free, _ => free

/-- A value conforms at a slot as far as it shows without the members of an object. -/
def Local : Slot → JSON → Prop
  | param d, object kvs => listed d (object kvs) = true ∧
      (typeOf d = some (txt "object") ∨
        typeOf d = some (txt "map.object") ∧ inBounds d kvs.length = true)
  | param d, v => conforms true d v = true
  | entry _, v => v.isObject = true
  | _, _ => True

def noEnum : Slot → Prop
  | param d => d.lookup (txt "Enum") = none
  | _ => True

theorem Local.of_keys {s : Slot} {kvs kvs' : Members} (h : s.Local (object kvs)) (hs : s.noEnum)
    (hkeys : kvs.map Prod.fst = kvs'.map Prod.fst) : s.Local (object kvs') := by
  have hlen : kvs.length = kvs'.length := by simpa using congrArg List.length hkeys
  cases s with
  | param d =>
    have henum : d.lookup (txt "Enum") = none := hs
    refine ⟨by simp [listed, henum], ?_⟩
    rw [← hlen]
    exact h.2
  | entry d => rfl
  | root cs => trivial
  | free => trivial

end Slot

/-- What a position is declared as by the constraint. -/
def slotAt (cs : Members) (p : List Str) : Slot := p.foldl Slot.child (.root cs)

/-- Every value below `v`, with `v` standing at `p`, conforms to the parameter it stands at. -/
def ConformsFrom (cs : Members) (p : List Str) (v : JSON) : Prop :=
  ∀ s w, nodeAt v s = some w → (slotAt cs (p ++ s)).Local w

/-- Every value at the position of a declared parameter conforms. -/
def Conforms (cs : Members) (j : JSON) : Prop := ConformsFrom cs [] j

theorem Conforms.node {cs : Members} {j w : JSON} {p : List Str} (h : Conforms cs j)
    (hw : nodeAt j p = some w) : ConformsFrom cs p w := by
  intro s x hx
  refine h (p ++ s) x ?_
  rw [nodeAt_append, hw]
  exact hx

section Recursive

/-- Conformity as a recursion over a value that stands at a slot. -/
def Slot.conforms : Slot → JSON → Bool
  | root cs, v => conformsMembers true cs ((membersOf v).filter fun e => !txt "ForDebug" <+: e.1)
  | param d, v => Config.conforms true d v
  | entry d, v => conformsEntry true d v
  | free, _ => true

theorem conformsMembers_lookup {cs kvs : Members} (h : conformsMembers true cs kvs = true)
    {k : Str} {w : JSON} (hw : (k, w) ∈ kvs) : (Slot.member cs k).conforms w = true := by
  refine mem_of_all (A := fun kvs => conformsMembers true cs kvs = true)
    (B := fun l v => (Slot.member cs l).conforms v = true) ?_ h hw
  intro l v rest hrest
  rw [conformsMembers, Bool.and_eq_true] at hrest
  refine ⟨?_, hrest.2⟩
  rw [Slot.member]
  split
  · next d hd => simpa [hd, Slot.conforms] using hrest.1
  · rfl

theorem conformsEntries_lookup {d kvs : Members} (h : conformsEntries true d kvs = true)
    {k : Str} {w : JSON} (hw : (k, w) ∈ kvs) : conformsEntry true d w = true := by
  refine mem_of_all (A := fun kvs => conformsEntries true d kvs = true)
    (B := fun _ v => conformsEntry true d v = true) ?_ h hw
  intro l v rest hrest
  simpa [conformsEntries] using hrest

theorem Slot.local_of_conforms {s : Slot} {v : JSON} (h : s.conforms v = true) : s.Local v := by
  cases s with
  | root cs => trivial
  | free => trivial
  | entry d => cases v <;> simp_all [Slot.conforms, conformsEntry, Local, isObject]
  | param d =>
    cases v with
    | object kvs =>
      simp only [Slot.conforms, Config.conforms, Bool.and_eq_true, Bool.or_eq_true, beq_iff_eq] at h
      exact ⟨h.1, h.2.imp (·.1) (·.1)⟩
    | _ => exact h

theorem Slot.child_conforms {s : Slot} {kvs : Members} (h : s.conforms (object kvs) = true)
    {k : Str} {w : JSON} (hw : kvs.lookup k = some w) : (s.child k).conforms w = true := by
  have hmem := lookup_mem hw
  cases s with
  | root cs =>
    rw [child]
    split_ifs with hdebug
    · rfl
    · exact conformsMembers_lookup h (by simp [membersOf, hmem, hdebug])
  | entry d =>
    rw [Slot.conforms, conformsEntry] at h
    exact conformsMembers_lookup h hmem
  | free => rfl
  | param d =>
    simp only [Slot.conforms, Config.conforms, Bool.and_eq_true, Bool.or_eq_true, beq_iff_eq] at h
    rw [child]
    split_ifs with hobj hmap
    · rcases h.2 with hc | hc
      · exact conformsMembers_lookup hc.2 hmem
      · rw [hobj] at hc
        exact absurd hc.1.1 (by decide)
    · rcases h.2 with hc | hc
      · exact absurd hc.1 hobj
      · exact conformsEntries_lookup hc.2 hmem
    · rfl

/-- What conforms by the recursion conforms at every position. -/
theorem conforms_of_root {cs : Members} {j : JSON} (h : (Slot.root cs).conforms j = true) :
    Conforms cs j := by
  have hfrom : ∀ (s : List Str) (t : Slot) (v w : JSON), t.conforms v = true →
      nodeAt v s = some w → (s.foldl Slot.child t).Local w := by
    intro s
    induction s with
    | nil =>
      intro t v w ht hw
      rw [nodeAt, Option.some.injEq] at hw
      rw [← hw]
      exact Slot.local_of_conforms ht
    | cons k s ih =>
      intro t v w ht hw
      obtain ⟨kvs, x, rfl, hx, hw⟩ := nodeAt_cons hw
      exact ih _ _ _ (Slot.child_conforms ht hx) hw
  intro s w hw
  exact hfrom s (.root cs) j w h hw

end Recursive

section Mosaic

/-- A replacement at one of the positions lies above a position. -/
def Covered (S : List (List Str)) (p : List Str) : Prop := ∃ w ∈ S, w <+: p

theorem Covered.below {S : List (List Str)} {p q : List Str} (h : Covered S p) (hpq : p <+: q) :
    Covered S q := by
  obtain ⟨w, hw, hp⟩ := h
  exact ⟨w, hw, hp.trans hpq⟩

theorem Covered.mono {S S' : List (List Str)} {p : List Str} (h : Covered S p) (hS : S ⊆ S') :
    Covered S' p := by
  obtain ⟨w, hw, hp⟩ := h
  exact ⟨w, hS hw, hp⟩

/-- A node is the one that stood there, or an object with the same keys where the declaration
does not list whole objects. -/
def Like (s : Slot) (x n : JSON) : Prop :=
  x = n ∨ s.noEnum ∧ ∃ kvs kvs', x = object kvs ∧ n = object kvs' ∧
    kvs'.map Prod.fst = kvs.map Prod.fst

theorem Like.local {s : Slot} {x n : JSON} (h : Like s x n) (hn : s.Local n) : s.Local x := by
  rcases h with rfl | ⟨hs, kvs, kvs', rfl, rfl, hkeys⟩
  · exact hn
  · exact hn.of_keys hs hkeys

theorem Like.size {s : Slot} {x n : JSON} (h : Like s x n) : x.size = n.size := by
  rcases h with rfl | ⟨-, kvs, kvs', rfl, rfl, hkeys⟩
  · rfl
  · simpa [JSON.size] using (congrArg List.length hkeys).symm

/-- The configuration during a call: nodes that a replacement covers conform, the others are
those of the new configuration. -/
structure Mosaic (cs : Members) (N : JSON) (S : List (List Str)) (M : JSON) : Prop where
  ne_nil : ∀ w ∈ S, w ≠ []
  covered : ∀ p x, nodeAt M p = some x → Covered S p → (slotAt cs p).Local x
  fresh : ∀ p x, nodeAt M p = some x → ¬ Covered S p →
    ∃ n, nodeAt N p = some n ∧ Like (slotAt cs p) x n

variable {cs : Members} {N M : JSON} {S : List (List Str)}

theorem Mosaic.start (cs : Members) (N : JSON) : Mosaic cs N [] N where
  ne_nil := by simp
  covered p x _ hcov := by simp [Covered] at hcov
  fresh p x hx _ := ⟨x, hx, .inl rfl⟩

theorem update_keys (k : Str) (f : JSON → JSON) (kvs : Members) :
    (update k f kvs).map Prod.fst = kvs.map Prod.fst := by
  induction kvs with
  | nil => rfl
  | cons e kvs ih =>
    obtain ⟨l, v⟩ := e
    rw [update]
    split_ifs <;> simp [ih]

theorem notMem_of_lookup {kvs : Members} {k : Str} (h : kvs.lookup k = none) :
    k ∉ kvs.map Prod.fst := by
  intro hmem
  obtain ⟨e, he, rfl⟩ := List.mem_map.mp hmem
  have hno := List.lookup_eq_none_iff.mp h e he
  simp at hno

theorem Like.root {s : Slot} {x n : JSON} (h : Like s x n) (hn : n.member? [] = none) :
    x.member? [] = none := by
  rcases h with rfl | ⟨-, kvs, kvs', rfl, rfl, hkeys⟩
  · exact hn
  · have hmem := notMem_of_lookup hn
    rw [hkeys] at hmem
    exact lookup_eq_none_of_notMem hmem

/-- The document itself is never replaced. -/
theorem Mosaic.root (h : Mosaic cs N S M) (hN : N.member? [] = none) : M.member? [] = none := by
  have hcov : ¬ Covered S [] := by
    rintro ⟨w, hw, hpre⟩
    exact h.ne_nil w hw (List.prefix_nil.mp hpre)
  obtain ⟨n, hn, hlike⟩ := h.fresh [] M rfl hcov
  rw [nodeAt, Option.some.injEq] at hn
  rw [← hn] at hlike
  exact hlike.root hN

/-- Where a node of a document stands in which one value was stored: below the stored value,
above it, or beside it. -/
theorem nodeAt_setAt_cases {x o : JSON} {w : List Str} (hx : nodeAt M w = some x) {p : List Str}
    {y : JSON} (hy : nodeAt (setAt o w M) p = some y) :
    (∃ s, p = w ++ s ∧ nodeAt o s = some y) ∨ ¬ w <+: p ∧ (nodeAt M p = some y ∨
      p <+: w ∧ p ≠ w ∧ ∃ kvs kvs', nodeAt M p = some (object kvs) ∧ y = object kvs' ∧
        kvs.map Prod.fst = kvs'.map Prod.fst) := by
  induction w generalizing M p with
  | nil => exact .inl ⟨p, rfl, hy⟩
  | cons k w ih =>
    obtain ⟨kvs, c, rfl, hc, hbelow⟩ := nodeAt_cons hx
    rw [setAt] at hy
    cases p with
    | nil =>
      rw [nodeAt, Option.some.injEq] at hy
      exact .inr ⟨by simp, .inr ⟨by simp, by simp, kvs, _, rfl, hy.symm, (update_keys _ _ _).symm⟩⟩
    | cons l p =>
      rw [nodeAt, member?, lookup_update] at hy
      by_cases hl : l = k
      · subst hl
        rw [if_pos rfl, hc, Option.map_some, Option.bind_some] at hy
        have hnode : nodeAt (object kvs) (l :: p) = nodeAt c p := by simp [nodeAt, member?, hc]
        rw [hnode]
        rcases ih hbelow hy with ⟨s, rfl, hs⟩ | ⟨hno, hsame | ⟨hpre, hne, hkeys⟩⟩
        · exact .inl ⟨s, rfl, hs⟩
        · exact .inr ⟨by simpa using hno, .inl hsame⟩
        · exact .inr ⟨by simpa using hno, .inr ⟨by simpa using hpre, by simpa using hne, hkeys⟩⟩
      · rw [if_neg hl] at hy
        refine .inr ⟨?_, .inl hy⟩
        rintro ⟨s, hs⟩
        exact hl (List.cons.inj hs).1.symm

/-- No declaration strictly above a position lists whole objects. -/
def UnlistedAbove (cs : Members) (w : List Str) : Prop :=
  ∀ p, p <+: w → p ≠ w → (slotAt cs p).noEnum

/-- Putting a conforming value in place keeps the mosaic. -/
theorem Mosaic.write (h : Mosaic cs N S M) {w : List Str} (hw : w ≠ []) {x o : JSON}
    (hx : nodeAt M w = some x) (hlist : UnlistedAbove cs w) (ho : ConformsFrom cs w o) :
    Mosaic cs N (w :: S) (setAt o w M) where
  ne_nil := by
    intro v hv
    rcases List.mem_cons.mp hv with rfl | hv
    · exact hw
    · exact h.ne_nil v hv
  covered := by
    intro p y hy hcov
    rcases nodeAt_setAt_cases hx hy with ⟨s, rfl, hs⟩ | ⟨hno, hside⟩
    · exact ho s y hs
    · have hcov' : Covered S p := by
        obtain ⟨v, hv, hpre⟩ := hcov
        rcases List.mem_cons.mp hv with rfl | hv
        · exact absurd hpre hno
        · exact ⟨v, hv, hpre⟩
      rcases hside with hsame | ⟨hpre, hne, kvs, kvs', hkvs, rfl, hkeys⟩
      · exact h.covered p y hsame hcov'
      · exact (h.covered p _ hkvs hcov').of_keys (hlist p hpre hne) hkeys
  fresh := by
    intro p y hy hcov
    rcases nodeAt_setAt_cases hx hy with ⟨s, rfl, -⟩ | ⟨hno, hside⟩
    · exact absurd ⟨w, by simp, by simp⟩ hcov
    · have hcov' : ¬ Covered S p := fun hS => hcov (hS.mono (by simp))
      rcases hside with hsame | ⟨hpre, hne, kvs, kvs', hkvs, rfl, hkeys⟩
      · exact h.fresh p y hsame hcov'
      · obtain ⟨n, hn, hlike⟩ := h.fresh p _ hkvs hcov'
        refine ⟨n, hn, .inr ⟨hlist p hpre hne, ?_⟩⟩
        rcases hlike with rfl | ⟨-, ls, ls', hls, rfl, hkeys'⟩
        · exact ⟨kvs', kvs, rfl, rfl, hkeys⟩
        · cases hls
          exact ⟨kvs', ls', rfl, rfl, hkeys'.trans hkeys⟩

end Mosaic

section Condition

/-- The walk may go below an object: some size lets it pass. -/
def MayDescend (c : JSON) (parentKey k : Str) (idx : Option ℕ) (v : JSON) (key : Str) : Prop :=
  ∃ pl n, place c parentKey k idx = .ok pl ∧ AdmittedAt c pl.constrPath v n ∧ pl.key = key

/-- A size that may be measured for a value at `p`. Where the parent path names the value itself
or something above it, it is the size in the new configuration. -/
def Measured (N : JSON) (p : List Str) (pl : Place) (n : ℕ) : Prop :=
  ∀ s, s ≠ [] → TokenPath s → Names ('/' :: pl.parentPath) s → s <+: p → N.member? [] = none →
    ∃ u, nodeAt N s = some u ∧ n = u.size

/-- The path of a replacement names a position. -/
structure Lands (N : JSON) (path : Str) (w : List Str) : Prop where
  ne_nil : w ≠ []
  tokens : TokenPath w
  names : Names path w
  root : N.member? [] = none

/-- A replacement puts the old value of a position there, or a value that conforms there. -/
def Harmless (cs : Members) (N O : JSON) (path : Str) (value : JSON) : Prop :=
  ∃ w, Lands N path w ∧ UnlistedAbove cs w ∧ (nodeAt O w = some value ∨ ConformsFrom cs w value)

/-- What is asked of one value, at position `q` unless it lies in an array. -/
structure Handled (cs : Members) (N O D : JSON) (q : Option (List Str)) (parentKey k : Str)
    (v : JSON) (pl : Place) : Prop where
  /-- If it passes, it conforms. -/
  admitted : ∀ p ∈ q, ∀ n, Measured N p pl n → AdmittedAt (object cs) pl.constrPath v n →
    (slotAt cs p).Local v
  /-- If it is refused, nothing that does not conform is put anywhere. -/
  replaced : ReadableAt (object cs) pl.constrPath v →
    (∃ n, ¬ AdmittedAt (object cs) pl.constrPath v n) →
    ∀ path value, Replaces (object cs) D O parentKey k pl path value →
      Harmless cs N O path value
  /-- If it is refused and does not conform, it is replaced itself or with something above it. -/
  covered : ∀ p ∈ q, ∀ n, Measured N p pl n → ReadableAt (object cs) pl.constrPath v →
    ¬ AdmittedAt (object cs) pl.constrPath v n →
    ∀ path value, Replaces (object cs) D O parentKey k pl path value →
      (∃ w, Lands N path w ∧ w <+: p) ∨ ConformsFrom cs p v

/-- What is asked of a new and an old configuration. -/
structure Handles (cs : Members) (N O D : JSON) : Prop where
  values : ∀ ⦃q parentKey k idx v⦄, Visits (MayDescend (object cs)) N q parentKey k idx v →
    LookedAt idx v → ∀ pl, place (object cs) parentKey k idx = .ok pl →
      Handled cs N O D q parentKey k v pl
  arrays : ∀ ⦃p parentKey k xs⦄,
    Visits (MayDescend (object cs)) N (some p) parentKey k none (array xs) →
      (slotAt cs p).Local (array xs)

end Condition

section Run

variable {cs : Members} {N O D M : JSON} {S : List (List Str)} {q : Option (List Str)}
  {parentKey k : Str} {idx : Option ℕ} {v : JSON} {pl : Place}

theorem Names.unique {path : Str} {p w : List Str} (hp : Names path p) (hw : Names path w)
    (htp : TokenPath p) (htw : TokenPath w) (hpne : p ≠ []) (hwne : w ≠ []) : p = w := by
  have hlines := (hp.lines htp hpne).symm.trans (hw.lines htw hwne)
  exact (List.cons.inj hlines).2

/-- For a value that no replacement covers the measured size is that of the new configuration. -/
theorem Mosaic.measured (h : Mosaic cs N S M) {p : List Str} (hp : ¬ Covered S p) {u : JSON}
    (hu : getParamValueFromJson M ('/' :: pl.parentPath) = .ok u) : Measured N p pl u.size := by
  intro s hne htok hname hpre hroot
  have hnode := get_named (h.root hroot) hname htok hne hu
  obtain ⟨n, hn, hlike⟩ := h.fresh s u hnode fun hcov => hp (hcov.below hpre)
  exact ⟨n, hn, hlike.size⟩

theorem Mosaic.replace (h : Mosaic cs N S M) (hO : Conforms cs O) {path : Str} {value M' : JSON}
    (hharm : Harmless cs N O path value) (hstore : storeParam M path value = .ok M') :
    ∃ w, Lands N path w ∧ Mosaic cs N (w :: S) M' := by
  obtain ⟨w, hland, hlist, hvalue⟩ := hharm
  refine ⟨w, hland, ?_⟩
  have hroot := h.root hland.root
  obtain ⟨hfound, rfl⟩ := storeParam_iff.mp hstore
  rw [hland.names.rooted hland.ne_nil] at hfound ⊢
  cases hx : nodeAt M w with
  | none =>
    rw [locate_lost hroot hland.names hland.tokens hland.ne_nil hx] at hfound
    simp at hfound
  | some x =>
    rw [locate_found hroot hland.names hland.tokens hland.ne_nil hx]
    refine h.write hland.ne_nil hx hlist ?_
    rcases hvalue with ho | hconf
    · exact hO.node ho
    · exact hconf

/-- A step either leaves the configuration alone, and then the value conforms or is covered, or it
covers the value or leaves it standing as one that conforms with all below it. -/
theorem Handled.step (H : Handled cs N O D q parentKey k v pl)
    (hD : getDefaultConfig (object cs) = .ok D) (hO : Conforms cs O) (hM : Mosaic cs N S M)
    (hpl : place (object cs) parentKey k idx = .ok pl) {r : Bool × Str × JSON}
    (hr : anyParamProc (object cs) M O parentKey k idx v = .ok r) :
    (r = (if v.empty then (false, pl.key, M) else (true, descendKey pl.key, M)) ∧
        (∃ n, AdmittedAt (object cs) pl.constrPath v n) ∧
        ∀ p ∈ q, Covered S p ∨ (slotAt cs p).Local v) ∨
      ∃ w M', r = (false, pl.key, M') ∧ Mosaic cs N (w :: S) M' ∧
        ∀ p ∈ q, Covered (w :: S) p ∨ ConformsFrom cs p v := by
  obtain ⟨pl', hpl', ⟨hpass, rfl⟩ | ⟨hfail, M', hM', rfl⟩⟩ := anyParamProc_ok hr
  · rw [hpl, Except.ok.injEq] at hpl'
    subst hpl'
    obtain ⟨u, hu, hadmits⟩ := verdict_true_iff.mp hpass
    refine .inl ⟨rfl, ⟨_, hadmits⟩, fun p hp => ?_⟩
    by_cases hcov : Covered S p
    · exact .inl hcov
    · exact .inr (H.admitted p hp _ (hM.measured hcov hu) hadmits)
  · rw [hpl, Except.ok.injEq] at hpl'
    subst hpl'
    obtain ⟨u, hu, hread, hno⟩ := verdict_false_iff.mp hfail
    obtain ⟨path, value, hrep, hstore⟩ := (replaceParam_iff hD).mp hM'
    obtain ⟨w, hland, hmosaic⟩ :=
      hM.replace hO (H.replaced hread ⟨_, hno⟩ path value hrep) hstore
    refine .inr ⟨w, M', rfl, hmosaic, fun p hp => ?_⟩
    by_cases hcov : Covered S p
    · exact .inl (hcov.mono (by simp))
    · rcases H.covered p hp _ (hM.measured hcov hu) hread hno path value hrep with
        ⟨w', hland', hpre⟩ | hconf
      · have hsame := hland.names.unique hland'.names hland.tokens hland'.tokens hland.ne_nil
          hland'.ne_nil
        rw [← hsame] at hpre
        exact .inl ⟨w, by simp, hpre⟩
      · exact .inr hconf

/-- Every value below `v`, with `v` standing at `p`, is covered or conforms. -/
def Settled (cs : Members) (S : List (List Str)) (p : List Str) (v : JSON) : Prop :=
  ∀ s y, nodeAt v s = some y → Covered S (p ++ s) ∨ (slotAt cs (p ++ s)).Local y

theorem Settled.mono {S' : List (List Str)} {p : List Str} (h : Settled cs S p v) (hS : S ⊆ S') :
    Settled cs S' p v :=
  fun s y hy => (h s y hy).imp_left fun hcov => hcov.mono hS

theorem settled_of_covered {p : List Str} (h : Covered S p) (v : JSON) : Settled cs S p v :=
  fun s _ _ => .inl (h.below (List.prefix_append p s))

theorem settled_of_refused {p : List Str} (h : Covered S p ∨ ConformsFrom cs p v) :
    Settled cs S p v := by
  rcases h with hcov | hconf
  · exact settled_of_covered hcov v
  · exact fun s y hy => .inr (hconf s y hy)

/-- A value without members is settled with its own step. -/
theorem settled_leaf {p : List Str} (h : Covered S p ∨ (slotAt cs p).Local v)
    (hv : ∀ l, v.member? l = none) : Settled cs S p v := by
  intro s y hy
  cases s with
  | nil =>
    rw [nodeAt, Option.some.injEq] at hy
    rw [List.append_nil, ← hy]
    exact h
  | cons l s => simp [nodeAt, hv] at hy

theorem settled_object {p : List Str} {kvs : Members}
    (h : Covered S p ∨ (slotAt cs p).Local (object kvs))
    (hkvs : ∀ e ∈ kvs, Settled cs S (p ++ [e.1]) e.2) : Settled cs S p (object kvs) := by
  intro s y hy
  cases s with
  | nil =>
    rw [nodeAt, Option.some.injEq] at hy
    rw [List.append_nil, ← hy]
    exact h
  | cons l s =>
    obtain ⟨kvs', w, hobj, hl, hw⟩ := nodeAt_cons hy
    cases hobj
    have hsettled := hkvs (l, w) (lookup_mem hl) s y hw
    simpa using hsettled

/-- A part of the walk leads from one mosaic to another one and settles what `P` says. -/
def Leads (cs : Members) (N : JSON) (S : List (List Str)) (M' : JSON)
    (P : List (List Str) → Prop) : Prop :=
  ∃ S', S ⊆ S' ∧ Mosaic cs N S' M' ∧ P S'

theorem Mosaic.leads (hM : Mosaic cs N S M) {P : List (List Str) → Prop} (h : P S) :
    Leads cs N S M P :=
  ⟨S, List.Subset.refl S, hM, h⟩

/-- A replacement settles the refused value. -/
theorem Mosaic.leads_refused {w : List Str} (hM : Mosaic cs N (w :: S) M)
    (h : ∀ p ∈ q, Covered (w :: S) p ∨ ConformsFrom cs p v) :
    Leads cs N S M fun S' => ∀ p ∈ q, Settled cs S' p v :=
  ⟨w :: S, List.subset_cons_self w S, hM, fun p hp => settled_of_refused (h p hp)⟩

/-- A value with nothing below it. -/
theorem Handles.leaf (H : Handles cs N O D) (hD : getDefaultConfig (object cs) = .ok D)
    (hO : Conforms cs O) (hv : Visits (MayDescend (object cs)) N q parentKey k idx v)
    (hlook : LookedAt idx v) (hno : ∀ l, v.member? l = none) (hM : Mosaic cs N S M) {M' : JSON}
    (hrun : (do
      let (_, _, M') ← anyParamProc (object cs) M O parentKey k idx v
      .ok M') = .ok M') :
    Leads cs N S M' fun S' => ∀ p ∈ q, Settled cs S' p v := by
  obtain ⟨r, hr, hM'⟩ := bind_ok hrun
  obtain ⟨pl, hpl, -⟩ := anyParamProc_ok hr
  rcases (H.values hv hlook pl hpl).step hD hO hM hpl hr with
    ⟨rfl, -, hlocal⟩ | ⟨w, M₁, rfl, hmosaic, hrefused⟩
  · have hsame : M = M' := by cases hemp : v.empty <;> simpa [hemp] using hM'
    rw [← hsame]
    exact hM.leads fun p hp => settled_leaf (hlocal p hp) hno
  · have hsame : M₁ = M' := by simpa using hM'
    rw [← hsame]
    exact hmosaic.leads_refused hrefused

/-- An object, and its members if the walk goes below it. -/
theorem Handles.descent (H : Handles cs N O D) (hD : getDefaultConfig (object cs) = .ok D)
    (hO : Conforms cs O) {kvs : Members} {g : Str → Str}
    (hv : Visits (MayDescend (object cs)) N q parentKey k idx (object kvs))
    (hlook : LookedAt idx (object kvs)) (hM : Mosaic cs N S M) {M' : JSON}
    (hrest : ∀ key, MayDescend (object cs) parentKey k idx (object kvs) key →
      jogMembers (object cs) O (g (descendKey key)) kvs M = .ok M' →
      Leads cs N S M' fun S' => ∀ p ∈ q, ∀ e ∈ kvs, Settled cs S' (p ++ [e.1]) e.2)
    (hrun : (do
      let (descend, key', M₁) ← anyParamProc (object cs) M O parentKey k idx (object kvs)
      if descend then jogMembers (object cs) O (g key') kvs M₁ else .ok M₁) = .ok M') :
    Leads cs N S M' fun S' => ∀ p ∈ q, Settled cs S' p (object kvs) := by
  obtain ⟨r, hr, hM'⟩ := bind_ok hrun
  obtain ⟨pl, hpl, -⟩ := anyParamProc_ok hr
  rcases (H.values hv hlook pl hpl).step hD hO hM hpl hr with
    ⟨rfl, ⟨n, hadmits⟩, hlocal⟩ | ⟨w, M₁, rfl, hmosaic, hrefused⟩
  · by_cases hne : kvs = []
    · subst hne
      have hsame : M = M' := by simpa [JSON.empty, JSON.size] using hM'
      rw [← hsame]
      exact hM.leads fun p hp => settled_object (hlocal p hp) (by simp)
    · simp only [empty_object hne, Bool.false_eq_true, if_false, if_true] at hM'
      obtain ⟨S', hS, hmosaic, hkvs⟩ := hrest pl.key ⟨pl, n, hpl, hadmits, rfl⟩ hM'
      refine ⟨S', hS, hmosaic, fun p hp => settled_object ?_ (hkvs p hp)⟩
      exact (hlocal p hp).imp_left fun hcov => hcov.mono hS
  · have hsame : M₁ = M' := by simpa using hM'
    rw [← hsame]
    exact hmosaic.leads_refused hrefused

-- The induction follows the walk. Inside an array only the mosaic is carried on, because the
-- array conforms as a whole and no replacement reaches into it.
mutual

theorem Handles.run_value (H : Handles cs N O D) (hD : getDefaultConfig (object cs) = .ok D)
    (hO : Conforms cs O) : ∀ (v : JSON) {q : Option (List Str)} {parentKey k : Str}
    {S : List (List Str)} {M M' : JSON}, Visits (MayDescend (object cs)) N q parentKey k none v →
    Mosaic cs N S M → jogValue (object cs) O parentKey k v M = .ok M' →
    Leads cs N S M' fun S' => ∀ p ∈ q, Settled cs S' p v
  | object kvs, q, parentKey, k, S, M, M', hv, hM, hrun => by
      rw [jogValue] at hrun
      exact H.descent (g := (parentKey ++ ·)) hD hO hv (fun _ => rfl) hM
        (fun key hkey hmembers => H.run_members hD hO kvs
          (fun e he => .deeper hv hkey he) hM hmembers) hrun
  | array xs, q, parentKey, k, S, M, M', hv, hM, hrun => by
      rw [jogValue] at hrun
      obtain ⟨S', hS, hmosaic, -⟩ := H.run_elems hD hO xs
        (fun j x hx => by simpa using Visits.elem hv hx) hM hrun
      refine ⟨S', hS, hmosaic, fun p hp => settled_leaf (.inr ?_) fun l => rfl⟩
      rw [Option.mem_def] at hp
      subst hp
      exact H.arrays hv
  | null, _, _, _, _, _, _, hv, hM, hrun =>
      H.leaf hD hO hv (lookedAt_primitive rfl) (fun _ => rfl) hM hrun
  | boolean _, _, _, _, _, _, _, hv, hM, hrun =>
      H.leaf hD hO hv (lookedAt_primitive rfl) (fun _ => rfl) hM hrun
  | integer _, _, _, _, _, _, _, hv, hM, hrun =>
      H.leaf hD hO hv (lookedAt_primitive rfl) (fun _ => rfl) hM hrun
  | unsigned _, _, _, _, _, _, _, hv, hM, hrun =>
      H.leaf hD hO hv (lookedAt_primitive rfl) (fun _ => rfl) hM hrun
  | float _, _, _, _, _, _, _, hv, hM, hrun =>
      H.leaf hD hO hv (lookedAt_primitive rfl) (fun _ => rfl) hM hrun
  | string _, _, _, _, _, _, _, hv, hM, hrun =>
      H.leaf hD hO hv (lookedAt_primitive rfl) (fun _ => rfl) hM hrun
termination_by structural v => v

theorem Handles.run_members (H : Handles cs N O D) (hD : getDefaultConfig (object cs) = .ok D)
    (hO : Conforms cs O) : ∀ (kvs : Members) {q : Option (List Str)} {parentKey : Str}
    {S : List (List Str)} {M M' : JSON},
    (∀ e ∈ kvs, Visits (MayDescend (object cs)) N (q.map (· ++ [e.1])) parentKey e.1 none e.2) →
    Mosaic cs N S M → jogMembers (object cs) O parentKey kvs M = .ok M' →
    Leads cs N S M' fun S' => ∀ p ∈ q, ∀ e ∈ kvs, Settled cs S' (p ++ [e.1]) e.2
  | [], _, _, S, M, M', _, hM, hrun => by
      rw [jogMembers, Except.ok.injEq] at hrun
      rw [← hrun]
      exact hM.leads (by simp)
  | (k, v) :: rest, q, parentKey, S, M, M', hv, hM, hrun => by
      rw [jogMembers] at hrun
      obtain ⟨M₁, hhead, htail⟩ := bind_ok hrun
      obtain ⟨S₁, hS₁, hM₁, hvalue⟩ := H.run_value hD hO v (hv (k, v) (by simp)) hM hhead
      obtain ⟨S', hS', hM', hrest⟩ := H.run_members hD hO rest
        (fun e he => hv e (List.mem_cons_of_mem _ he)) hM₁ htail
      refine ⟨S', fun _ h => hS' (hS₁ h), hM', fun p hp e he => ?_⟩
      rcases List.mem_cons.mp he with rfl | he
      · exact (hvalue _ (Option.mem_map_of_mem _ hp)).mono hS'
      · exact hrest p hp e he
termination_by structural kvs => kvs

theorem Handles.run_elem (H : Handles cs N O D) (hD : getDefaultConfig (object cs) = .ok D)
    (hO : Conforms cs O) : ∀ (v : JSON) {parentKey k : Str} {i : ℕ}
    {S : List (List Str)} {M M' : JSON},
    Visits (MayDescend (object cs)) N none parentKey k (some i) v →
    Mosaic cs N S M → jogElem (object cs) O parentKey k i v M = .ok M' →
    Leads cs N S M' fun S' => ∀ p ∈ (none : Option (List Str)), Settled cs S' p v
  | object kvs, parentKey, k, i, S, M, M', hv, hM, hrun => by
      rw [jogElem] at hrun
      exact H.descent (g := fun _ => parentKey ++ k ++ '/' :: (toString i ++ ['/'])) hD hO hv
        (lookedAt_elem i _) hM
        (fun key hkey hmembers => H.run_members hD hO kvs
          (fun e he => .inElem hv hkey he) hM hmembers) hrun
  | array _, _, _, i, _, _, _, hv, hM, hrun =>
      H.leaf hD hO hv (lookedAt_elem i _) (fun _ => rfl) hM hrun
  | null, _, _, i, _, _, _, hv, hM, hrun =>
      H.leaf hD hO hv (lookedAt_elem i _) (fun _ => rfl) hM hrun
  | boolean _, _, _, i, _, _, _, hv, hM, hrun =>
      H.leaf hD hO hv (lookedAt_elem i _) (fun _ => rfl) hM hrun
  | integer _, _, _, i, _, _, _, hv, hM, hrun =>
      H.leaf hD hO hv (lookedAt_elem i _) (fun _ => rfl) hM hrun
  | unsigned _, _, _, i, _, _, _, hv, hM, hrun =>
      H.leaf hD hO hv (lookedAt_elem i _) (fun _ => rfl) hM hrun
  | float _, _, _, i, _, _, _, hv, hM, hrun =>
      H.leaf hD hO hv (lookedAt_elem i _) (fun _ => rfl) hM hrun
  | string _, _, _, i, _, _, _, hv, hM, hrun =>
      H.leaf hD hO hv (lookedAt_elem i _) (fun _ => rfl) hM hrun
termination_by structural v => v

theorem Handles.run_elems (H : Handles cs N O D) (hD : getDefaultConfig (object cs) = .ok D)
    (hO : Conforms cs O) : ∀ (xs : List JSON) {parentKey k : Str} {i : ℕ}
    {S : List (List Str)} {M M' : JSON},
    (∀ j x, xs[j]? = some x →
      Visits (MayDescend (object cs)) N none parentKey k (some (i + j)) x) →
    Mosaic cs N S M → jogElems (object cs) O parentKey k i xs M = .ok M' →
    Leads cs N S M' fun _ => True
  | [], _, _, _, S, M, M', _, hM, hrun => by
      rw [jogElems, Except.ok.injEq] at hrun
      rw [← hrun]
      exact hM.leads trivial
  | x :: xs, parentKey, k, i, S, M, M', hv, hM, hrun => by
      rw [jogElems] at hrun
      obtain ⟨M₁, hhead, htail⟩ := bind_ok hrun
      obtain ⟨S₁, hS₁, hM₁, -⟩ := H.run_elem hD hO x (hv 0 x rfl) hM hhead
      obtain ⟨S', hS', hM', -⟩ := H.run_elems hD hO xs (fun j y hy => by
        rw [Nat.add_assoc, Nat.add_comm 1 j]
        exact hv (j + 1) y hy) hM₁ htail
      exact ⟨S', fun _ h => hS' (hS₁ h), hM', trivial⟩
termination_by structural xs => xs

end

end Run

end ToolkitCpp.Config

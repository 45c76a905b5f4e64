import ToolkitCpp.ConfigPaths

/-!
# One step of the walk

What `anyParamProc` works out at a position of the new configuration, in terms of positions
instead of texts. A position is either outside every map, an entry of a map, or inside an
entry; in the last case the text of the path carries the marker `OBJECT_KEY`, and cutting the
marker out of the parent path glues the name of the map to the name that follows.
-/
namespace ToolkitCpp.Config

open Json JSON Segments

theorem slash_notMem_objectKey : '/' ∉ objectKey := by decide

theorem objectKey_ne_nil : objectKey ≠ [] := by decide

section Edits

variable {p r : List Str} {k : Str}

theorem PlainPath.append (hp : PlainPath p) (hr : PlainPath r) : PlainPath (p ++ r) := by
  intro l hl
  rcases List.mem_append.mp hl with hl | hl
  · exact hp l hl
  · exact hr l hl

theorem PlainPath.concat (hp : PlainPath p) (hk : plainKey k = true) : PlainPath (p ++ [k]) := by
  apply hp.append
  intro l hl
  rw [List.mem_singleton.mp hl]
  exact hk

theorem objectKey_notMem (hp : PlainPath p) : ¬ objectKey <:+: dirs '/' p := by
  intro h
  obtain ⟨s, hs, hin⟩ := infix_dirs slash_notMem_objectKey objectKey_ne_nil h
  exact (plainKey_iff.mp (hp s hs)).2.2.2 hin

theorem objectKey_mem (p r : List Str) : objectKey <:+: dirs '/' (p ++ objectKey :: r) :=
  ⟨dirs '/' p, '/' :: dirs '/' r, by simp⟩

theorem editParentKey_plain (hp : PlainPath p) : editParentKey (dirs '/' p) = dirs '/' p :=
  if_neg (objectKey_notMem hp)

theorem editParentPath_plain (hp : PlainPath p) : editParentPath (dirs '/' p) = dirs '/' p :=
  if_neg (objectKey_notMem hp)

theorem PlainPath.removable (hp : PlainPath p) : ∀ s ∈ p, '/' ∉ s ∧ ¬ objectKey <:+: s :=
  fun s hs => ⟨(plainKey_iff.mp (hp s hs)).2.1, (plainKey_iff.mp (hp s hs)).2.2.2⟩

theorem editParentKey_entry (hp : PlainPath p) (hr : PlainPath r) :
    editParentKey (dirs '/' (p ++ objectKey :: r)) = dirs '/' (p ++ r) := by
  have hcut : dirs '/' (p ++ objectKey :: r) =
      dirs '/' p ++ ((objectKey ++ ['/']) ++ (dirs '/' r ++ [])) := by simp
  rw [editParentKey, if_pos (objectKey_mem p r), hcut,
    removeAll_dirs slash_notMem_objectKey objectKey_ne_nil hp.removable,
    removeAll_append_pat (by simp),
    removeAll_dirs slash_notMem_objectKey objectKey_ne_nil hr.removable, dirs_append]
  simp [removeAll, removeFrom]

theorem PlainPath.ne_objectKey (hp : PlainPath p) : ∀ s ∈ p, s ≠ objectKey := by
  intro s hs heq
  apply (plainKey_iff.mp (hp s hs)).2.2.2
  rw [heq]

theorem removeAll_pathOf (hp : PlainPath p) (x : Str) :
    removeAll ('/' :: (objectKey ++ ['/'])) (pathOf p ++ '/' :: x) =
      pathOf p ++ removeAll ('/' :: (objectKey ++ ['/'])) ('/' :: x) := by
  induction p generalizing x with
  | nil => rfl
  | cons s ss ih =>
    have hs := hp.tokens.slashFree s (by simp)
    have hne := hp.ne_objectKey s (by simp)
    have hss : PlainPath ss := fun t ht => hp t (by simp [ht])
    rw [pathOf_cons, List.cons_append, List.append_assoc]
    cases ss with
    | nil =>
      rw [pathOf_nil, List.nil_append,
        removeAll_other slash_notMem_objectKey hs hne, List.append_nil]
      rfl
    | cons t ts =>
      have htail := ih hss x
      rw [pathOf_cons, List.cons_append] at htail ⊢
      rw [removeAll_other slash_notMem_objectKey hs hne, htail]
      simp

/-- Cutting the marker out of a parent path also removes both slashes around it. -/
theorem editParentPath_entry (hp : PlainPath p) (hne : p ≠ []) (hr : PlainPath r) :
    '/' :: editParentPath (dirs '/' (p ++ objectKey :: r)) = pathOf p ++ dirs '/' r := by
  cases p with
  | nil => exact absurd rfl hne
  | cons s ss =>
    have hs := hp.tokens.slashFree s (by simp)
    have hss : PlainPath ss := fun t ht => hp t (by simp [ht])
    have hcut : dirs '/' ((s :: ss) ++ objectKey :: r) =
        s ++ (pathOf ss ++ '/' :: (objectKey ++ '/' :: dirs '/' r)) := by
      have hdirs := pathOf_dirs (s :: ss)
      rw [pathOf_cons, List.cons_append, List.cons.injEq] at hdirs
      rw [dirs_append, ← hdirs.2, dirs_cons]
      simp
    have hmark : '/' :: (objectKey ++ '/' :: dirs '/' r) =
        ('/' :: (objectKey ++ ['/'])) ++ dirs '/' r := by simp
    have hrest : removeAll ('/' :: (objectKey ++ ['/'])) (dirs '/' r) = dirs '/' r := by
      cases r with
      | nil => rfl
      | cons t ts =>
        have ht := hr.tokens.slashFree t (by simp)
        have hts : PlainPath ts := fun u hu => hr u (by simp [hu])
        have hdirs := pathOf_dirs ts
        have hlast : removeAll ('/' :: (objectKey ++ ['/'])) ['/'] = ['/'] := by decide
        rw [dirs_cons, ← hdirs, removeAll_skip ht, removeAll_pathOf hts, hlast]
    rw [editParentPath, if_pos (objectKey_mem _ r), hcut]
    have hpat : '/' :: objectKey ++ ['/'] = '/' :: (objectKey ++ ['/']) :=
      List.cons_append
    rw [hpat, removeAll_skip hs, removeAll_pathOf hss, hmark, removeAll_append_pat (by simp),
      hrest, pathOf_cons]
    simp

/-- The position the parent path of a value inside a map entry leads to. -/
def glued (p : List Str) : List Str → List Str
  | [] => p
  | t :: ts => p.dropLast ++ (p.getLast?.getD [] ++ t) :: ts

theorem glued_names (hne : p ≠ []) (r : List Str) :
    Names (pathOf p ++ dirs '/' r) (glued p r) := by
  cases r with
  | nil => exact .inl (by simp [glued])
  | cons t ts =>
    right
    obtain ⟨q, s, rfl⟩ : ∃ q s, p = q ++ [s] := by
      rcases List.eq_nil_or_concat p with rfl | ⟨q, s, rfl⟩
      · exact absurd rfl hne
      · exact ⟨q, s, by simp⟩
    have hdirs := pathOf_dirs ts
    rw [dirs_cons, ← hdirs]
    simp [glued]

theorem glued_tokens (hp : PlainPath p) (hr : PlainPath r) : TokenPath (glued p r) := by
  cases r with
  | nil => exact hp.tokens
  | cons t ts =>
    have ht := hr.tokens t (by simp)
    intro l hl
    rw [glued, List.mem_append, List.mem_cons] at hl
    rcases hl with hl | rfl | hl
    · exact hp.tokens l (List.dropLast_subset p hl)
    · refine ⟨by simp [ht.1], ?_⟩
      rw [List.mem_append, not_or]
      refine ⟨?_, ht.2⟩
      cases hlast : p.getLast? with
      | none => simp
      | some s => exact (hp.tokens s (List.mem_of_getLast? hlast)).2
    · exact hr.tokens l (by simp [hl])

theorem glued_ne_nil (hne : p ≠ []) (r : List Str) : glued p r ≠ [] := by
  cases r with
  | nil => exact hne
  | cons t ts => simp [glued]

end Edits

section Places

variable {c : JSON} {p r : List Str} {k t : Str}

/-- The declared type at a position, as `anyParamProc` fetches it. -/
def typeText (c : JSON) (p : List Str) : Except Exc Str := fetchString (viewAt c (pathOf p)).type

theorem typeText_eq (c : JSON) (p : List Str) :
    fetchString ((flatten c).lookup ('/' :: (dirs '/' p ++ txt "Type"))) = typeText c p := by
  have hkey : '/' :: (dirs '/' p ++ txt "Type") = pathOf p ++ txt "/Type" := by
    rw [dirs_key, pathOf_append, pathOf_cons, pathOf_nil, List.append_nil]
    rfl
  rw [hkey]
  rfl

theorem dirs_eq_nil : dirs '/' p = [] ↔ p = [] := by
  cases p <;> simp

/-- The position whose size and type stand for the parent: a member of the document itself is
its own parent. -/
def parentOf (p : List Str) (k : Str) : List Str := if p = [] then [k] else p

theorem parentOf_ne_nil (p : List Str) (k : Str) : parentOf p k ≠ [] := by
  rw [parentOf]
  split_ifs with h
  · simp
  · exact h

theorem plain_single (hk : plainKey k = true) : PlainPath [k] := by
  intro l hl
  rw [List.mem_singleton.mp hl]
  exact hk

theorem parentOf_plain (hp : PlainPath p) (hk : plainKey k = true) :
    PlainPath (parentOf p k) := by
  rw [parentOf]
  split_ifs
  · exact plain_single hk
  · exact hp

theorem editKey_plain (hk : plainKey k = true) : editKey k = k :=
  if_neg (plainKey_iff.mp hk).2.2.2

/-- A member outside every map. -/
theorem place_member (hp : PlainPath p) (hk : plainKey k = true)
    (ht : typeText c (parentOf p k) = .ok t) (hmap : t = txt "map.object" → p = []) :
    place c (dirs '/' p) k none =
      .ok ⟨k, t, dirs '/' (parentOf p k), pathOf (p ++ [k])⟩ := by
  have hparent : (if dirs '/' p = [] then k ++ ['/'] else dirs '/' p) = dirs '/' (parentOf p k) := by
    rw [parentOf]
    by_cases h : p = []
    · simp [h]
    · simp [h, dirs_eq_nil]
  have hentry : ¬ (t = txt "map.object" ∧ dirs '/' p ≠ []) := by
    rintro ⟨htype, hdirs⟩
    exact hdirs (dirs_eq_nil.mpr (hmap htype))
  simp only [place, hparent, typeText_eq, ht]
  simp only [bind, Except.bind, if_neg hentry, editParentPath_plain (parentOf_plain hp hk),
    editParentKey_plain hp, editKey_plain hk, dirs_key]

/-- A value inside an entry of the map at `p`. -/
theorem place_inside (hp : PlainPath p) (hr : PlainPath r) (hk : plainKey k = true)
    (ht : typeText c (p ++ objectKey :: r) = .ok []) :
    place c (dirs '/' (p ++ objectKey :: r)) k none =
      .ok ⟨k, [], editParentPath (dirs '/' (p ++ objectKey :: r)), pathOf (p ++ r ++ [k])⟩ := by
  have hdirs : dirs '/' (p ++ objectKey :: r) ≠ [] := by simp
  have htype : ¬ (([] : Str) = txt "map.object" ∧ dirs '/' (p ++ objectKey :: r) ≠ []) := by
    rintro ⟨h, -⟩
    exact absurd h (by decide)
  simp only [place, if_neg hdirs, typeText_eq, ht]
  simp only [bind, Except.bind, if_neg htype, editParentKey_entry hp hr, editKey_plain hk,
    dirs_key]

theorem typeText_undescribed (h : Regular c) (hp : SlashFree p)
    (hn : ∀ d, nodeAt c p ≠ some (object d)) : typeText c p = .ok [] := by
  rw [typeText, viewAt_undescribed h hp hn]
  rfl

/-- No description lies below the marker. -/
theorem typeText_objectKey (h : Regular c) (hp : PlainPath p) (hr : PlainPath r) :
    typeText c (p ++ objectKey :: r) = .ok [] := by
  apply typeText_undescribed h
  · intro s hs
    rw [List.mem_append, List.mem_cons] at hs
    rcases hs with hs | rfl | hs
    · exact hp.tokens.slashFree s hs
    · exact slash_notMem_objectKey
    · exact hr.tokens.slashFree s hs
  · intro d hd
    have hplain := (h.node hd).1 objectKey (by simp)
    exact absurd hplain (by decide)

end Places

section Verdicts

variable {c M w : JSON} {p q : List Str} {key : Str}

/-- The exception for a path that the constraint does not describe. -/
def undeclared (p : List Str) : Exc :=
  .config (txt "Параметр " ++ pathOf p ++ txt " отсутствует в констрейне!")

/-- `validateForOne` at a position. -/
def checkAt (c : JSON) (p : List Str) (v : JSON) (size : ℕ) : Except Exc Bool :=
  if txt "/ForDebug" <+: pathOf p then .ok true
  else match nodeAt c p with
    | some (object d) => checkParam (pathOf p) (descView d) v size
    | _ => .error (undeclared p)

theorem validateForOne_at (h : Regular c) (hp : PlainPath p) (hkey : Names key p) (v : JSON)
    (size : ℕ) : validateForOne c key v size = checkAt c p v size := by
  simp only [validateForOne, hkey.chopped hp.tokens, checkAt]
  split_ifs with hdebug
  · rfl
  · split
    · next d hn => rw [viewAt_described h hn]
    · next hn =>
      have hview := viewAt_undescribed h hp.tokens.slashFree fun d hd => hn d hd
      simp only [checkParam, hview, fetchString]
      rfl

theorem verdict_at (h : Regular c) (hroot : M.member? [] = none) {pl : Place}
    (hparent : Names ('/' :: pl.parentPath) q) (hq : TokenPath q) (hqne : q ≠ [])
    (hw : nodeAt M q = some w) (hp : PlainPath p) (hpath : Names pl.constrPath p) (v : JSON) :
    verdict c M pl v = checkAt c p v w.size := by
  rw [verdict, get_found hroot hparent hq hqne hw]
  exact validateForOne_at h hp hpath v w.size

end Verdicts

section Steps

variable {c M O D : JSON} {parentKey k : Str} {idx : Option ℕ} {pl : Place} {v : JSON}

theorem anyParamProc_error {e : Exc} (hpl : place c parentKey k idx = .ok pl)
    (hv : verdict c M pl v = .error e) : anyParamProc c M O parentKey k idx v = .error e := by
  simp only [anyParamProc, hpl, bind, Except.bind, hv]

theorem anyParamProc_pass (hpl : place c parentKey k idx = .ok pl)
    (hv : verdict c M pl v = .ok true) (hne : pl.key ≠ []) :
    anyParamProc c M O parentKey k idx v =
      .ok (if v.empty then (false, pl.key, M) else (true, pl.key ++ ['/'], M)) := by
  simp only [anyParamProc, hpl, bind, Except.bind, hv, ne_eq, hne, not_false_eq_true, if_true]
  cases v.empty <;> rfl

theorem anyParamProc_fail (hpl : place c parentKey k idx = .ok pl)
    (hv : verdict c M pl v = .ok false) :
    anyParamProc c M O parentKey k idx v = (do
      let M' ← replaceParam c M O parentKey k pl
      .ok (false, pl.key, M')) := by
  simp only [anyParamProc, hpl, bind, Except.bind, hv]
  rfl

variable {p : List Str}

/-- Outside every map a value that fails is replaced by the old value at its position. -/
theorem replaceParam_old {o w : JSON} (hD : getDefaultConfig c = .ok D)
    (hO : O.member? [] = none) (hM : M.member? [] = none) (hp : PlainPath p)
    (hk : plainKey k = true) (ho : nodeAt O (p ++ [k]) = some o)
    (hw : nodeAt M (p ++ [k]) = some w) :
    replaceParam c M O (dirs '/' p) k pl = .ok (setAt o (p ++ [k]) M) := by
  have hpk := (hp.concat hk).tokens
  have hne : p ++ [k] ≠ [] := by simp
  simp only [replaceParam, hD, dirs_key, isContain_eq O hpk hne, ho,
    decide_eq_false (objectKey_notMem hp)]
  simp only [bind, Except.bind, Bool.and_false, Option.isSome_some, Bool.not_true,
    Bool.false_eq_true, if_false, get_found hO (.inl rfl) hpk hne ho,
    store_found o hM (.inl rfl) hpk hne hw]

/-- Without an old value the call is rejected, unless the parent holds entries. -/
theorem replaceParam_none (hD : getDefaultConfig c = .ok D) (hp : PlainPath p)
    (hk : plainKey k = true) (ho : nodeAt O (p ++ [k]) = none)
    (hentries : pl.typeParent ≠ txt "map.object" ∧ pl.typeParent ≠ txt "array.object") :
    replaceParam c M O (dirs '/' p) k pl =
      .error (.config (txt "В confOld не найден объект " ++ pathOf (p ++ [k]) ++ ['!'])) := by
  have hpk := (hp.concat hk).tokens
  have hne : p ++ [k] ≠ [] := by simp
  have hcond : ¬ (pl.typeParent = txt "map.object" ∨ pl.typeParent = txt "array.object" ∨
      False) := by
    simp [hentries.1, hentries.2]
  simp only [replaceParam, hD, dirs_key, isContain_eq O hpk hne, ho,
    decide_eq_false (objectKey_notMem hp)]
  simp only [bind, Except.bind, Bool.and_false, Option.isSome_none, Bool.not_false,
    Bool.false_eq_true, if_false, if_true, if_neg hcond]

end Steps

end ToolkitCpp.Config

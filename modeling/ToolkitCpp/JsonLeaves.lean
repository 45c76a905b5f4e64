import ToolkitCpp.JsonPath

/-!
# Leaves of a document

What the flattened form of a document holds at a path is read off the document itself:
`leafAt` follows the reference tokens of a pointer, and `flatten` stores exactly its leaves.
-/
namespace ToolkitCpp.Json

open JSON

/-- The text of a path: a slash before every token. -/
def pathOf (segs : List Str) : Str := segs.flatMap ('/' :: ·)

@[simp] theorem pathOf_nil : pathOf [] = [] := rfl

@[simp] theorem pathOf_cons (s : Str) (ss : List Str) :
    pathOf (s :: ss) = '/' :: (s ++ pathOf ss) := by simp [pathOf]

@[simp] theorem pathOf_append (ss ts : List Str) :
    pathOf (ss ++ ts) = pathOf ss ++ pathOf ts := by simp [pathOf]

def SlashFree (segs : List Str) : Prop := ∀ s ∈ segs, '/' ∉ s

theorem escape_slashFree (k : Str) : '/' ∉ escape k := by
  intro h
  simp only [escape, List.mem_flatMap] at h
  obtain ⟨c, -, hc⟩ := h
  split_ifs at hc with h1 h2
  · simp at hc
  · simp at hc
  · simp only [List.mem_singleton] at hc
    exact h2 hc.symm

theorem escape_cons (c : Char) (k : Str) : escape (c :: k) =
    (if c = '~' then ['~', '0'] else if c = '/' then ['~', '1'] else [c]) ++ escape k := by
  simp [escape]

theorem escape_eq_self {k : Str} (htilde : '~' ∉ k) (hslash : '/' ∉ k) : escape k = k := by
  induction k with
  | nil => rfl
  | cons c k ih =>
    simp only [List.mem_cons, not_or] at htilde hslash
    rw [escape_cons, if_neg (Ne.symm htilde.1), if_neg (Ne.symm hslash.1), ih htilde.2 hslash.2]
    rfl

theorem properlyEscaped_cons {c : Char} (hc : c ≠ '~') (k : Str) :
    properlyEscaped (c :: k) = properlyEscaped k := by
  rw [properlyEscaped.eq_3 c k (fun _ _ h _ => hc h)]
  simp [hc]

theorem unescape_cons {c : Char} (hc : c ≠ '~') (k : Str) : unescape (c :: k) = c :: unescape k :=
  unescape.eq_4 c k (fun _ h _ => hc h) (fun _ h _ => hc h)

theorem unescape_escape (k : Str) :
    properlyEscaped (escape k) = true ∧ unescape (escape k) = k := by
  induction k with
  | nil => exact ⟨rfl, rfl⟩
  | cons c k ih =>
    obtain ⟨hproper, hun⟩ := ih
    rw [escape_cons]
    split_ifs with htilde hslash
    · subst htilde
      simp [properlyEscaped, unescape, hproper, hun]
    · subst hslash
      simp [properlyEscaped, unescape, hproper, hun]
    · rw [List.singleton_append, properlyEscaped_cons htilde, unescape_cons htilde, hun]
      exact ⟨hproper, rfl⟩

/-- The text after a first token ends or goes on with a slash. -/
def Cut (x : Str) : Prop := x = [] ∨ x.head? = some '/'

theorem pathOf_cut (segs : List Str) : Cut (pathOf segs) := by
  cases segs with
  | nil => exact .inl rfl
  | cons s ss => exact .inr (by simp)

/-- The first token of a pointer is a key that was escaped. -/
theorem pointerTokens_escape (k : Str) {p : Str} (hp : Cut p) :
    pointerTokens ('/' :: (escape k ++ p)) = (pointerTokens p).map (k :: ·) := by
  obtain ⟨hproper, hun⟩ := unescape_escape k
  have hfree : ∀ c ∈ escape k, (c == '/') = false := by
    intro c hc
    rw [beq_eq_false_iff_ne]
    rintro rfl
    exact escape_slashFree k hc
  cases p with
  | nil =>
    have hsplit : (escape k).splitOn '/' = [escape k] := List.splitOnP_eq_singleton hfree
    rw [List.append_nil]
    simp [pointerTokens, hsplit, hproper, hun, Except.map]
  | cons c q =>
    obtain rfl : c = '/' := by simpa [Cut] using hp
    have hsplit : (escape k ++ '/' :: q).splitOn '/' = escape k :: q.splitOn '/' :=
      List.splitOnP_append_cons_of_forall_mem hfree '/' (by simp) q
    rw [pointerTokens, pointerTokens, hsplit]
    by_cases hall : (q.splitOn '/').all properlyEscaped = true
    · simp [hproper, hun, hall, Except.map]
    · simp [hall, Except.map]

theorem token_unique {a b x y : Str} (ha : '/' ∉ a) (hb : '/' ∉ b) (hx : Cut x) (hy : Cut y)
    (h : a ++ x = b ++ y) : a = b := by
  induction a generalizing b with
  | nil =>
    cases b with
    | nil => rfl
    | cons c b =>
      rcases hx with rfl | hx
      · simp at h
      · rw [List.nil_append] at h
        rw [h] at hx
        simp only [List.cons_append, List.head?_cons, Option.some.injEq] at hx
        simp [hx] at hb
  | cons c a ih =>
    cases b with
    | nil =>
      rcases hy with rfl | hy
      · simp at h
      · rw [List.nil_append] at h
        rw [← h] at hy
        simp only [List.cons_append, List.head?_cons, Option.some.injEq] at hy
        simp [hy] at ha
    | cons d b =>
      simp only [List.cons_append, List.cons.injEq] at h
      simp only [List.mem_cons, not_or] at ha hb
      rw [h.1, ih ha.2 hb.2 h.2]

/-- A key of the flattened form that may stem from a value written at `ref`. -/
def Under (ref key : Str) : Prop := ∃ x, key = ref ++ x ∧ Cut x

theorem Under.parent {ref t key : Str} (h : Under (ref ++ '/' :: t) key) : Under ref key := by
  obtain ⟨x, rfl, -⟩ := h
  exact ⟨'/' :: (t ++ x), by simp, .inr rfl⟩

theorem lookup_put_of_not_under {ref key : Str} (h : ¬ Under ref key) (v : JSON)
    (res : Members) : (put ref v res).lookup key = res.lookup key := by
  rw [lookup_put, if_neg]
  rintro rfl
  exact h ⟨[], by simp, .inl rfl⟩

mutual

theorem flattenInto_of_not_under {ref key : Str} (h : ¬ Under ref key) :
    ∀ (v : JSON) (res : Members), (flattenInto ref v res).lookup key = res.lookup key
  | array [], res => lookup_put_of_not_under h null res
  | array (x :: xs), res => flattenElems_of_not_under h (x :: xs) 0 res
  | object [], res => lookup_put_of_not_under h null res
  | object (kv :: kvs), res => flattenMembers_of_not_under h (kv :: kvs) res
  | null, res => lookup_put_of_not_under h _ res
  | boolean _, res => lookup_put_of_not_under h _ res
  | integer _, res => lookup_put_of_not_under h _ res
  | unsigned _, res => lookup_put_of_not_under h _ res
  | float _, res => lookup_put_of_not_under h _ res
  | string _, res => lookup_put_of_not_under h _ res

theorem flattenElems_of_not_under {ref key : Str} (h : ¬ Under ref key) :
    ∀ (xs : List JSON) (i : ℕ) (res : Members),
      (flattenElems ref i xs res).lookup key = res.lookup key
  | [], _, _ => rfl
  | x :: xs, i, res => by
      rw [flattenElems, flattenElems_of_not_under h xs (i + 1),
        flattenInto_of_not_under (fun hu => h hu.parent) x]

theorem flattenMembers_of_not_under {ref key : Str} (h : ¬ Under ref key) :
    ∀ (kvs res : Members), (flattenMembers ref kvs res).lookup key = res.lookup key
  | [], _ => rfl
  | (k, v) :: kvs, res => by
      rw [flattenMembers, flattenMembers_of_not_under h kvs,
        flattenInto_of_not_under (fun hu => h hu.parent) v]

end

mutual

/-- The leaf a list of reference tokens leads to; an empty container counts as null. -/
def leafAt : JSON → List Str → Option JSON
  | array [], [] => some null
  | array (_ :: _), [] => none
  | array xs, s :: ss => leafElems 0 xs s ss
  | object [], [] => some null
  | object (_ :: _), [] => none
  | object kvs, s :: ss => leafMembers kvs s ss
  | v, [] => some v
  | _, _ :: _ => none

def leafElems (i : ℕ) : List JSON → Str → List Str → Option JSON
  | [], _, _ => none
  | x :: xs, s, ss =>
      (leafElems (i + 1) xs s ss).or (if s = toString i then leafAt x ss else none)

def leafMembers : Members → Str → List Str → Option JSON
  | [], _, _ => none
  | (k, v) :: kvs, s, ss =>
      (leafMembers kvs s ss).or (if s = escape k then leafAt v ss else none)

end

theorem leafAt_primitive {v : JSON} (h : v.isPrimitive = true) (segs : List Str) :
    leafAt v segs = if segs = [] then some v else none := by
  cases v <;> cases segs <;> simp_all [leafAt, isPrimitive]

theorem toString_slashFree (i : ℕ) : '/' ∉ toString i := by
  intro h
  have hdigit := Nat.isDigit_of_mem_toDigits (by decide) (by decide) h
  exact absurd hdigit (by decide)

/-- Storing at the pointer of one token leaves the pointers of another alone. -/
theorem flattenInto_sibling {ref s t : Str} {ss : List Str} (v : JSON) (res : Members)
    (hs : '/' ∉ s) (ht : '/' ∉ t) (hne : s ≠ t) :
    (flattenInto (ref ++ '/' :: t) v res).lookup (ref ++ pathOf (s :: ss)) =
      res.lookup (ref ++ pathOf (s :: ss)) := by
  apply flattenInto_of_not_under
  rintro ⟨x, hx, hcut⟩
  rw [pathOf_cons, List.append_assoc, List.append_cancel_left_eq, List.cons_append,
    List.cons.injEq] at hx
  exact hne (token_unique hs ht (pathOf_cut ss) hcut hx.2)

theorem put_leaf {ref : Str} (v : JSON) (res : Members) (segs : List Str) :
    (put ref v res).lookup (ref ++ pathOf segs) =
      (if segs = [] then some v else none).or (res.lookup (ref ++ pathOf segs)) := by
  cases segs with
  | nil => simp [lookup_put]
  | cons s ss => simp [lookup_put]

theorem lookup_flattenInto_primitive {ref : Str} {v : JSON} (h : v.isPrimitive = true)
    (res : Members) (segs : List Str) :
    (flattenInto ref v res).lookup (ref ++ pathOf segs) =
      (leafAt v segs).or (res.lookup (ref ++ pathOf segs)) := by
  have hflat : flattenInto ref v res = put ref v res := by
    cases v <;> simp_all [flattenInto, isPrimitive]
  rw [hflat, put_leaf, leafAt_primitive h]

theorem not_under_child (ref t : Str) : ¬ Under (ref ++ '/' :: t) ref := by
  rintro ⟨x, hx, -⟩
  have hlen := congrArg List.length hx
  simp only [List.length_append, List.length_cons] at hlen
  omega

theorem flattenElems_root {ref : Str} (xs : List JSON) (i : ℕ) (res : Members) :
    (flattenElems ref i xs res).lookup (ref ++ pathOf []) = res.lookup (ref ++ pathOf []) := by
  rw [pathOf_nil, List.append_nil]
  induction xs generalizing i res with
  | nil => rfl
  | cons x xs ih => rw [flattenElems, ih, flattenInto_of_not_under (not_under_child _ _)]

theorem flattenMembers_root {ref : Str} (kvs res : Members) :
    (flattenMembers ref kvs res).lookup (ref ++ pathOf []) = res.lookup (ref ++ pathOf []) := by
  rw [pathOf_nil, List.append_nil]
  induction kvs generalizing res with
  | nil => rfl
  | cons kv kvs ih =>
    obtain ⟨k, v⟩ := kv
    rw [flattenMembers, ih, flattenInto_of_not_under (not_under_child _ _)]

mutual

theorem lookup_flattenInto : ∀ (ref : Str) (v : JSON) (res : Members) (segs : List Str),
    SlashFree segs → (flattenInto ref v res).lookup (ref ++ pathOf segs) =
      (leafAt v segs).or (res.lookup (ref ++ pathOf segs))
  | ref, array [], res, segs, _ => by
      rw [flattenInto, put_leaf]
      cases segs <;> simp [leafAt, leafElems]
  | ref, array (x :: xs), res, segs, h => by
      rw [flattenInto]
      cases segs with
      | nil =>
        rw [flattenElems_root (x :: xs) 0 res]
        simp [leafAt]
      | cons s ss =>
        rw [lookup_flattenElems ref (x :: xs) 0 res s ss h]
        simp [leafAt]
  | ref, object [], res, segs, _ => by
      rw [flattenInto, put_leaf]
      cases segs <;> simp [leafAt, leafMembers]
  | ref, object (kv :: kvs), res, segs, h => by
      rw [flattenInto]
      cases segs with
      | nil =>
        rw [flattenMembers_root (kv :: kvs) res]
        simp [leafAt]
      | cons s ss =>
        rw [lookup_flattenMembers ref (kv :: kvs) res s ss h]
        simp [leafAt]
  | ref, null, res, segs, _ => lookup_flattenInto_primitive rfl res segs
  | ref, boolean _, res, segs, _ => lookup_flattenInto_primitive rfl res segs
  | ref, integer _, res, segs, _ => lookup_flattenInto_primitive rfl res segs
  | ref, unsigned _, res, segs, _ => lookup_flattenInto_primitive rfl res segs
  | ref, float _, res, segs, _ => lookup_flattenInto_primitive rfl res segs
  | ref, string _, res, segs, _ => lookup_flattenInto_primitive rfl res segs

theorem lookup_flattenElems : ∀ (ref : Str) (xs : List JSON) (i : ℕ) (res : Members) (s : Str)
    (ss : List Str), SlashFree (s :: ss) →
    (flattenElems ref i xs res).lookup (ref ++ pathOf (s :: ss)) =
      (leafElems i xs s ss).or (res.lookup (ref ++ pathOf (s :: ss)))
  | _, [], _, _, _, _, _ => by simp [flattenElems, leafElems]
  | ref, x :: xs, i, res, s, ss, h => by
      rw [flattenElems, lookup_flattenElems ref xs (i + 1) _ s ss h, leafElems, Option.or_assoc]
      by_cases hs : s = toString i
      · have hkey : ref ++ pathOf (s :: ss) = (ref ++ '/' :: toString i) ++ pathOf ss := by
          simp [hs]
        rw [hkey, lookup_flattenInto _ x res ss fun t ht => h t (by simp [ht]), if_pos hs]
      · rw [flattenInto_sibling x res (h s (by simp)) (toString_slashFree i) hs, if_neg hs]
        simp

theorem lookup_flattenMembers : ∀ (ref : Str) (kvs res : Members) (s : Str) (ss : List Str),
    SlashFree (s :: ss) → (flattenMembers ref kvs res).lookup (ref ++ pathOf (s :: ss)) =
      (leafMembers kvs s ss).or (res.lookup (ref ++ pathOf (s :: ss)))
  | _, [], _, _, _, _ => by simp [flattenMembers, leafMembers]
  | ref, (k, v) :: kvs, res, s, ss, h => by
      rw [flattenMembers, lookup_flattenMembers ref kvs _ s ss h, leafMembers, Option.or_assoc]
      by_cases hs : s = escape k
      · have hkey : ref ++ pathOf (s :: ss) = (ref ++ '/' :: escape k) ++ pathOf ss := by
          simp [hs]
        rw [hkey, lookup_flattenInto _ v res ss fun t ht => h t (by simp [ht]), if_pos hs]
      · rw [flattenInto_sibling v res (h s (by simp)) (escape_slashFree k) hs, if_neg hs]
        simp

end

/-- The flattened form holds the leaves of the document. -/
theorem lookup_flatten (j : JSON) {segs : List Str} (h : SlashFree segs) :
    (flatten j).lookup (pathOf segs) = leafAt j segs := by
  have hroot := lookup_flattenInto [] j [] segs h
  simpa [flatten] using hroot

end ToolkitCpp.Json

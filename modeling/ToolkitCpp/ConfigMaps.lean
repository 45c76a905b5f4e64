import ToolkitCpp.ConfigConform
import ToolkitCpp.ConfigStable

/-!
# Completeness of the validator

Which conforming configurations come out of `validateAndReplaceConfig` unchanged. A conforming
value is kept when it also fits the place that the edited texts of its path name: inside the
entries of a map the parent is looked up under a glued name, the size of a map is taken from its
parent, and elements of arrays are looked up below the description of the array.
-/
namespace ToolkitCpp.Config

open Json JSON Segments

section Places

variable {c N : JSON} {p r : List Str} {k key : Str} {v : JSON}

/-- A value inside an entry of the map at `p` only fits if the configuration has a node under
the path in which the name of the map and the name that follows the entry are glued together. -/
theorem Fits.glued (hc : Regular c) (hN : N.member? [] = none) (hp : PlainPath p) (hne : p ≠ [])
    (hr : PlainPath r) (hk : plainKey k = true)
    (h : Fits c N (dirs '/' (p ++ objectKey :: r)) k none v key) :
    ∃ u, nodeAt N (glued p r) = some u := by
  obtain ⟨pl, u, hpl, hu, -, -⟩ := h
  rw [place_inside hp hr hk (typeText_objectKey hc hp hr), Except.ok.injEq] at hpl
  rw [← hpl] at hu
  have hname : Names ('/' :: editParentPath (dirs '/' (p ++ objectKey :: r))) (Config.glued p r) := by
    rw [editParentPath_entry hp hne hr]
    exact glued_names hne r
  exact ⟨u, get_named hN hname (glued_tokens hp hr) (glued_ne_nil hne r) hu⟩

theorem plainKey_toString (i : ℕ) : plainKey (toString i) = true := by
  have hdigit : ∀ a ∈ toString i, a.isDigit = true :=
    fun a ha => Nat.isDigit_of_mem_toDigits (by decide) (by decide) ha
  rw [plainKey_iff]
  refine ⟨?_, toString_slashFree i, ?_, ?_⟩
  · intro hnil
    have hpos : 0 < (Nat.toDigits 10 i).length := Nat.length_toDigits_pos
    rw [toString] at hnil
    rw [hnil] at hpos
    exact absurd hpos (by decide)
  · intro hmem
    exact absurd (hdigit _ hmem) (by decide)
  · intro hin
    have hmem : 'O' ∈ objectKey := by decide
    exact absurd (hdigit _ (hin.subset hmem)) (by decide)

/-- An element of an array at the top of the configuration does not fit: the path with its index
leads nowhere. -/
theorem not_fits_element {xs : List JSON} (hN : N.member? [] = none) (hk : plainKey k = true)
    (hnode : nodeAt N [k] = some (array xs)) (i : ℕ) : ¬ Fits c N [] k (some i) v key := by
  rintro ⟨pl, u, hpl, hu, -, -⟩
  have hplain : PlainPath [k, toString i] := (plain_single hk).concat (plainKey_toString i)
  have hparent : pl.parentPath = dirs '/' [k, toString i] := by
    have htext : k ++ '/' :: (toString i ++ ['/']) = dirs '/' [k, toString i] := by simp
    rw [← editParentPath_plain hplain, ← htext]
    obtain ⟨t, ht, hok⟩ := bind_ok hpl
    rw [Except.ok.injEq] at hok
    rw [← hok]
    simp
  rw [hparent] at hu
  have hfound := get_named hN (.inr (pathOf_dirs _).symm) hplain.tokens (by simp) hu
  have hsplit := nodeAt_append N [k] [toString i]
  rw [hnode] at hsplit
  simp [hfound, nodeAt, member?] at hsplit

/-- In a configuration whose values all fit, arrays at the top are empty. -/
theorem top_array_empty {xs : List JSON} (hN : N.member? [] = none) (hk : plainKey k = true)
    (hmem : (k, array xs) ∈ membersOf N) (hnode : nodeAt N [k] = some (array xs))
    (h : EachVisited c N fun parentKey k idx v => ∃ key, Fits c N parentKey k idx v key) :
    xs = [] := by
  cases xs with
  | nil => rfl
  | cons x xs =>
    obtain ⟨key, hkey⟩ := h (.elem (.member hmem) (i := 0) rfl) (lookedAt_elem 0 x)
    exact absurd hkey (not_fits_element hN hk hnode 0)

end Places

section Maps

/-- A description of one of the types without arrays; numbers and maps have integer bounds. -/
def mapDesc (d : Members) : Bool :=
  typeOf d == some (txt "object") || typeOf d == some (txt "string") ||
    typeOf d == some (txt "bool") ||
    ((numericType d || typeOf d == some (txt "map.object")) &&
      intBound d (txt "Min") && intBound d (txt "Max"))

mutual

def mapTyped : JSON → Bool
  | object d => mapDesc d && mapTypedMembers d
  | _ => true

def mapTypedMembers : Members → Bool
  | [] => true
  | (_, v) :: rest => mapTyped v && mapTypedMembers rest

end

/-- A conforming configuration without arrays, and a constraint with the types `int`, `float`,
`string`, `bool`, `object` and `map.object` in which the `Min` and `Max` of numbers and maps are
integers of the range of `int`. -/
structure MapCase (cs kvs : Members) : Prop where
  constraint_valid : (object cs).valid = true
  constraint_types : mapTypedMembers cs = true
  default_ok : ∃ D, getDefaultConfig (object cs) = .ok D
  new_valid : (object kvs).valid = true
  new_arrayFree : arrayFree (object kvs) = true
  new_present : presentMembers cs (some (object kvs)) = true
  new_conforms : conformsMembers false cs kvs = true

/-- A map of at most three entries with one integer field each. -/
def flatMap : Members :=
  [(txt "M", object [(txt "Default", null), (txt "Max", unsigned 3), (txt "Min", unsigned 0),
    (txt "Type", string (txt "map.object")),
    (txt "x", object (fields "int" (unsigned 0) (unsigned 5) (unsigned 0)))])]

/-- One entry. -/
def flatEntry : Members := [(txt "M", object [(txt "e", object [(txt "x", unsigned 1)])])]

/-- A map whose entries hold a nested object. -/
def nestedMap : Members :=
  [(txt "M", object [(txt "Default", null), (txt "Max", unsigned 3), (txt "Min", unsigned 0),
    (txt "Sub", object [(txt "Type", string (txt "object")),
      (txt "x", object (fields "int" (unsigned 0) (unsigned 5) (unsigned 0)))]),
    (txt "Type", string (txt "map.object"))])]

/-- One entry with its nested object. -/
def nestedEntry : Members :=
  [(txt "M", object [(txt "e", object [(txt "Sub", object [(txt "x", unsigned 1)])])])]

end Maps

section Arrays

/-- A configuration that conforms to a constraint, arrays included. -/
structure ArrayCase (cs kvs : Members) : Prop where
  constraint_valid : (object cs).valid = true
  default_ok : ∃ D, getDefaultConfig (object cs) = .ok D
  new_valid : (object kvs).valid = true
  new_present : presentMembers cs (some (object kvs)) = true
  new_conforms : conformsMembers false cs kvs = true

/-- One array of at most three integers. -/
def arrayConstraint : Members :=
  [(txt "A", object (fields "array.int" null (unsigned 3) (unsigned 0)))]

end Arrays

end ToolkitCpp.Config

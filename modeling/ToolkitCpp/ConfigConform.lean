import ToolkitCpp.ConfigSpec

/-!
# Conforming values

When a value conforms to its description, by the bounds and the `Enum` written there and by its
own size. Entries of maps and elements of arrays of objects are held against the descriptions
inside the description. The flag says whether members that nothing describes are allowed.
-/
namespace ToolkitCpp.Config

open Json JSON Segments

/-- The elements of an array have the scalar type its description names. -/
def elementsConform (d : Members) (xs : List JSON) : Bool :=
  (typeOf d == some (txt "array.int") && xs.all fun x => x.isNumber && !x.isNumberFloat) ||
  (typeOf d == some (txt "array.float") && xs.all isNumber) ||
  (typeOf d == some (txt "array.string") && xs.all isString) ||
  (typeOf d == some (txt "array.bool") && xs.all isBoolean)

/-- The `Enum` of a description, if it has one, lists a value. -/
def listed (d : Members) (v : JSON) : Bool :=
  match d.lookup (txt "Enum") with
  | some e => (items e).any (eqv · v)
  | none => true

section Conforming

variable (extra : Bool)

mutual

/-- A value conforms to a description. -/
def conforms (d : Members) : JSON → Bool
  | null => typeOf d == some (txt "object") || (valueJson d (txt "Default")).isNull
  | boolean b => listed d (boolean b) && typeOf d == some (txt "bool")
  | integer i => listed d (integer i) && (numericType d && inBounds d i.toInt)
  | unsigned n => listed d (unsigned n) && (numericType d && inBounds d n.toNat)
  | float q => listed d (float q) && (typeOf d == some (txt "float") && inBounds d q)
  | string s => listed d (string s) && typeOf d == some (txt "string")
  | array xs => listed d (array xs) &&
      ((elementsConform d xs || (typeOf d == some (txt "array.object") && conformsElems d xs)) &&
        inBounds d xs.length)
  | object kvs => listed d (object kvs) &&
      ((typeOf d == some (txt "object") && conformsMembers d kvs) ||
      (typeOf d == some (txt "map.object") && inBounds d kvs.length && conformsEntries d kvs))
termination_by structural v => v

/-- Every member that `cs` declares conforms, and `extra` says whether others may be there. -/
def conformsMembers (cs : Members) : Members → Bool
  | [] => true
  | (k, v) :: rest =>
      (match cs.lookup k with
        | some (object d) => conforms d v
        | _ => extra) && conformsMembers cs rest
termination_by structural kvs => kvs

/-- An entry of a map or an array of objects is an object that conforms to the template. -/
def conformsEntry (d : Members) : JSON → Bool
  | object kvs => conformsMembers d kvs
  | _ => false
termination_by structural v => v

def conformsEntries (d : Members) : Members → Bool
  | [] => true
  | (_, v) :: rest => conformsEntry d v && conformsEntries d rest
termination_by structural kvs => kvs

def conformsElems (d : Members) : List JSON → Bool
  | [] => true
  | v :: rest => conformsEntry d v && conformsElems d rest
termination_by structural xs => xs

end

end Conforming

end ToolkitCpp.Config

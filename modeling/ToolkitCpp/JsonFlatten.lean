import ToolkitCpp.JsonMembers

/-!
# Flattening and unflattening

`flatten` writes a document as one object whose keys are the JSON pointers of its leaves,
`unflatten` rebuilds a document from such an object by creating what each pointer asks for.
-/
namespace ToolkitCpp.Json

open JSON

/-- `detail::escape`. -/
def escape (s : Str) : Str :=
  s.flatMap fun c => if c = '~' then ['~', '0'] else if c = '/' then ['~', '1'] else [c]

mutual

def flattenInto (ref : Str) : JSON → Members → Members
  | array [], res => put ref null res
  | array (x :: xs), res => flattenElems ref 0 (x :: xs) res
  | object [], res => put ref null res
  | object (kv :: kvs), res => flattenMembers ref (kv :: kvs) res
  | v, res => put ref v res

def flattenElems (ref : Str) (i : ℕ) : List JSON → Members → Members
  | [], res => res
  | x :: xs, res =>
      flattenElems ref (i + 1) xs (flattenInto (ref ++ '/' :: toString i) x res)

def flattenMembers (ref : Str) : Members → Members → Members
  | [], res => res
  | (k, v) :: kvs, res =>
      flattenMembers ref kvs (flattenInto (ref ++ '/' :: escape k) v res)

end

def flatten (j : JSON) : Members := flattenInto [] j []

/-- `json_pointer::array_index`. -/
def arrayIndex (s : Str) : Except Exc ℕ :=
  if 1 < s.length ∧ s.head? = some '0' then .error (.json 106)
  else if 1 < s.length ∧ ¬ (s.head?.any fun c => '1' ≤ c && c ≤ '9') then .error (.json 109)
  else if s = [] ∨ ¬ s.all Char.isDigit then .error (.json 404)
  else
    let n := s.foldl (fun n c => 10 * n + (c.toNat - '0'.toNat)) 0
    if 2 ^ 64 ≤ n then .error (.json 404)
    else if n = 2 ^ 64 - 1 then .error (.json 410)
    else .ok n

/-- Every `~` of a reference token is followed by `0` or `1`. -/
def properlyEscaped : Str → Bool
  | [] => true
  | '~' :: c :: s => (c == '0' || c == '1') && properlyEscaped s
  | c :: s => c != '~' && properlyEscaped s

/-- `detail::unescape`. -/
def unescape : Str → Str
  | [] => []
  | '~' :: '0' :: s => '~' :: unescape s
  | '~' :: '1' :: s => '/' :: unescape s
  | c :: s => c :: unescape s

/-- `json_pointer::split`. -/
def pointerTokens : Str → Except Exc (List Str)
  | [] => .ok []
  | c :: s =>
      if c ≠ '/' then .error (.json 107)
      else if (s.splitOn '/').all properlyEscaped then .ok ((s.splitOn '/').map unescape)
      else .error (.json 108)

/-- An array grown with null values to hold index `i`, and `v` stored there. -/
def storeAt (xs : List JSON) (i : ℕ) (v : JSON) : List JSON :=
  (xs ++ List.replicate (i + 1 - xs.length) null).set i v

/-- `get_and_create` followed by the assignment through the reference it returns. -/
def assignAt (v : JSON) : List Str → JSON → Except Exc JSON
  | [], _ => .ok v
  | t :: ts, null => do
      let child ← assignAt v ts null
      if t = ['0'] then .ok (array [child]) else .ok (object [(t, child)])
  | t :: ts, object kvs => do
      let child ← assignAt v ts ((kvs.lookup t).getD null)
      .ok (object (put t child kvs))
  | t :: ts, array xs => do
      let i ← arrayIndex t
      let child ← assignAt v ts (xs.getD i null)
      .ok (array (storeAt xs i child))
  | _ :: _, _ => .error (.json 313)

def unflattenFrom : Members → JSON → Except Exc JSON
  | [], res => .ok res
  | (ref, v) :: rest, res => do
      if !v.isPrimitive then .error (.json 315)
      let tokens ← pointerTokens ref
      let res ← assignAt v tokens res
      unflattenFrom rest res

def unflatten : JSON → Except Exc JSON
  | object kvs => unflattenFrom kvs null
  | _ => .error (.json 314)

end ToolkitCpp.Json

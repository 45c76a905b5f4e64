import ToolkitCpp.JsonPath

/-!
# The configuration validator

`ConfigValidator` as a function of the constraint document. The flattened constraint is read
through textual paths; the new configuration is walked as it was at the start of a call while
the live one is changed. Where a call throws, the exception is its result.

`validateForOne` reads `Default` through `operator[]`, which may add a null entry to the
flattened constraint. No later lookup can tell such an entry from a missing one, so the
constraint is taken as constant.
-/
namespace ToolkitCpp.Config

open Json JSON Segments

def objectKey : Str := txt "OBJECT_KEY"

/-- `value(key, "")`, given what stands at the key. -/
def fetchString : Option JSON → Except Exc Str
  | some v => v.getString
  | none => .ok []

/-- `value(key, -1)`, given what stands at the key. -/
def fetchInt : Option JSON → Except Exc ℤ
  | some v => v.getInt
  | none => .ok (-1)

/-- `value(key, JSON{})`. -/
def valueJson (j : Members) (key : Str) : JSON := (j.lookup key).getD null

/-- What a range-based loop over a value visits. -/
def items : JSON → List JSON
  | null => []
  | array xs => xs
  | object kvs => kvs.map Prod.snd
  | v => [v]

def inEnum (prmKeyPath : Str) (prmValue : JSON) : List JSON → Except Exc Bool
  | [] => .ok false
  | itE :: rest =>
      if !itE.isString then
        .error (.config (txt "Для параметра " ++ prmKeyPath ++ txt " Enum в констрейне"))
      else if eqv itE prmValue then .ok true
      else inEnum prmKeyPath prmValue rest

/-- The fields of a description that `validateForOne` reads. -/
structure ParamView where
  type : Option JSON
  min : Option JSON
  max : Option JSON
  dflt : Option JSON
  enum : Except Exc (Option JSON)

/-- What the flattened constraint holds below a path; the `Enum` is looked up in the
constraint itself. -/
def viewAt (c : JSON) (prmKeyPath : Str) : ParamView where
  type := (flatten c).lookup (prmKeyPath ++ txt "/Type")
  min := (flatten c).lookup (prmKeyPath ++ txt "/Min")
  max := (flatten c).lookup (prmKeyPath ++ txt "/Max")
  dflt := (flatten c).lookup (prmKeyPath ++ txt "/Default")
  enum :=
    if isContainParamInJson c (prmKeyPath ++ txt "/Enum") then do
      let enumJSArr ← getParamValueFromJson c (prmKeyPath ++ txt "/Enum")
      .ok (some enumJSArr)
    else .ok none

def checkEnum (prmKeyPath : Str) (prmValue : JSON) : Option JSON → Except Exc Unit
  | some enumJSArr => do
      let retEnum ← inEnum prmKeyPath prmValue (items enumJSArr)
      if retEnum then .ok ()
      else .error (.config
        (txt "Параметр " ++ prmKeyPath ++ txt " не соответствует Enum в констрейне!"))
  | none => .ok ()

/-- The tests of `validateForOne` on the kind of the value, one for each kind. -/
def checkKind (prmKeyPath paramType : Str) (view : ParamView) : JSON → Except Exc Bool
  | integer _ | unsigned _ => .ok (paramType = txt "int" || paramType = txt "float")
  | float _ => .ok (paramType = txt "float")
  | string s =>
      if paramType = txt "string" then do
        let enum ← view.enum
        checkEnum prmKeyPath (string s) enum
        .ok true
      else .ok false
  | boolean _ => .ok (paramType = txt "bool")
  | null => .ok (paramType = txt "object" || (view.dflt.getD null).isNull)
  | object _ => .ok (paramType = txt "object" || paramType = txt "map.object")
  | array _ => .ok (decide (txt "array." <+: paramType))

/-- The comparison with `Min` and `Max`, which are fetched as `int`. -/
def checkRange (paramType : Str) (view : ParamView) (prmValue : JSON) (sizeArrMap : ℕ) :
    Except Exc Bool :=
  if paramType = txt "string" ∨ paramType = txt "object" ∨ paramType = txt "bool" then
    .ok true
  else do
    let minVariantVal ← fetchInt view.min
    let maxVariantVal ← fetchInt view.max
    let valForDiff :=
      if txt "array." <+: paramType ∨ txt "map." <+: paramType then ofSize sizeArrMap
      else prmValue
    .ok (!(gt valForDiff (ofInt maxVariantVal) || lt valForDiff (ofInt minVariantVal)))

/-- A value against the description of its parameter. -/
def checkParam (prmKeyPath : Str) (view : ParamView) (prmValue : JSON) (sizeArrMap : ℕ) :
    Except Exc Bool := do
  let paramType ← fetchString view.type
  if paramType = [] then
    .error (.config
      (txt "Параметр " ++ prmKeyPath ++ txt " отсутствует в констрейне!"))
  else do
    let kindOk ← checkKind prmKeyPath paramType view prmValue
    if kindOk then checkRange paramType view prmValue sizeArrMap else .ok false

def validateForOne (c : JSON) (prmKeyPath : Str) (prmValue : JSON) (sizeArrMap : ℕ) :
    Except Exc Bool :=
  let prmKeyPath := chopped prmKeyPath
  if txt "/ForDebug" <+: prmKeyPath then .ok true
  else checkParam prmKeyPath (viewAt c prmKeyPath) prmValue sizeArrMap

def checkOnRequiredKeys (paramFullName : Str) (paramDesc : Members) : Except Exc Unit := do
  let paramType ← fetchString (paramDesc.lookup (txt "Type"))
  let complain (text : String) : Except Exc Unit :=
    .error (.config (txt "Параметр " ++ paramFullName ++ txt text))
  if paramType = [] then complain " не имеет поля Type в констрейнт!"
  else if (paramDesc.lookup (txt "Default")).isNone ∧ paramType ≠ txt "object" then
    complain " не имеет поля Default в констрейнт!"
  else if paramType = txt "string" ∨ paramType = txt "object" ∨
      paramType = txt "bool" ∨ paramType = txt "array.bool" then .ok ()
  else
    match paramDesc.lookup (txt "Min"), paramDesc.lookup (txt "Max") with
    | none, _ => complain " не имеет поля Min в констрейнт!"
    | some _, none => complain " не имеет поля Max в констрейнт!"
    | some min, some max =>
        let dflt := valueJson paramDesc (txt "Default")
        if (gt dflt max || lt dflt min) &&
            !(dflt.isNull && (paramDesc.lookup (txt "Enum")).isNone) then
          complain " имеет Default > Max или < Min в констрейнт!"
        else .ok ()

/-- The complaint about a description that is an array. -/
def arrayDescription (parentKey key : Str) : Exc :=
  .config (txt "Описание параметра /" ++ parentKey ++ key ++
    (txt "в констрейне не может быть массивом!"))

mutual

/-- The flat defaults collected from the members of the constraint; the loop over an object
is `generateMembers`. -/
def generateDefaultConfig (parentKey key : Str) : JSON → Members → Except Exc Members
  | object desc, flat => do
      checkOnRequiredKeys ('/' :: (parentKey ++ key)) desc
      let paramType ← fetchString (desc.lookup (txt "Type"))
      let flat :=
        if paramType ≠ txt "object" then
          put ('/' :: (parentKey ++ key)) (valueJson desc (txt "Default")) flat
        else flat
      generateMembers (parentKey ++ key ++ ['/']) desc flat
  | array _, flat =>
      if key ≠ txt "Enum" then .error (arrayDescription parentKey key) else .ok flat
  | _, flat => .ok flat

def generateMembers (parentKey : Str) : Members → Members → Except Exc Members
  | [], flat => .ok flat
  | (k, v) :: rest, flat => do
      let flat ← generateDefaultConfig parentKey k v flat
      generateMembers parentKey rest flat

end

/-- The members a value is iterated over as an object. -/
def membersOf : JSON → Members
  | object kvs => kvs
  | _ => []

/-- `getDefaultConfig`: without any default the flat document stays null. -/
def getDefaultConfig (c : JSON) : Except Exc JSON := do
  let flat ← generateMembers [] (membersOf c) []
  unflatten (if flat = [] then null else object flat)

mutual

def checkLostParam (confNew : JSON) (parentKey key : Str) : JSON → Except Exc Unit
  | object desc => do
      checkOnRequiredKeys ('/' :: (parentKey ++ key)) desc
      let paramType ← fetchString (desc.lookup (txt "Type"))
      if paramType = txt "map.object" ∨ paramType = txt "array.object" then .ok ()
      else if !isContainParamInJson confNew ('/' :: (parentKey ++ key)) then
        .error (.config
          (txt "параметра /" ++ parentKey ++ key ++ txt " отсутствует в конфиге!"))
      else checkLostMembers confNew (parentKey ++ key ++ ['/']) desc
  | array _ =>
      if key ≠ txt "Enum" then .error (arrayDescription parentKey key) else .ok ()
  | _ => .ok ()

def checkLostMembers (confNew : JSON) (parentKey : Str) : Members → Except Exc Unit
  | [] => .ok ()
  | (k, v) :: rest => do
      checkLostParam confNew parentKey k v
      checkLostMembers confNew parentKey rest

end

def checkLostParamInConfig (confNew c : JSON) : Except Exc Unit :=
  checkLostMembers confNew [] (membersOf c)

/-- The texts `anyParamProc` works with: the key after its index was appended or after it was
replaced by `OBJECT_KEY`, the type of the parent, and the two edited paths. -/
structure Place where
  key : Str
  typeParent : Str
  parentPath : Str
  constrPath : Str
  deriving DecidableEq

def editKey (key : Str) : Str :=
  if objectKey <:+: key then removeAll objectKey (removeAll (objectKey ++ ['/']) key) else key

def editParentKey (parentKey : Str) : Str :=
  if objectKey <:+: parentKey then removeAll (objectKey ++ ['/']) parentKey else parentKey

def editParentPath (parentPath : Str) : Str :=
  if objectKey <:+: parentPath then removeAll ('/' :: objectKey ++ ['/']) parentPath
  else parentPath

def place (c : JSON) (parentKey realKey : Str) (idx : Option ℕ) : Except Exc Place := do
  let key := match idx with
    | some i => realKey ++ '/' :: toString i
    | none => realKey
  let parentPath := if parentKey = [] then key ++ ['/'] else parentKey
  let typeParent ← fetchString ((flatten c).lookup ('/' :: (parentPath ++ txt "Type")))
  let key := if typeParent = txt "map.object" ∧ parentKey ≠ [] then objectKey else key
  .ok { key := key
        typeParent := typeParent
        parentPath := editParentPath parentPath
        constrPath := '/' :: (editParentKey parentKey ++ editKey key) }

def verdict (c confNew : JSON) (pl : Place) (value : JSON) : Except Exc Bool := do
  let prmParent ← getParamValueFromJson confNew ('/' :: pl.parentPath)
  validateForOne c pl.constrPath value prmParent.size

/-- `setParamValueToJson` inside a call that throws on. -/
def storeParam (js : JSON) (keyPath : Str) (value : JSON) : Except Exc JSON :=
  match setParamValueToJson js keyPath value with
  | (js', .ok _) => .ok js'
  | (_, .error e) => .error e

/-- The replacement of a value that did not pass. -/
def replaceParam (c confNew confOld : JSON) (parentKey realKey : Str) (pl : Place) :
    Except Exc JSON := do
  let dflt ← getDefaultConfig c
  let fullKey := '/' :: (parentKey ++ realKey)
  let inMap := decide (objectKey <:+: parentKey)
  if eqv confOld dflt && inMap then
    storeParam confNew ('/' :: pl.parentPath)
      (valueJson (flatten c) ('/' :: (pl.parentPath ++ txt "/Default")))
  else if !isContainParamInJson confOld fullKey then
    if pl.typeParent = txt "map.object" ∨ pl.typeParent = txt "array.object" ∨ inMap then do
      let oldParentValue ← getParamValueFromJson confOld ('/' :: pl.parentPath)
      storeParam confNew ('/' :: pl.parentPath) oldParentValue
    else .error (.config (txt "В confOld не найден объект " ++ fullKey ++ ['!']))
  else do
    let oldPrmValue ← getParamValueFromJson confOld fullKey
    storeParam confNew fullKey oldPrmValue

/-- Whether to descend into the value, the key to descend with, and the configuration. -/
def anyParamProc (c confNew confOld : JSON) (parentKey realKey : Str) (idx : Option ℕ)
    (value : JSON) : Except Exc (Bool × Str × JSON) := do
  let pl ← place c parentKey realKey idx
  let retValid ← verdict c confNew pl value
  if !retValid then do
    let confNew ← replaceParam c confNew confOld parentKey realKey pl
    .ok (false, pl.key, confNew)
  else if value.empty then .ok (false, pl.key, confNew)
  else .ok (true, if pl.key ≠ [] then pl.key ++ ['/'] else pl.key, confNew)

mutual

/-- One member of the walked object in `recurseJogConfig`. -/
def jogValue (c confOld : JSON) (parentKey key : Str) : JSON → JSON → Except Exc JSON
  | object kvs, confNew => do
      let (descend, key', confNew) ← anyParamProc c confNew confOld parentKey key none (object kvs)
      if descend then jogMembers c confOld (parentKey ++ key') kvs confNew else .ok confNew
  | array xs, confNew => jogElems c confOld parentKey key 0 xs confNew
  | v, confNew => do
      let (_, _, confNew) ← anyParamProc c confNew confOld parentKey key none v
      .ok confNew
termination_by structural v _ => v

def jogMembers (c confOld : JSON) (parentKey : Str) : Members → JSON → Except Exc JSON
  | [], confNew => .ok confNew
  | (k, v) :: rest, confNew => do
      let confNew ← jogValue c confOld parentKey k v confNew
      jogMembers c confOld parentKey rest confNew
termination_by structural kvs _ => kvs

def jogElem (c confOld : JSON) (parentKey key : Str) (i : ℕ) : JSON → JSON → Except Exc JSON
  | object kvs, confNew => do
      let (descend, _, confNew) ←
        anyParamProc c confNew confOld parentKey key (some i) (object kvs)
      if descend then
        jogMembers c confOld (parentKey ++ key ++ '/' :: (toString i ++ ['/'])) kvs confNew
      else .ok confNew
  | v, confNew => do
      let (_, _, confNew) ← anyParamProc c confNew confOld parentKey key (some i) v
      .ok confNew
termination_by structural v _ => v

def jogElems (c confOld : JSON) (parentKey key : Str) (i : ℕ) :
    List JSON → JSON → Except Exc JSON
  | [], confNew => .ok confNew
  | x :: xs, confNew => do
      let confNew ← jogElem c confOld parentKey key i x confNew
      jogElems c confOld parentKey key (i + 1) xs confNew
termination_by structural xs _ => xs

end

def recurseJogConfig (c confNew confOld : JSON) (parentKey : Str) (jsonObj : JSON) :
    Except Exc JSON :=
  jogMembers c confOld parentKey (membersOf jsonObj) confNew

def validateAndReplaceConfig (c newConfig oldConfig : JSON) : Except Exc JSON := do
  checkLostParamInConfig newConfig c
  recurseJogConfig c newConfig oldConfig [] newConfig

end ToolkitCpp.Config

import CppSdk.AbiDefinition
import CppSdk.ContractABITypeCodec

/-!
The codec of methods and events: a tree of the inputs is built, filled from JSON and
serialized, or deserialized and written as JSON.
-/
namespace CppSdk.AbiCodec
open CppSdk.ByteString CppSdk.Runtime CppSdk.Texts CppSdk.Tables CppSdk.JsonValues CppSdk.ContractABIType
open CppSdk.ContractABITypeCodec CppSdk.ContractABIDefinitionFactory CppSdk.MethodDefinition CppSdk.AbiDefinition

/-- `ContractABICodec`: the libraries it calls, the hash, whether the build leaves out
    `assert`, what an uninitialized `bool` holds, and the orders of the loops over tables. -/
structure ContractABICodec where
  J : Jsoncpp
  M : Multiprecision
  U : Utilities
  base64DecodeBytes : Bytes → Call Bytes
  H : Hash
  ndebug : Bool
  indeterminate : Bool
  methodOrder : Iteration Bytes (List ContractABIMethodDefinition)
  memberOrder : Iteration Bytes Nat

/-! ### Names and JSON of trees -/

/-- `name()`. -/
def nameOf : AbstractType → Bytes
  | .boolean name _ => name
  | .uint name _ _ => name
  | .int name _ _ => name
  | .fixedBytes name _ _ => name
  | .addr name _ => name
  | .string name _ => name
  | .dynamicBytes name _ => name
  | .dynamicList name _ => name
  | .fixedList name _ _ => name
  | .struct name _ => name

/-- `m_kvValue` as `addMember` fills it: the position of the last member of each name. -/
def kvValue : List AbstractType → Nat → Table Bytes Nat → Table Bytes Nat
  | [], _, m => m
  | tv :: rest, index, m => kvValue rest (index + 1) (if nameOf tv = [] then m else m.insert (nameOf tv) index)

section
variable (U : Utilities)

mutual
/-- `toJson`. -/
def toJson : AbstractType → Json
  | .boolean _ value => .boolean value
  | .uint _ _ value => .string (stdToString value.toNat)
  | .int _ _ value => .string (intText value)
  | .fixedBytes _ _ value => .string (lit "hex://" ++ U.toHexString value)
  | .addr _ value => .string value
  | .string _ value => .string value
  | .dynamicBytes _ value => .string (lit "hex://" ++ U.toHexString value)
  | .dynamicList _ value => .array (membersJson value)
  | .fixedList _ _ value => .array (membersJson value)
  | .struct _ value => .array (membersJson value)
/-- The loop over the members. -/
def membersJson : List AbstractType → List Json
  | [] => []
  | tv :: rest => toJson tv :: membersJson rest
end

end

/-- `getJsonValueTypeAsString`. -/
def getJsonValueTypeAsString : ValueType → Bytes
  | .nullValue => lit "null"
  | .intValue => lit "int"
  | .uintValue => lit "uint"
  | .realValue => lit "real"
  | .stringValue => lit "string"
  | .booleanValue => lit "boolean"
  | .arrayValue => lit "array"
  | .objectValue => lit "object"

/-- `isUnsigned`. -/
def isUnsigned (s : Bytes) : Bool := !(trim s).isEmpty && (trim s).all isDigit
/-- `isSigned`. -/
def isSigned (s : Bytes) : Bool :=
  let str := if startsWith (trim s) (lit "-") then (trim s).drop 1 else trim s
  !str.isEmpty && str.all isDigit

/-! ### Filling trees from JSON -/

section
variable (C : ContractABICodec)

/-- `JsonTypeMatchCheck` and `JsonTypeMatchCheckV2`. -/
def jsonTypeMatchCheck (name : Bytes) (json : Json) (types : List ValueType) : Call Unit :=
  if types.any (fun type => C.J.isConvertibleTo json type) then .ok ()
  else throws (lit "type mismatch, the type of argument required is " ++ name ++ lit " , the json parameter type is " ++
    getJsonValueTypeAsString json.type ++ lit " ,the json object value is " ++ C.J.toStyledString json)

/-- `catch (...)` that throws another text. -/
def rethrow {α : Type} (what : Bytes) : Call α → Call α
  | .error (.throws _) => throws what
  | call => call

/-- `decodeBytesFromString`. -/
def decodeBytesFromString (str : Bytes) : Call Bytes :=
  if startsWith str (lit "hex://") then
    rethrow (lit "invalid hexadecimal string, value is " ++ str) (C.U.fromHexString (str.drop (lit "hex://").length))
  else if startsWith str (lit "base64://") then
    rethrow (lit "invalid base64 string, value is " ++ str) (C.base64DecodeBytes (str.drop (lit "base64://").length))
  else throws (lit "bytes data should be input as either hexadecimal string(hex://xxxxx) or base64 string(base64://xxxxxx)")

/-- The number for a `uint`. -/
def unsignedArgument (json : Json) : Call U256 :=
  if C.J.isConvertibleTo json .uintValue then do .ok (BitVec.ofNat 256 (← C.J.asUInt json).toNat)
  else do
    let str ← C.J.asString json
    if isUnsigned str then C.M.u256 str
    else throws (lit "use string as uint type argument, but string format is invalid, value is " ++ str)
/-- The number for an `int`. -/
def signedArgument (json : Json) : Call Int :=
  if C.J.isConvertibleTo json .intValue then do .ok (← C.J.asInt json).toInt
  else do
    let str ← C.J.asString json
    if isSigned str then C.M.s256 str
    else throws (lit "use string as int type argument, but string format is invalid, value is " ++ str)

/-- How a member is filled. -/
abbrev Initializer := Json → Call AbstractType

/-- The loop over the elements of an array, each with the member at its position. -/
def initEach : List Initializer → List Json → Call (List AbstractType)
  | _, [] => .ok []
  | [], _ :: _ => .error .undefined
  | init :: later, json :: rest => do .ok ((← init json) :: (← initEach later rest))
/-- The loop over `kvValue`, which fills the member at each position. -/
def initKeys (name : Bytes) (jParams : Json) (initializers : List Initializer) :
    List (Bytes × Nat) → List AbstractType → Call (List AbstractType)
  | [], value => .ok value
  | (key,index) :: rest, value =>
    match jParams.member key with
    | none =>
      throws (lit "use JSON array as the tuple's parameters, but parameters does not match for the tuple(" ++ name ++
        lit "), cannot found key: " ++ key ++ lit ",the parameter value is :" ++ C.J.toStyledString jParams)
    | some json => do
      let tv ← initializers.getD index (fun _ => .error .undefined) json
      initKeys name jParams initializers rest (value.set index tv)

mutual
/-- `initAbstractTypeWithJsonParams`: the tree as it is left. -/
def initAbstractType : AbstractType → Initializer
  | .boolean name _ => fun jParams => do
    jsonTypeMatchCheck C name jParams [.booleanValue]
    .ok (.boolean name (← C.J.asBool jParams))
  | .uint name extent _ => fun jParams => do
    jsonTypeMatchCheck C name jParams [.uintValue,.stringValue]
    .ok (.uint name extent (← unsignedArgument C jParams))
  | .int name extent _ => fun jParams => do
    jsonTypeMatchCheck C name jParams [.intValue,.stringValue]
    .ok (.int name extent (← signedArgument C jParams))
  | .fixedBytes name fixedN _ => fun jParams => do
    jsonTypeMatchCheck C name jParams [.stringValue]
    setFixedBytes name fixedN (← decodeBytesFromString C (← C.J.asString jParams))
  | .addr name _ => fun jParams => do
    jsonTypeMatchCheck C name jParams [.stringValue]
    .ok (.addr name (← C.J.asString jParams))
  | .string name _ => fun jParams => do
    jsonTypeMatchCheck C name jParams [.stringValue]
    .ok (.string name (← C.J.asString jParams))
  | .dynamicBytes name _ => fun jParams => do
    jsonTypeMatchCheck C name jParams [.stringValue]
    .ok (.dynamicBytes name (← decodeBytesFromString C (← C.J.asString jParams)))
  | .dynamicList name value => fun jParams => do
    jsonTypeMatchCheck C name jParams [.arrayValue]
    assert C.ndebug "dynamicList.value().size() == 1" (value.length == 1)
    let elements ← jParams.items
    match value with
    | [] => .error .undefined
    | baseTV :: _ => do
      -- a clone of the template is the template itself (`clone_same`)
      let fill : Initializer := fun json => do
        let _ ← clone baseTV
        initAbstractType baseTV json
      .ok (.dynamicList name (← initEach (elements.map (fun _ => fill)) elements))
  | .fixedList name dimension value => fun jParams => do
    jsonTypeMatchCheck C name jParams [.arrayValue]
    if jParams.size ≠ dimension.toNat then
      throws (lit "parameter number does not match for the static array(" ++ name ++ lit ") ,the parameter number is " ++
        stdToString jParams.size ++ lit " ,parameter value is :" ++ C.J.toStyledString jParams)
    else
      let members ← initEach (initializers value) (← jParams.items)
      .ok (.fixedList name dimension (members ++ value.drop members.length))
  | .struct name value => fun jParams => do
    jsonTypeMatchCheck C name jParams [.arrayValue,.objectValue]
    match jParams with
    | .array elements =>
      if value.length ≠ elements.length then
        throws (lit "use JSON array as the tuple's parameters, but parameter number does not match for thetuple(" ++ name ++
          lit ") ,the parameter number is " ++ stdToString elements.length ++ lit " ,parameter value is :" ++
          C.J.toStyledString jParams)
      else do .ok (.struct name (← initEach (initializers value) elements))
    | .object _ => do
      .ok (.struct name (← initKeys C name jParams (initializers value) (C.memberOrder.order (kvValue value 0 ∅)) value))
    | _ => .ok (.struct name value)
/-- The members, each with how it is filled. -/
def initializers : List AbstractType → List Initializer
  | [] => []
  | tv :: rest => initAbstractType tv :: initializers rest
end

/-- `stringToJsonValue`. -/
def stringToJsonValue (params : Bytes) : Call Json :=
  match C.J.parse params with
  | some jParams => .ok jParams
  | none => throws (lit "invalid JSON string, parsing abi JSON exception")

/-! ### Encoding and decoding -/

/-- `encodeMethod` of a definition and a JSON value. -/
def encodeMethodJson (method : ContractABIMethodDefinition) (jParams : Json) : Call Bytes := do
  let input ← buildInput C.indeterminate method.inputs
  let input ← initAbstractType C input jParams
  serialize C.U input (method.getMethodID C.H)
/-- `encodeMethod` of a definition. -/
def encodeDefinition (method : ContractABIMethodDefinition) (jsonParams : Bytes) : Call Bytes := do
  encodeMethodJson C method (← stringToJsonValue C jsonParams)
/-- The only method of a name, `getMethod(_methodName, false)[0]`. -/
def onlyMethod (abi methodName : Bytes) : Call ContractABIMethodDefinition := do
  let contractABI ← buildABI C.J abi
  match ← getMethod contractABI methodName false with
  | method :: _ => .ok method
  | [] => .error .undefined
/-- `encodeMethod`. -/
def encodeMethod (abi methodName jsonParams : Bytes) : Call Bytes := do
  encodeDefinition C (← onlyMethod C abi methodName) jsonParams
/-- `encodeMethodBySignature`. -/
def encodeMethodBySignature (methodSig jsonParams : Bytes) : Call Bytes := do
  encodeDefinition C (← buildMethodBySignature methodSig) jsonParams
/-- `encodeConstructor`. -/
def encodeConstructor (abi bin jsonParams : Bytes) : Call Bytes := do
  let code ← C.U.fromHexString bin
  .ok (code ++ (← encodeMethod C abi (lit "constructor") jsonParams))

/-- `toJsonString`. -/
def toJsonString (tv : AbstractType) : Bytes := C.J.write (toJson C.U tv)

/-- `decodeMethodInput` of a definition. -/
def decodeMethodInput (method : ContractABIMethodDefinition) (data : Bytes) : Call Bytes := do
  let input ← buildInput C.indeterminate method.inputs
  .ok (toJsonString C (← deserialize C.U C.ndebug data input 4))
/-- `decodeEvent` of a definition. -/
def decodeDefinition (event : ContractABIMethodDefinition) (data : Bytes) : Call Bytes := do
  let event ← buildEvent C.indeterminate event.inputs
  .ok (toJsonString C (← deserialize C.U C.ndebug data event 0))
/-- `decodeEventByTopic`. -/
def decodeEventByTopic (abi eventTopic data : Bytes) : Call Bytes := do
  let contractABI ← buildABI C.J abi
  decodeDefinition C (← getEventByTopic C.methodOrder C.H contractABI eventTopic) data

end

/-! ### Filling a struct -/

section
variable {C : ContractABICodec} {name : Bytes} {value : List AbstractType} {tree : AbstractType}

/-- A struct filled from an array of as many parameters. -/
theorem initAbstractType_array {elements : List Json} :
    initAbstractType C (.struct name value) (.array elements) = .ok tree ↔
      jsonTypeMatchCheck C name (.array elements) [.arrayValue,.objectValue] = .ok () ∧ value.length = elements.length ∧
        ∃ members, initEach (initializers C value) elements = .ok members ∧ tree = .struct name members := by
  rw [initAbstractType]
  constructor
  · intro filled
    obtain ⟨⟨⟩,checked,filled⟩ := bind_ok.mp filled
    by_cases number : value.length = elements.length
    · obtain ⟨members,each,same⟩ := bind_ok.mp ((if_neg (not_not.mpr number)).symm.trans filled)
      exact ⟨checked,number,members,each,(Except.ok.inj same).symm⟩
    · cases (if_pos number).symm.trans filled
  · rintro ⟨checked,number,members,each,rfl⟩
    exact bind_ok.mpr ⟨(),checked,(if_neg (not_not.mpr number)).trans (bind_ok.mpr ⟨members,each,rfl⟩)⟩
/-- A struct filled from an object. -/
theorem initAbstractType_object {entries : List (Bytes × Json)} :
    initAbstractType C (.struct name value) (.object entries) = .ok tree ↔
      jsonTypeMatchCheck C name (.object entries) [.arrayValue,.objectValue] = .ok () ∧
        ∃ members, initKeys C name (.object entries) (initializers C value) (C.memberOrder.order (kvValue value 0 ∅)) value =
          .ok members ∧ tree = .struct name members := by
  rw [initAbstractType]
  constructor
  · intro filled
    obtain ⟨⟨⟩,checked,filled⟩ := bind_ok.mp filled
    obtain ⟨members,keys,same⟩ := bind_ok.mp filled
    exact ⟨checked,members,keys,(Except.ok.inj same).symm⟩
  · rintro ⟨checked,members,keys,rfl⟩
    exact bind_ok.mpr ⟨(),checked,bind_ok.mpr ⟨members,keys,rfl⟩⟩

/-- A struct stays a struct. -/
theorem initAbstractType_struct {jParams : Json} (filled : initAbstractType C (.struct name value) jParams = .ok tree) :
    ∃ value', tree = .struct name value' := by
  cases jParams with
  | array elements =>
    obtain ⟨_,_,members,_,same⟩ := initAbstractType_array.mp filled
    exact ⟨members,same⟩
  | object entries =>
    obtain ⟨_,members,_,same⟩ := initAbstractType_object.mp filled
    exact ⟨members,same⟩
  | _ =>
    rw [initAbstractType] at filled
    obtain ⟨_,_,same⟩ := bind_ok.mp filled
    exact ⟨value,(Except.ok.inj same).symm⟩

end

end CppSdk.AbiCodec

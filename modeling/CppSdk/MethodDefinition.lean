import CppSdk.ContractABIDefinitionFactory
import CppSdk.JsonValues

/-!
Methods and events of an ABI: how they are read from JSON, and the signature whose hash
names them. The signature is printed by textual replacement of the word `tuple`.
-/
namespace CppSdk.MethodDefinition
open CppSdk.ByteString CppSdk.Runtime CppSdk.Texts CppSdk.JsonValues CppSdk.ContractABIDefinitionFactory

/-! ### Signatures -/

/-- `pop_back` of a comma at the end. -/
def popComma (result : Bytes) : Bytes := if result.getLast? = some 44 then result.dropLast else result

mutual
/-- `getTypeAsString`, with `getTupleRawTypeAsString` between the parentheses. -/
def getTypeAsString : NamedType → Bytes
  | .mk _ type _ components =>
    if startsWith type (lit "tuple") then
      replaceAll type (lit "tuple") (lit "(" ++ popComma (typesAsString components) ++ lit ")")
    else type
/-- The loops of `getTupleRawTypeAsString` and of `getMethodSignatureAsString`. -/
def typesAsString : List NamedType → Bytes
  | [] => []
  | namedType :: rest => getTypeAsString namedType ++ (lit "," ++ typesAsString rest)
end

/-- `ContractABIMethodDefinition`. -/
structure ContractABIMethodDefinition where
  name : Bytes
  type : Bytes
  constant : Bool := false
  payable : Bool := false
  anonymous : Bool := false
  stateMutability : Bytes := []
  inputs : List NamedType
  outputs : List NamedType := []

/-- `getMethodSignatureAsString`. -/
def ContractABIMethodDefinition.getMethodSignatureAsString (method : ContractABIMethodDefinition) : Bytes :=
  popComma (method.name ++ lit "(" ++ typesAsString method.inputs) ++ lit ")"

/-- A hash function of 32 bytes. -/
structure Hash where
  hash : Bytes → Bytes
  size : ∀ text, (hash text).length = 32

section
variable (H : Hash) (method : ContractABIMethodDefinition)

/-- The hash of the signature. -/
def ContractABIMethodDefinition.signatureHash : Bytes := H.hash method.getMethodSignatureAsString
/-- `getMethodID`. -/
def ContractABIMethodDefinition.getMethodID : Bytes := (method.signatureHash H).take 4
/-- `getMethodIDAsString`. -/
def ContractABIMethodDefinition.getMethodIDAsString : Bytes := (toHex (method.signatureHash H)).take 8
/-- `getEventTopicAsString`. -/
def ContractABIMethodDefinition.getEventTopicAsString : Bytes := (toHex (method.signatureHash H)).take 8

end

/-! ### Reading JSON -/

section
variable (J : Jsoncpp)

mutual
/-- `buildNamedType`. -/
def buildNamedType (jType : Json) : Call NamedType := do
  let name ← jType.field "name" J.asString (.ok [])
  let type ← jType.field "type" J.asString (throws (lit "invalid type in abi, missing \"type\" field"))
  let indexed ← jType.field "indexed" J.asBool (.ok false)
  let components ← match jType with
    | .object members => buildComponents members
    | _ => .ok []
  .ok (.mk name type indexed components)
/-- The components among the members of an object. -/
def buildComponents : List (Bytes × Json) → Call (List NamedType)
  | [] => .ok []
  | (key,value) :: rest => if key = lit "components" then buildNamedTypes value else buildComponents rest
/-- The loop over an array of types. -/
def buildNamedTypes : Json → Call (List NamedType)
  | .array elements => buildEach elements
  | .object (_ :: _) => throws (lit "in Json::Value::operator[](ArrayIndex)const: requires arrayValue")
  | _ => .ok []
/-- The types of the elements. -/
def buildEach : List Json → Call (List NamedType)
  | [] => .ok []
  | jType :: rest => do .ok ((← buildNamedType jType) :: (← buildEach rest))
end

/-- `buildMethod` of a JSON value. -/
def buildMethod (jMethod : Json) : Call ContractABIMethodDefinition := do
  let name ← jMethod.field "name" J.asString (.ok [])
  let type ← jMethod.field "type" J.asString (throws (lit "missing \"type\" field on the method"))
  let constant ← jMethod.field "constant" J.asBool (.ok false)
  let payable ← jMethod.field "payable" J.asBool (.ok false)
  let anonymous ← jMethod.field "anonymous" J.asBool (.ok false)
  let stateMutability ← jMethod.field "stateMutability" J.asString (.ok [])
  let inputs ← jMethod.field "inputs" (buildNamedTypes J) (.ok [])
  let outputs ← jMethod.field "outputs" (buildNamedTypes J) (.ok [])
  .ok { name,type,constant,payable,anonymous,stateMutability,inputs,outputs }

end

/-! ### Reading a signature -/

/-- The types between the parentheses of a signature: the pieces between commas, trimmed,
    without those that are empty. -/
def signatureTypes (strType : Bytes) : List Bytes := ((strType.splitOn 44).map trim).filter (fun type => type ≠ [])

/-- `buildMethod` of a signature. What stands after the first closing parenthesis is not
    looked at. -/
def buildMethodBySignature (methodSig : Bytes) : Call ContractABIMethodDefinition :=
  let error : Call ContractABIMethodDefinition := throws (lit "invalid method signature: " ++ methodSig)
  match methodSig.idxOf? 40, methodSig.idxOf? 41 with
  | some p0, some p1 =>
    let name := trim (methodSig.take p0)
    let strType := trim ((methodSig.drop (p0 + 1)).take (p1 - p0 - 1))
    if p1 ≤ p0 ∨ name = [] then error
    else if contains (lit "tuple") strType then
      throws (lit "unsupported build method by signature contains tuple params")
    else .ok {
      name
      type := lit "function"
      inputs := (signatureTypes strType).map (fun type => .mk [] type false []) }
  | _, _ => error

theorem buildNamedTypes_eq (J : Jsoncpp) (json : Json) :
    buildNamedTypes J json = (json.items >>= fun elements => buildEach J elements) := by
  cases json with
  | object members => cases members <;> rfl
  | _ => rfl

end CppSdk.MethodDefinition

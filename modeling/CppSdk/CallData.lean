import CppSdk.EventTopics
import CppSdk.Conformance

/-!
Call data. The data of a function call is the selector of the function and the encoding
of the arguments; a constructor is called by its code and the encoding of the arguments.
-/
namespace CppSdk.CallData
open CppSdk.ByteString CppSdk.Runtime CppSdk.JsonValues CppSdk.ContractABIType CppSdk.ContractABITypeCodec
open CppSdk.ContractABIDefinitionFactory CppSdk.MethodDefinition CppSdk.AbiCodec CppSdk.EventTopics
open CppSdk.SolidityAbi (enc Ty Value)
open CppSdk.Conformance (HeadsFit appends_of_denotes)

/-- The calls that are encoded: of the constructor with the code of the contract, and of a
    function. -/
inductive Callee where
  | constructor (bin : Bytes)
  | function (methodName : Bytes)

/-- The name under which the callee is looked up. -/
def Callee.methodName : Callee → Bytes
  | .constructor _ => lit "constructor"
  | .function methodName => methodName
/-- The callee is a function. -/
def Callee.IsFunction : Callee → Prop
  | .constructor _ => False
  | .function _ => True

section
variable (C : ContractABICodec)

/-- `encodeConstructor`, or `encodeMethod`. -/
def encodeCall (abi : Bytes) : Callee → Bytes → Call Bytes
  | .constructor bin, jsonParams => encodeConstructor C abi bin jsonParams
  | .function methodName, jsonParams => encodeMethod C abi methodName jsonParams

/-- What call data starts with: the code for a constructor, the selector for a function. -/
def leading (method : ContractABIMethodDefinition) : Callee → Call Bytes
  | .constructor bin => C.U.fromHexString bin
  | .function _ => .ok (method.getMethodID C.H)

/-- The tree is that of the inputs, filled with the parameters. -/
def Arguments (method : ContractABIMethodDefinition) (jsonParams : Bytes) (tree : AbstractType) : Prop :=
  ∃ jParams input, stringToJsonValue C jsonParams = .ok jParams ∧ buildInput C.indeterminate method.inputs = .ok input ∧
    initAbstractType C input jParams = .ok tree
/-- The bytes are what the codec makes of the tree: the encoding of the value that the tree
    stands for, as far as the heads fit. -/
def EncodingOf (tree : AbstractType) (encoding : Bytes) : Prop :=
  serialize C.U tree [] = .ok encoding ∧
    ∀ (limit : Nat) (t : Ty) (x : Value), Denotes limit tree t x → HeadsFit t x → encoding = enc t x

/-- The bytes are the call data of the callee: what they start with and the encoding of the
    arguments, with nothing between them. -/
def IsCallData (abi : Bytes) (callee : Callee) (jsonParams data : Bytes) : Prop :=
  ∃ method tree front encoding, onlyMethod C abi callee.methodName = .ok method ∧ Arguments C method jsonParams tree ∧
    leading C method callee = .ok front ∧ EncodingOf C tree encoding ∧ data = front ++ encoding

end

theorem methodID_four (H : Hash) (method : ContractABIMethodDefinition) : (method.getMethodID H).length = 4 := by
  rw [ContractABIMethodDefinition.getMethodID,ContractABIMethodDefinition.signatureHash,List.length_take,H.size]
  rfl

/-- A struct is appended to what the buffer holds. -/
theorem serialize_struct (U : Utilities) (name : Bytes) (value : List AbstractType) (buffer : Bytes) :
    serialize U (.struct name value) buffer =
      (serialize U (.struct name value) []).map (fun encoding => buffer ++ encoding) := by
  rw [serialize,serialize]
  cases initialOffset 0 value with
  | error failure => rfl
  | ok dynamicOffset =>
    rw [ok_bind,ok_bind]
    cases serializeMembers U value dynamicOffset [] [] with
    | error failure => rfl
    | ok buffers =>
      show Except.ok (buffer ++ buffers.1 ++ buffers.2) = Except.ok (buffer ++ ([] ++ buffers.1 ++ buffers.2))
      rw [List.nil_append,List.append_assoc]
/-- What the codec appends to an empty buffer is the encoding of what the tree stands for. -/
theorem encodingOf_serialize {C : ContractABICodec} (documented : C.U.Documented) {tree : AbstractType} {encoding : Bytes}
    (encoded : serialize C.U tree [] = .ok encoding) : EncodingOf C tree encoding := by
  refine ⟨encoded,fun limit t x denotes fits => ?_⟩
  obtain ⟨out,appends⟩ := appends_of_denotes documented denotes
  have same : encoding = out := by
    have emitted := appends.emits.2 []
    rw [encoded] at emitted
    simpa using emitted
  rw [same]
  exact appends.sound fits

/-- A method is encoded as its selector and the encoding of the arguments. -/
theorem encodeDefinition_ok {C : ContractABICodec} (documented : C.U.Documented) {method : ContractABIMethodDefinition}
    {jsonParams data : Bytes} (encoded : encodeDefinition C method jsonParams = .ok data) :
    ∃ tree encoding, Arguments C method jsonParams tree ∧ EncodingOf C tree encoding ∧
      data = method.getMethodID C.H ++ encoding := by
  obtain ⟨jParams,parsed,encoded⟩ := bind_ok.mp encoded
  obtain ⟨input,built,encoded⟩ := bind_ok.mp encoded
  obtain ⟨tree,filled,encoded⟩ := bind_ok.mp encoded
  obtain ⟨members,_,same⟩ := bind_ok.mp built
  cases same
  obtain ⟨value,rfl⟩ := initAbstractType_struct filled
  rw [serialize_struct] at encoded
  cases serialized : serialize C.U (.struct [] value) [] with
  | error failure =>
    rw [serialized] at encoded
    cases encoded
  | ok encoding =>
    rw [serialized] at encoded
    refine ⟨_,encoding,⟨jParams,_,parsed,built,filled⟩,encodingOf_serialize documented serialized,?_⟩
    exact (Except.ok.inj encoded).symm

/-- The arguments of a method are one tree. -/
theorem arguments_unique {C : ContractABICodec} {method : ContractABIMethodDefinition} {jsonParams : Bytes}
    {tree tree' : AbstractType} (arguments : Arguments C method jsonParams tree)
    (arguments' : Arguments C method jsonParams tree') : tree = tree' := by
  obtain ⟨jParams,input,parsed,built,filled⟩ := arguments
  obtain ⟨jParams',input',parsed',built',filled'⟩ := arguments'
  cases parsed.symm.trans parsed'
  cases built.symm.trans built'
  exact Except.ok.inj (filled.symm.trans filled')

/-- A constructor is called with a selector between the code and the arguments. -/
theorem constructor_selector {C : ContractABICodec} (documented : C.U.Documented) {abi bin jsonParams data : Bytes}
    (encoded : encodeConstructor C abi bin jsonParams = .ok data) : ¬ IsCallData C abi (.constructor bin) jsonParams data := by
  rintro ⟨method,tree,code,encoding,only,arguments,decoded,encodes,same⟩
  obtain ⟨code',decoded',encoded⟩ := bind_ok.mp encoded
  obtain ⟨called,encoded,whole⟩ := bind_ok.mp encoded
  obtain ⟨method',only',encoded⟩ := bind_ok.mp encoded
  obtain ⟨tree',encoding',arguments',encodes',data'⟩ := encodeDefinition_ok documented encoded
  cases only.symm.trans only'
  cases arguments_unique arguments arguments'
  cases decoded.symm.trans decoded'
  cases encodes.1.symm.trans encodes'.1
  cases whole
  have sizes := congrArg List.length (List.append_cancel_left same)
  rw [data',List.length_append,methodID_four] at sizes
  omega

/-- The data that a call is encoded to is its call data for every function, and for no
    constructor. -/
theorem encodeCall_iff {C : ContractABICodec} (documented : C.U.Documented) {abi jsonParams data : Bytes} {callee : Callee}
    (encoded : encodeCall C abi callee jsonParams = .ok data) :
    IsCallData C abi callee jsonParams data ↔ callee.IsFunction := by
  cases callee with
  | function methodName =>
    obtain ⟨method,only,encoded⟩ := bind_ok.mp encoded
    obtain ⟨tree,encoding,arguments,encodes,same⟩ := encodeDefinition_ok documented encoded
    exact iff_of_true ⟨method,tree,method.getMethodID C.H,encoding,only,arguments,rfl,encodes,same⟩ trivial
  | constructor bin => exact iff_of_false (constructor_selector documented encoded) id

/-! ### A constructor without parameters -/

/-- An ABI of a constructor and of a function. -/
def counterABI : Json :=
  .array [.object [(lit "type",.string (lit "constructor")),(lit "inputs",.array [])],
    .object [(lit "name",.string (lit "get")),(lit "type",.string (lit "function")),(lit "inputs",.array [])]]
/-- Its text. -/
def counterText : Bytes := writeValue counterABI
/-- The reference codec, with a parser of that text and of an empty list of parameters. -/
def counterCodec : ContractABICodec :=
  zeroCodec (fun text => if text = counterText then some counterABI else if text = lit "[]" then some (.array []) else none)

private theorem encodeCall_counter :
    (encodeCall counterCodec counterText (.constructor (lit "60")) (lit "[]")).toOption = some [96,0,0,0,0] := by
  decide +kernel
theorem ok_of_toOption {call : Call Bytes} {data : Bytes} (same : call.toOption = some data) : call = .ok data := by
  cases call with
  | error failure => cases same
  | ok other => exact congrArg Except.ok (Option.some.inj same)

/-- The constructor is called with its code and a selector. -/
theorem encodeConstructor_counter :
    encodeCall counterCodec counterText (.constructor (lit "60")) (lit "[]") = .ok [96,0,0,0,0] ∧
      ¬ IsCallData counterCodec counterText (.constructor (lit "60")) (lit "[]") [96,0,0,0,0] :=
  ⟨ok_of_toOption encodeCall_counter,constructor_selector reference_documented (ok_of_toOption encodeCall_counter)⟩

/-! ### A function with parameters -/

/-- An ABI of a function of a number and a string. -/
def setterABI : Json :=
  .array [.object [(lit "name",.string (lit "set")),(lit "type",.string (lit "function")),
    (lit "inputs",.array [.object [(lit "name",.string (lit "n")),(lit "type",.string (lit "uint256"))],
      .object [(lit "name",.string (lit "s")),(lit "type",.string (lit "string"))]])]]
/-- Its text. -/
def setterText : Bytes := writeValue setterABI
/-- The reference codec, with a parser of that text and of the parameters 7 and "A". -/
def setterCodec : ContractABICodec :=
  zeroCodec (fun text => if text = setterText then some setterABI
    else if text = lit "[7,\"A\"]" then some (.array [.int 7,.string (lit "A")]) else none)
/-- The selector, the number, the offset of the string, and its length and content. -/
def setterData : Bytes := [0,0,0,0] ++ word 7 ++ word 64 ++ word 1 ++ padRight (lit "A")

private theorem encodeCall_setter :
    (encodeCall setterCodec setterText (.function (lit "set")) (lit "[7,\"A\"]")).toOption = some setterData := by
  decide +kernel
/-- The function is called with its selector and its arguments. -/
theorem encodeCall_set : IsCallData setterCodec setterText (.function (lit "set")) (lit "[7,\"A\"]") setterData ↔
    (Callee.function (lit "set")).IsFunction :=
  encodeCall_iff reference_documented (ok_of_toOption encodeCall_setter)

end CppSdk.CallData

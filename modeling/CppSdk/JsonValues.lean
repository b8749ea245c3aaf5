import CppSdk.Texts

/-!
JSON values, and what the sources take from Jsoncpp and from Boost.Multiprecision on
them: both libraries are parameters with the documented behaviour that the sources
rely on.
-/
namespace CppSdk.JsonValues
open CppSdk.ByteString CppSdk.Runtime CppSdk.Texts

/-- `Json::ValueType`. -/
inductive ValueType where
  | nullValue
  | intValue
  | uintValue
  | realValue
  | stringValue
  | booleanValue
  | arrayValue
  | objectValue

/-- `Json::Value`; a double is kept as its text. -/
inductive Json where
  | null
  | int (i : Int64)
  | uint (u : UInt64)
  | real (text : Bytes)
  | string (text : Bytes)
  | boolean (b : Bool)
  | array (elements : List Json)
  | object (members : List (Bytes × Json))

/-- `type()`. -/
def Json.type : Json → ValueType
  | .null => .nullValue
  | .int _ => .intValue
  | .uint _ => .uintValue
  | .real _ => .realValue
  | .string _ => .stringValue
  | .boolean _ => .booleanValue
  | .array _ => .arrayValue
  | .object _ => .objectValue
/-- What `operator[]` gives for the indices below `size()`. -/
def Json.elements : Json → List Json
  | .array elements => elements
  | _ => []
/-- `size()`. -/
def Json.size : Json → Nat
  | .array elements => elements.length
  | .object members => members.length
  | _ => 0
/-- The member of a name, where `isMember` holds. -/
def Json.member (key : Bytes) : Json → Option Json
  | .object members => members.lookup key
  | _ => none
/-- The number of an `intValue` or a `uintValue`. -/
def Json.number : Json → Option Int
  | .int i => some i.toInt
  | .uint u => some u.toNat
  | _ => none

/-- `isMember`, an error on all but an object and null. -/
def Json.isMember (key : Bytes) : Json → Call Bool
  | .object members => .ok (members.lookup key).isSome
  | .null => .ok false
  | _ => throws (lit "in Json::Value::find(begin, end): requires objectValue or nullValue")
/-- A member as `read` reads it, or what the code does where `isMember` does not hold. -/
def Json.field {α : Type} (json : Json) (key : String) (read : Json → Call α) (missing : Call α) : Call α := do
  if ← json.isMember (lit key) then read ((json.member (lit key)).getD .null) else missing
/-- What a loop over the indices below `size()` reads: an object has a size and no indices. -/
def Json.items : Json → Call (List Json)
  | .array elements => .ok elements
  | .object (_ :: _) => throws (lit "in Json::Value::operator[](ArrayIndex)const: requires arrayValue")
  | _ => .ok []

theorem field_member {α : Type} {json value : Json} {key : String} (read : Json → Call α) (missing : Call α)
    (found : json.member (lit key) = some value) : json.field key read missing = read value := by
  cases json with
  | object members =>
    have listed : members.lookup (lit key) = some value := found
    simp only [Json.field,Json.isMember,Json.member,listed,Option.isSome_some,ok_bind,if_true,Option.getD_some]
  | _ => cases found
theorem field_absent {α : Type} {members : List (Bytes × Json)} {key : String} (read : Json → Call α) (missing : Call α)
    (absent : members.lookup (lit key) = none) : (Json.object members).field key read missing = missing := by
  simp only [Json.field,Json.isMember,absent,Option.isSome_none,ok_bind,Bool.false_eq_true,if_false]

/-- The functions of Jsoncpp: `parse` is `Reader::parse` when it succeeds, and `write`
    the `FastWriter` without the line feed at the end. -/
structure Jsoncpp where
  parse : Bytes → Option Json
  isConvertibleTo : Json → ValueType → Bool
  asBool : Json → Call Bool
  asInt : Json → Call Int32
  asUInt : Json → Call UInt32
  asString : Json → Call Bytes
  toStyledString : Json → Bytes
  write : Json → Bytes

/-- Their documented behaviour on numbers, texts, booleans, arrays and objects: `int` and
    `unsigned` are exactly what a number in their range converts to. -/
structure Jsoncpp.Documented (J : Jsoncpp) : Prop where
  boolean_reads : ∀ b, J.isConvertibleTo (.boolean b) .booleanValue = true ∧ J.asBool (.boolean b) = .ok b
  string_reads : ∀ text, J.isConvertibleTo (.string text) .stringValue = true ∧ J.asString (.string text) = .ok text
  string_noNumber : ∀ text, J.isConvertibleTo (.string text) .intValue = false ∧
    J.isConvertibleTo (.string text) .uintValue = false
  number_string : ∀ json i, Json.number json = some i →
    J.isConvertibleTo json .stringValue = true ∧ J.asString json = .ok (intText i)
  number_int : ∀ json i, Json.number json = some i →
    (J.isConvertibleTo json .intValue = true ↔ -2147483648 ≤ i ∧ i < 2147483648)
  number_uint : ∀ json i, Json.number json = some i →
    (J.isConvertibleTo json .uintValue = true ↔ 0 ≤ i ∧ i < 4294967296)
  int_reads : ∀ json i, Json.number json = some i → -2147483648 ≤ i → i < 2147483648 →
    J.asInt json = .ok (Int32.ofInt i)
  uint_reads : ∀ json i, Json.number json = some i → 0 ≤ i → i < 4294967296 →
    J.asUInt json = .ok (UInt32.ofNat i.toNat)
  array_array : ∀ elements, J.isConvertibleTo (.array elements) .arrayValue = true
  array_other : ∀ elements kind, kind = .stringValue ∨ kind = .intValue ∨ kind = .uintValue →
    J.isConvertibleTo (.array elements) kind = false
  object_object : ∀ members, J.isConvertibleTo (.object members) .objectValue = true

/-- The numbers of Boost.Multiprecision read from a text. -/
structure Multiprecision where
  u256 : Bytes → Call U256
  s256 : Bytes → Call Int

/-- Their documented behaviour on decimal texts. -/
structure Multiprecision.Documented (M : Multiprecision) : Prop where
  u256_reads : ∀ n : Nat, n < 2 ^ 256 → M.u256 (stdToString n) = .ok (BitVec.ofNat 256 n)
  s256_reads : ∀ i : Int, i.natAbs < 2 ^ 256 → M.s256 (intText i) = .ok i

/-! ### Functions with the documented behaviour -/

mutual
/-- Compact text of a JSON value without characters that have to be escaped. -/
def writeValue : Json → Bytes
  | .null => lit "null"
  | .int i => intText i.toInt
  | .uint u => stdToString u.toNat
  | .real text => text
  | .string text => lit "\"" ++ text ++ lit "\""
  | .boolean b => if b then lit "true" else lit "false"
  | .array elements => lit "[" ++ writeElements elements ++ lit "]"
  | .object members => lit "\x7b" ++ writeMembers members ++ lit "\x7d"
/-- The elements, with commas between them. -/
def writeElements : List Json → Bytes
  | [] => []
  | [json] => writeValue json
  | json :: rest => writeValue json ++ lit "," ++ writeElements rest
/-- The members, with commas between them. -/
def writeMembers : List (Bytes × Json) → Bytes
  | [] => []
  | [(key,json)] => lit "\"" ++ key ++ lit "\":" ++ writeValue json
  | (key,json) :: rest => lit "\"" ++ key ++ lit "\":" ++ writeValue json ++ lit "," ++ writeMembers rest
end

/-- The text of the exceptions of Jsoncpp. -/
private def notConvertible {α : Type} : Call α := throws (lit "Value is not convertible")

/-- Jsoncpp for a parser of the texts at hand: doubles convert to texts only. -/
def Jsoncpp.reference (parse : Bytes → Option Json) : Jsoncpp where
  parse := parse
  isConvertibleTo json kind :=
    match json.number, json, kind with
    | some i, _, .intValue => decide (-2147483648 ≤ i ∧ i < 2147483648)
    | some i, _, .uintValue => decide (0 ≤ i ∧ i < 4294967296)
    | some _, _, .stringValue => true
    | none, .boolean _, .booleanValue => true
    | none, .string _, .stringValue => true
    | none, .real _, .stringValue => true
    | none, .array _, .arrayValue => true
    | none, .object _, .objectValue => true
    | _, _, _ => false
  asBool
    | .boolean b => .ok b
    | _ => notConvertible
  asInt json :=
    match json.number with
    | some i => if -2147483648 ≤ i ∧ i < 2147483648 then .ok (Int32.ofInt i) else notConvertible
    | none => notConvertible
  asUInt json :=
    match json.number with
    | some i => if 0 ≤ i ∧ i < 4294967296 then .ok (UInt32.ofNat i.toNat) else notConvertible
    | none => notConvertible
  asString json :=
    match json.number, json with
    | some i, _ => .ok (intText i)
    | none, .string text => .ok text
    | none, .real text => .ok text
    | none, _ => notConvertible
  toStyledString := writeValue
  write := writeValue

theorem jsoncpp_documented (parse : Bytes → Option Json) : (Jsoncpp.reference parse).Documented where
  boolean_reads _ := ⟨rfl,rfl⟩
  string_reads _ := ⟨rfl,rfl⟩
  string_noNumber _ := ⟨rfl,rfl⟩
  number_string json i same := by simp [Jsoncpp.reference,same]
  number_int json i same := by simp [Jsoncpp.reference,same]
  number_uint json i same := by simp [Jsoncpp.reference,same]
  int_reads json i same low high := by simp [Jsoncpp.reference,same,low,high]
  uint_reads json i same low high := by simp [Jsoncpp.reference,same,low,high]
  array_array _ := rfl
  array_other elements kind other := by rcases other with rfl | rfl | rfl <;> rfl
  object_object _ := rfl

/-- Boost.Multiprecision on texts of digits, with a minus sign or without one. -/
def Multiprecision.reference : Multiprecision where
  u256 text := if text.all isDigit then .ok (BitVec.ofNat 256 (digitsValue text)) else throws (lit "bad number")
  s256 text :=
    match signOf text with
    | (true,digits) => if digits.all isDigit then .ok (-(digitsValue digits : Int)) else throws (lit "bad number")
    | (false,digits) => if digits.all isDigit then .ok (digitsValue digits) else throws (lit "bad number")

theorem multiprecision_documented : Multiprecision.reference.Documented where
  u256_reads n small := by
    have digits : (stdToString n).all isDigit = true := List.all_eq_true.mpr (stdToString_decimal n).digits
    simp only [Multiprecision.reference,digits,if_true,digitsValue_stdToString]
  s256_reads i small := by
    have digits : (stdToString i.natAbs).all isDigit = true := List.all_eq_true.mpr (stdToString_decimal i.natAbs).digits
    by_cases negative : i < 0
    · have signed : signOf (intText i) = (true,stdToString i.natAbs) := by rw [intText,if_pos negative,signOf]
      simp only [Multiprecision.reference,signed,digits,if_true,digitsValue_stdToString]
      congr 1
      omega
    · have signed : signOf (intText i) = (false,stdToString i.natAbs) := by
        rw [intText,if_neg negative,signOf_decimal (stdToString_decimal i.natAbs)]
      simp only [Multiprecision.reference,signed,digits,if_true,digitsValue_stdToString]
      congr 1
      omega

end CppSdk.JsonValues

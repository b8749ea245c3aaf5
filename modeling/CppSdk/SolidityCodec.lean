import CppSdk.Runtime
import Mathlib.Data.PNat.Defs

/-!
The codec class `bcos::codec::abi::ContractABICodec`, whose templates are chosen by the
argument types: `abiIn` encodes a list of arguments, `abiOut` decodes them. Sizes of
encodings are natural numbers; positions in the data are `size_t`.
-/
namespace CppSdk.SolidityCodec
open CppSdk.ByteString CppSdk.Runtime

/-! ### Argument types and their traits -/

/-- The argument types: `array` is `std::array<T,N>`, `bytes` is the vector of bytes,
    `string32` the array of 32 characters. -/
inductive ArgType where
  | u256
  | s256
  | bool
  | address
  | string32
  | string
  | bytes
  | vector (T : ArgType)
  | array (T : ArgType) (N : ℕ+)
  | tuple (Ts : List ArgType)

/-- Induction on argument types with a hypothesis for every member of a tuple. -/
@[elab_as_elim]
theorem ArgType.induct {motive : ArgType → Prop} (u256 : motive .u256) (s256 : motive .s256) (bool : motive .bool)
    (address : motive .address) (string32 : motive .string32) (string : motive .string) (bytes : motive .bytes)
    (vector : ∀ T, motive T → motive (.vector T)) (array : ∀ T N, motive T → motive (.array T N))
    (tuple : ∀ Ts, (∀ T ∈ Ts, motive T) → motive (.tuple Ts)) (T : ArgType) : motive T :=
  @ArgType.rec motive (fun Ts => ∀ T ∈ Ts, motive T) u256 s256 bool address string32 string bytes vector array tuple
    (by simp) (fun _ _ here later => List.forall_mem_cons.mpr ⟨here,later⟩) T

/-- `s256`, as far as it converts to `u256` and back. -/
abbrev S256 := {i : Int // -2 ^ 255 ≤ i ∧ i < 2 ^ 255}
/-- Byte strings of a fixed length. -/
abbrev Exactly (size : Nat) := {content : Bytes // content.length = size}

mutual
/-- The values of an argument type. -/
def ArgType.Val : ArgType → Type
  | .u256 => U256
  | .s256 => S256
  | .bool => Bool
  | .address => Exactly 20
  | .string32 => Exactly 32
  | .string => Bytes
  | .bytes => Bytes
  | .vector T => List T.Val
  | .array T N => {xs : List T.Val // xs.length = N}
  | .tuple Ts => Vals Ts
/-- The values of a list of argument types. -/
def Vals : List ArgType → Type
  | [] => Unit
  | T :: Ts => T.Val × Vals Ts
end

/-- `remove_dimension`. -/
def removeDimension : ArgType → ArgType
  | .array T _ => removeDimension T
  | T => T
/-- `ABIDynamicType`: strings, vectors and tuples, and arrays of them. -/
def abiDynamicType (T : ArgType) : Bool :=
  match removeDimension T with
  | .string => true
  | .bytes => true
  | .vector _ => true
  | .tuple _ => true
  | _ => false
/-- `Length`: the words of a static array, one for the other types. -/
def lengthOf : ArgType → Nat
  | .array T N => if abiDynamicType T then 1 else N * lengthOf T
  | _ => 1
/-- `Offset`. -/
def offsetOf : List ArgType → Nat
  | [] => 0
  | T :: Ts => lengthOf T + offsetOf Ts

/-- `Offset<T...>::value * MAX_BYTE_LENGTH`, in the type that the enumeration promotes
    to: `int` where it can hold the value, then `unsigned`, `long` and `unsigned long`. -/
def headBytes (words : Nat) : Call Nat :=
  if words < 2 ^ 31 then if words * 32 < 2 ^ 31 then .ok (words * 32) else .error .undefined
  else if words < 2 ^ 32 then .ok (words * 32 % 2 ^ 32)
  else if words < 2 ^ 63 then if words * 32 < 2 ^ 63 then .ok (words * 32) else .error .undefined
  else .ok (words * 32 % 2 ^ 64)

/-! ### Encoding -/

/-- `serialise(const u256&)`. -/
def serialiseU256 (u : U256) : Bytes := word u.toNat
/-- `serialise(const s256&)`. -/
def serialiseS256 (i : S256) : Bytes := word (s2u i.1).toNat
/-- `serialise(const bool&)`. -/
def serialiseBool (b : Bool) : Bytes := serialiseU256 (if b then 1 else 0)
/-- `serialise(const Address&)`. -/
def serialiseAddress (account : Exactly 20) : Bytes := List.replicate 12 0 ++ account.1
/-- `serialise(const string32&)`. -/
def serialiseString32 (content : Exactly 32) : Bytes := populate content.1 32
/-- `serialise(const bytes&)` and `serialise(const std::string&)`. -/
def serialiseBytes (content : Bytes) : Bytes :=
  serialiseU256 (BitVec.ofNat 256 content.length) ++ populate content ((content.length + 31) / 32 * 32)

/-- The loop over the elements of an array or of a vector. -/
def serialiseElements {α : Type} (dynamic : Bool) (serialise : α → Bytes) : List α → Nat → Bytes → Bytes → Bytes
  | [], _, offsetBytes, content => offsetBytes ++ content
  | e :: es, length, offsetBytes, content =>
    if dynamic then
      serialiseElements dynamic serialise es (length + (serialise e).length)
        (offsetBytes ++ serialiseU256 (BitVec.ofNat 256 length)) (content ++ serialise e)
    else serialiseElements dynamic serialise es length offsetBytes (content ++ serialise e)

mutual
/-- `serialise`. -/
def serialise : (T : ArgType) → T.Val → Bytes
  | .u256, u => serialiseU256 u
  | .s256, i => serialiseS256 i
  | .bool, b => serialiseBool b
  | .address, account => serialiseAddress account
  | .string32, content => serialiseString32 content
  | .string, content => serialiseBytes content
  | .bytes, content => serialiseBytes content
  | .vector T, xs =>
    serialiseElements (abiDynamicType T) (serialise T) xs (xs.length * 32)
      (serialiseU256 (BitVec.ofNat 256 xs.length)) []
  | .array T N, xs => serialiseElements (abiDynamicType T) (serialise T) xs.1 (N * 32) [] []
  | .tuple Ts, xs =>
    let (offsetBytes,dynamicContent) := serialiseMembers Ts xs (Ts.length * 32) [] []
    offsetBytes ++ dynamicContent
/-- The loop over the members of a tuple, and `abiInAux` over the arguments. -/
def serialiseMembers : (Ts : List ArgType) → Vals Ts → Nat → Bytes → Bytes → Bytes × Bytes
  | [], _, _, fixed, dynamic => (fixed,dynamic)
  | T :: Ts, (x,xs), offset, fixed, dynamic =>
    let out := serialise T x
    if abiDynamicType T then
      serialiseMembers Ts xs (offset + out.length) (fixed ++ serialiseU256 (BitVec.ofNat 256 offset)) (dynamic ++ out)
    else serialiseMembers Ts xs offset (fixed ++ out) dynamic
end

/-- `abiIn`; the selector of a signature is the start of its hash. -/
def abiIn (hash : Bytes → Bytes) (sig : Bytes) (Ts : List ArgType) (xs : Vals Ts) : Call Bytes := do
  let offset ← headBytes (offsetOf Ts)
  let (fixed,dynamic) := serialiseMembers Ts xs offset [] []
  .ok (if sig.isEmpty then fixed ++ dynamic else getCroppedData (hash sig) 0 4 ++ fixed ++ dynamic)

/-! ### Decoding -/

theorem populate_length (view : Bytes) (size : Nat) : (populate view size).length = size := by
  simp only [populate,List.length_append,List.length_take,List.length_replicate]
  omega
private theorem u2s_range (u : U256) : -2 ^ 255 ≤ u2s u ∧ u2s u < 2 ^ 255 := ⟨BitVec.le_toInt u,BitVec.toInt_lt⟩
/-- Above its threshold the decoder negates the complement. -/
theorem complement_range {u : U256} (high : 2 ^ 255 + 2 ^ 252 ≤ u.toNat) :
    -2 ^ 255 ≤ -((2 ^ 256 - 1 - u.toNat + 1 : Nat) : Int) ∧ -((2 ^ 256 - 1 - u.toNat + 1 : Nat) : Int) < 2 ^ 255 := by
  have bound := u.isLt
  omega
theorem length_nil {α : Type} : ([] : List α).length = 0 := rfl
theorem length_cons {α : Type} {count : Nat} (x : α) (xs : {xs : List α // xs.length = count}) :
    (x :: xs.1).length = count + 1 := by
  rw [List.length_cons,xs.2]

section
variable (U : Utilities) (data : Bytes)

/-- `validOffset`. -/
def validOffset (offset : UInt64) : Call Unit :=
  if data.length ≤ offset.toNat then
    throws (lit " deserialize failed, invalid offset , offset is " ++ stdToString offset.toNat ++ lit " , length is " ++
      stdToString data.length ++ lit " , data is " ++ U.toHexString data)
  else .ok ()

/-- `deserialize(u256&)`. -/
def deserializeU256 (offset : UInt64) : Call U256 := do
  validOffset U data (offset + 32 - 1)
  .ok (BitVec.ofNat 256 (fromBigEndian (getCroppedData data offset.toNat 32)))
/-- `deserialize(s256&)`: numbers above 0x8fff...f are negated by hand, the others
    converted. -/
def deserializeS256 (offset : UInt64) : Call S256 := do
  let u ← deserializeU256 U data offset
  if high : 2 ^ 255 + 2 ^ 252 ≤ u.toNat then .ok ⟨-((2 ^ 256 - 1 - u.toNat + 1 : Nat) : Int),complement_range high⟩
  else .ok ⟨u2s u,u2s_range u⟩
/-- `deserialize(bool&)`. -/
def deserializeBool (offset : UInt64) : Call Bool := do .ok (decide (0 < (← deserializeU256 U data offset)))
/-- `deserialize(Address&)`. -/
def deserializeAddress (offset : UInt64) : Call (Exactly 20) := do
  validOffset U data (offset + 32 - 1)
  .ok ⟨populate (getCroppedData data (offset + 32 - 20).toNat 20) 20,populate_length _ 20⟩
/-- `deserialize(string32&)`. -/
def deserializeString32 (offset : UInt64) : Call (Exactly 32) := do
  validOffset U data (offset + 32 - 1)
  .ok ⟨populate (getCroppedData data offset.toNat 32) 32,populate_length _ 32⟩
/-- `deserialize(bytes&)` and `deserialize(std::string&)`. -/
def deserializeBytes (offset : UInt64) : Call Bytes := do
  let len ← deserializeU256 U data offset
  validOffset U data (offset + 32 + sizeOfWord len - 1)
  .ok (getCroppedData data (offset + 32).toNat (sizeOfWord len).toNat)

/-- The body of the loops over elements and members: a dynamic one is decoded at the
    offset that the word at the cursor gives, a static one at the cursor. -/
def deserializeComponent {α : Type} (T : ArgType) (deserialize : UInt64 → Call α) (base cursor : UInt64) : Call α :=
  if abiDynamicType T then do
    let length ← deserializeU256 U data cursor
    deserialize (base + sizeOfWord length)
  else deserialize cursor
/-- Where the element with the index `u` has its head. -/
def elementCursor (T : ArgType) (base : UInt64) (u : Nat) : UInt64 :=
  base + UInt64.ofNat u * UInt64.ofNat (lengthOf T) * 32
/-- The loop over `count` elements from the index `u` on. -/
def deserializeElements {α : Type} (element : Nat → Call α) : (count u : Nat) → Call {xs : List α // xs.length = count}
  | 0, _ => .ok ⟨[],length_nil⟩
  | count + 1, u => do
    let x ← element u
    let xs ← deserializeElements element count (u + 1)
    .ok ⟨x :: xs.1,length_cons x xs⟩

mutual
/-- `deserialize`. The vector is taken to be resized to any length. -/
def deserialize : (T : ArgType) → UInt64 → Call T.Val
  | .u256, offset => deserializeU256 U data offset
  | .s256, offset => deserializeS256 U data offset
  | .bool, offset => deserializeBool U data offset
  | .address, offset => deserializeAddress U data offset
  | .string32, offset => deserializeString32 U data offset
  | .string, offset => deserializeBytes U data offset
  | .bytes, offset => deserializeBytes U data offset
  | .vector T, offset => do
    let length ← deserializeU256 U data offset
    let xs ← deserializeElements (fun u =>
      deserializeComponent U data T (fun o => deserialize T o) (offset + 32) (elementCursor T (offset + 32) u))
      (sizeOfWord length).toNat 0
    .ok xs.1
  | .array T N, offset =>
    deserializeElements (fun u =>
      deserializeComponent U data T (fun o => deserialize T o) offset (elementCursor T offset u)) N 0
  | .tuple Ts, offset => deserializeMembers Ts offset 0
/-- The loop over the members of a tuple at `base`. -/
def deserializeMembers : (Ts : List ArgType) → UInt64 → UInt64 → Call (Vals Ts)
  | [], _, _ => .ok ()
  | T :: Ts, base, tupleOffset => do
    let x ← deserializeComponent U data T (fun o => deserialize T o) base (base + tupleOffset)
    let xs ← deserializeMembers Ts base (tupleOffset + UInt64.ofNat (← headBytes (lengthOf T)))
    .ok (x,xs)
end

/-- `abiOutAux`: the offsets of arguments count from the start of the data. -/
def abiOutAux (Ts : List ArgType) (offset : UInt64) : Call (Vals Ts) := deserializeMembers U data Ts 0 offset

/-- `abiOut`: the arguments, or `false` for any exception. -/
def abiOut (Ts : List ArgType) : Call (Option (Vals Ts)) :=
  match abiOutAux U data Ts 0 with
  | .ok xs => .ok (some xs)
  | .error (.throws _) => .ok none
  | .error failure => .error failure

end

end CppSdk.SolidityCodec

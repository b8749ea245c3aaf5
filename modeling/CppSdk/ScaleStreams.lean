import CppSdk.Runtime

/-!
The SCALE streams: the types that both streams take, the bytes that
`ScaleEncoderStream` writes for a value, and what `ScaleDecoderStream` reads of a type
from a span.
-/
namespace CppSdk.ScaleStreams
open CppSdk.ByteString CppSdk.Runtime

/-! ### Types and values -/

/-- The size of an integral type. -/
inductive Width where
  | one
  | two
  | four
  | eight
  deriving DecidableEq

/-- `sizeof`. -/
def Width.size : Width → Nat
  | .one => 1
  | .two => 2
  | .four => 4
  | .eight => 8
/-- `sign_bit`, and twice that: the range of the type. -/
def Width.signBit (width : Width) : Nat := 2 ^ (8 * width.size - 1)

/-- The types that both streams have an operator for. -/
inductive Ty where
  | integral (signed : Bool) (width : Width)
  | bool
  | string
  | u256
  | s256
  | fixedBytes (size : Nat)
  | compactInteger
  | pair (first second : Ty)
  | tuple (elements : List Ty)
  | array (element : Ty) (size : Nat)
  | vector (element : Ty)
  | map (key value : Ty)
  | optional (value : Ty)
  | variant (alternatives : List Ty)

/-- Induction on types with a hypothesis for every element. -/
@[elab_as_elim]
theorem Ty.induct {motive : Ty → Prop} (integral : ∀ signed width, motive (.integral signed width)) (bool : motive .bool)
    (string : motive .string) (u256 : motive .u256) (s256 : motive .s256) (fixedBytes : ∀ size, motive (.fixedBytes size))
    (compactInteger : motive .compactInteger)
    (pair : ∀ first second, motive first → motive second → motive (.pair first second))
    (tuple : ∀ elements, (∀ t ∈ elements, motive t) → motive (.tuple elements))
    (array : ∀ element size, motive element → motive (.array element size))
    (vector : ∀ element, motive element → motive (.vector element))
    (map : ∀ key value, motive key → motive value → motive (.map key value))
    (optional : ∀ value, motive value → motive (.optional value))
    (variant : ∀ alternatives, (∀ t ∈ alternatives, motive t) → motive (.variant alternatives)) (t : Ty) : motive t :=
  @Ty.rec motive (fun ts => ∀ t ∈ ts, motive t) integral bool string u256 s256 fixedBytes compactInteger pair tuple
    array vector map optional variant (by simp) (fun _ _ here later => List.forall_mem_cons.mpr ⟨here,later⟩) t

/-- A value. The alternatives of a variant are distinct, so its index says which type it
    holds; a map is listed in the order of its keys. -/
inductive Data where
  | int (value : Int)
  | bool (value : Bool)
  | bytes (content : Bytes)
  | seq (elements : List Data)
  | map (entries : List (Data × Data))
  | optional (value : Option Data)
  | variant (index : Nat) (value : Data)

/-- How `vector::resize` ends. -/
inductive Resize where
  | done
  | badAlloc
  | lengthError
  deriving DecidableEq

/-- What the types take from the standard library: `resize` of a vector of the type to a
    size, and `std::less` of the type. -/
structure Library where
  resize : Ty → Nat → Resize
  less : Ty → Data → Data → Bool

/-- The value is one of the type. A vector and a string have a size that `resize` reaches,
    the keys of a map ascend, and the index of a variant is a `uint8_t`. -/
inductive Typed (L : Library) : Ty → Data → Prop where
  | unsigned {width : Width} {i : Int} (low : 0 ≤ i) (high : i < 2 * width.signBit) :
      Typed L (.integral false width) (.int i)
  | signed {width : Width} {i : Int} (low : -width.signBit ≤ i) (high : i < width.signBit) :
      Typed L (.integral true width) (.int i)
  | bool (b : Bool) : Typed L .bool (.bool b)
  | string {content : Bytes} (resized : L.resize (.integral false .one) content.length = .done)
      (size : content.length < 2 ^ 64) : Typed L .string (.bytes content)
  | u256 {i : Int} (low : 0 ≤ i) (high : i < 2 ^ 256) : Typed L .u256 (.int i)
  | s256 {i : Int} (low : -2 ^ 255 ≤ i) (high : i < 2 ^ 255) : Typed L .s256 (.int i)
  | fixedBytes {size : Nat} {content : Bytes} (exact : content.length = size) :
      Typed L (.fixedBytes size) (.bytes content)
  | compactInteger {i : Int} (low : 0 ≤ i) (high : i < 2 ^ 536) : Typed L .compactInteger (.int i)
  | pair {first second : Ty} {x y : Data} (left : Typed L first x) (right : Typed L second y) :
      Typed L (.pair first second) (.seq [x,y])
  | tuple {elements : List Ty} {xs : List Data} (each : List.Forall₂ (Typed L) elements xs) :
      Typed L (.tuple elements) (.seq xs)
  | array {element : Ty} {size : Nat} {xs : List Data} (full : xs.length = size) (each : ∀ x ∈ xs, Typed L element x) :
      Typed L (.array element size) (.seq xs)
  | vector {element : Ty} {xs : List Data} (resized : L.resize element xs.length = .done)
      (size : xs.length < 2 ^ 64) (each : ∀ x ∈ xs, Typed L element x) : Typed L (.vector element) (.seq xs)
  | map {key value : Ty} {entries : List (Data × Data)} (size : entries.length < 2 ^ 64)
      (ascending : entries.Pairwise (fun p q => L.less key p.1 q.1 = true))
      (keys : ∀ p ∈ entries, Typed L key p.1) (values : ∀ p ∈ entries, Typed L value p.2) : Typed L (.map key value) (.map entries)
  | none (value : Ty) : Typed L (.optional value) (.optional none)
  | some {value : Ty} {x : Data} (held : Typed L value x) : Typed L (.optional value) (.optional (some x))
  | variant {alternatives : List Ty} {index : Nat} {t : Ty} {x : Data} (few : index < 256)
      (alternative : alternatives[index]? = some t) (held : Typed L t x) :
      Typed L (.variant alternatives) (.variant index x)

/-! ### The encoder -/

/-- `encodeInteger`. -/
def encodeInteger (size : Nat) (value : Int) : Bytes := toLittleEndian size (value % 2 ^ (8 * size)).toNat

/-- `encodeFirstCategory`. -/
def encodeFirstCategory (value : Nat) : Bytes := [UInt8.ofNat (value * 4)]
/-- `encodeSecondCategory`, in the arithmetic of `uint16_t`. -/
def encodeSecondCategory (value : Nat) : Bytes :=
  let v := (value * 4 % 2 ^ 16 + 1) % 2 ^ 16
  [UInt8.ofNat (v % 256),UInt8.ofNat (v / 256 % 256)]
/-- `encodeThirdCategory`, in the arithmetic of `uint32_t`. -/
def encodeThirdCategory (value : Nat) : Bytes := encodeInteger 4 ((value * 4 + 2) % 2 ^ 32 : Nat)

/-- `countBytes`. -/
def countBytes (v : Nat) : Nat := if v / 256 = 0 then 1 else countBytes (v / 256) + 1
  termination_by v

/-- `encodeCompactInteger`. -/
def encodeCompactInteger (value : Int) : Call Bytes :=
  if value < 0 then throws (lit "encodeCompactInteger exception for NEGATIVE_COMPACT_INTEGER")
  else if value < 2 ^ 6 then .ok (encodeFirstCategory value.toNat)
  else if value < 2 ^ 14 then .ok (encodeSecondCategory value.toNat)
  else if value < 2 ^ 30 then .ok (encodeThirdCategory value.toNat)
  else
    let bigIntLength := countBytes value.toNat
    if 67 < bigIntLength then throws (lit "encodeCompactInteger exception for COMPACT_INTEGER_TOO_BIG")
    else .ok (UInt8.ofNat ((bigIntLength - 4) * 4 + 3) :: toLittleEndian bigIntLength value.toNat)

/-- `encodeOptionalBool`. -/
def encodeOptionalBool : Option Data → Bytes
  | none => [0]
  | some (.bool false) => [2]
  | some _ => [1]

/-- The loops over elements. -/
def encodeEach {α : Type} (encode : α → Call Bytes) : List α → Call Bytes
  | [] => .ok []
  | x :: xs => do .ok ((← encode x) ++ (← encodeEach encode xs))
/-- `encodeCollection`. -/
def encodeCollection {α : Type} (encode : α → Call Bytes) (xs : List α) : Call Bytes := do
  .ok ((← encodeCompactInteger xs.length) ++ (← encodeEach encode xs))

mutual
/-- `operator<<`: the bytes that a value of the type appends. A value of another type does
    not compile. -/
def encode : Ty → Data → Call Bytes
  | .integral _ width, .int i => .ok (encodeInteger width.size i)
  | .bool, .bool b => .ok [if b then 1 else 0]
  | .string, .bytes content => encodeCollection (fun c => .ok [c]) content
  | .u256, .int i => .ok (word i.toNat)
  | .s256, .int i => .ok (word (s2u i).toNat)
  | .fixedBytes _, .bytes content => .ok content
  | .compactInteger, .int i => encodeCompactInteger i
  | .pair first second, .seq [x,y] => do .ok ((← encode first x) ++ (← encode second y))
  | .tuple elements, .seq xs => encodeElements elements xs
  | .array element _, .seq xs => encodeEach (fun x => encode element x) xs
  | .vector element, .seq xs => encodeCollection (fun x => encode element x) xs
  | .map key value, .map entries =>
    encodeCollection (fun p => do .ok ((← encode key p.1) ++ (← encode value p.2))) entries
  | .optional .bool, .optional held => .ok (encodeOptionalBool held)
  | .optional _, .optional none => .ok [0]
  | .optional value, .optional (some x) => do .ok (1 :: (← encode value x))
  | .variant alternatives, .variant index x => do .ok (UInt8.ofNat index :: (← encodeAlternative alternatives index x))
  | _, _ => .error .undefined
/-- `encodeElementOfTuple`. -/
def encodeElements : List Ty → List Data → Call Bytes
  | [], [] => .ok []
  | t :: ts, x :: xs => do .ok ((← encode t x) ++ (← encodeElements ts xs))
  | _, _ => .error .undefined
/-- `tryEncodeAsOneOfVariant`, after the index. -/
def encodeAlternative : List Ty → Nat → Data → Call Bytes
  | [], _, _ => .error .undefined
  | t :: _, 0, x => encode t x
  | _ :: ts, index + 1, x => encodeAlternative ts index x
end

/-! ### The decoder -/

/-- How the decoder ends when it does not return: with a `ScaleDecodeException` and its
    comment, with the `std::length_error` of `resize`, or outside what the language
    defines. -/
inductive DecodeFailure where
  | scaleDecodeException (comment : Bytes)
  | lengthError
  | undefined
  deriving DecidableEq

/-- `m_span` and `m_currentIndex`; `m_currentIterator` stands at that index. -/
structure Stream where
  span : Bytes
  currentIndex : Nat

/-- The result of a read. -/
abbrev Read (α : Type) := Except DecodeFailure α

/-- `ScaleDecodeException`. -/
def scaleThrows {α : Type} (comment : String) : Read α := .error (.scaleDecodeException (lit comment))

/-- `hasMore`. -/
def Stream.hasMore (s : Stream) (n : Nat) : Bool := decide (s.currentIndex + n ≤ s.span.length)

/-- The bytes between `m_currentIterator` and `m_currentIterator + n`, which has to lie in
    the span. -/
def takeBytes (n : Nat) (s : Stream) : Read (Bytes × Stream) :=
  if s.currentIndex + n ≤ s.span.length then
    .ok ((s.span.drop s.currentIndex).take n,⟨s.span,s.currentIndex + n⟩)
  else .error .undefined

/-- `nextByte`. -/
def nextByte (s : Stream) : Read (UInt8 × Stream) :=
  if !s.hasMore 1 then scaleThrows "nextByte exception for NOT_ENOUGH_DATA"
  else
    match s.span[s.currentIndex]? with
    | some b => .ok (b,⟨s.span,s.currentIndex + 1⟩)
    | none => .error .undefined

/-- The loops that add the next bytes to a number, each times the multiplier. -/
def addBytes : Nat → Nat → Nat → Stream → Read (Nat × Stream)
  | 0, _, value, s => .ok (value,s)
  | count + 1, multiplier, value, s => do
    let (b,s) ← nextByte s
    addBytes count (multiplier * 256) (value + b.toNat * multiplier) s

/-- The end of `decodeInteger`: what the type makes of the bytes. The negation of the
    least number of the type is not defined, save where it is made in a wider type. -/
def signedValue (signed : Bool) (size v : Nat) : Read Int :=
  if !signed || v < 2 ^ (8 * size - 1) then .ok v
  else
    let x := Int.bmod (2 ^ 64 - v) (2 ^ (8 * size))
    if 4 ≤ size ∧ x = -2 ^ (8 * size - 1) then .error .undefined else .ok (Int.bmod (-x) (2 ^ (8 * size)))

/-- `decodeInteger`. -/
def decodeInteger (signed : Bool) (size : Nat) (s : Stream) : Read (Int × Stream) :=
  if !s.hasMore size then scaleThrows "decodeInteger exception for NOT_ENOUGH_DATA"
  else do
    let (v,s) ← addBytes size 1 0 s
    .ok (← signedValue signed size v,s)

/-- What a byte is as a number of the type. -/
def byteValue (signed : Bool) (b : UInt8) : Int := if signed then Int.bmod b.toNat 256 else b.toNat

/-- `operator>>` of the integral types but `bool`. -/
def decodeIntegral (signed : Bool) (width : Width) (s : Stream) : Read (Int × Stream) :=
  if width = .one then do
    let (b,s) ← nextByte s
    .ok (byteValue signed b,s)
  else decodeInteger signed width.size s

/-- The `switch` of `decodeBool`. -/
def boolOf (b : UInt8) : Read Bool :=
  if b = 0 then .ok false
  else if b = 1 then .ok true
  else scaleThrows "decodeBool exception for UNEXPECTED_VALUE"
/-- `decodeBool`. -/
def decodeBool (s : Stream) : Read (Bool × Stream) := do
  let (b,s) ← nextByte s
  .ok (← boolOf b,s)

/-- The `switch` of `decodeOptionalBool`. -/
def optionalBoolOf (b : UInt8) : Read (Option Data) :=
  if b = 0 then .ok none
  else if b = 2 then .ok (some (.bool false))
  else if b = 1 then .ok (some (.bool true))
  else scaleThrows "decodeOptionalBool exception for unexpected value"
/-- `decodeOptionalBool`. -/
def decodeOptionalBool (s : Stream) : Read (Option Data × Stream) := do
  let (b,s) ← nextByte s
  .ok (← optionalBoolOf b,s)

/-- The `switch` of `decodeCompactInteger` on the flag in the first byte. -/
def decodeFlagged (first : UInt8) (s : Stream) : Read (Nat × Stream) :=
  let flag := first.toNat % 4
  if flag = 0 then .ok (first.toNat / 4,s)
  else if flag = 1 then do
    let (second,s) ← nextByte s
    .ok ((first.toNat / 4 * 4 + second.toNat * 256) / 4,s)
  else if flag = 2 then
    if !s.hasMore 3 then scaleThrows "decodeOptionalBool exception for not enough data"
    else do
      let (number,s) ← addBytes 3 256 first.toNat s
      .ok (number / 4,s)
  else
    let count := first.toNat / 4 + 4
    if !s.hasMore count then scaleThrows "decodeCompactInteger exception for not enough data"
    else addBytes count 1 0 s
/-- `decodeCompactInteger`. -/
def decodeCompactInteger (s : Stream) : Read (Nat × Stream) := do
  let (first,s) ← nextByte s
  decodeFlagged first s

/-- `size.convert_to<size_type>()` keeps the low 64 bits. -/
def itemCount (size : Nat) : Nat := size % 2 ^ 64

/-- What a vector makes of each byte where `sizeof(T)` is 1. Other types of that size are
    not made from a byte, so a vector of them does not compile. -/
def fromByte : Ty → Option (UInt8 → Data)
  | .integral signed .one => some (fun b => .int (byteValue signed b))
  | .bool => some (fun b => .bool (decide (b ≠ 0)))
  | .fixedBytes 1 => some (fun b => .bytes [b])
  | .tuple [t] => (fromByte t).map (fun element b => .seq [element b])
  | _ => none

/-- The loops that decode the elements one after the other. -/
def decodeEach {α : Type} (decode : Stream → Read (α × Stream)) : Nat → Stream → Read (List α × Stream)
  | 0, s => .ok ([],s)
  | count + 1, s => do
    let (x,s) ← decode s
    let (xs,s) ← decodeEach decode count s
    .ok (x :: xs,s)

section
variable (L : Library)

/-- `vec.resize(item_count)` with its `catch` block. -/
def resizeVector (t : Ty) (count : Nat) : Read Unit :=
  match L.resize t count with
  | .done => .ok ()
  | .badAlloc => .error (.scaleDecodeException (lit "exception for TOO_MANY_ITEMS: " ++ stdToString count))
  | .lengthError => .error .lengthError

/-- `operator>>` of a vector of single bytes. -/
def decodeBytes (t : Ty) (s : Stream) : Read (Bytes × Stream) := do
  let (size,s) ← decodeCompactInteger s
  resizeVector L t (itemCount size)
  takeBytes (itemCount size) s

/-- `map.emplace`, which leaves the map as it is when it holds the key. -/
def emplace (key : Ty) : List (Data × Data) → Data × Data → List (Data × Data)
  | [], p => [p]
  | q :: rest, p =>
    if L.less key q.1 p.1 then q :: emplace key rest p
    else if L.less key p.1 q.1 then p :: q :: rest
    else q :: rest

mutual
/-- `operator>>`. -/
def decode : Ty → Stream → Read (Data × Stream)
  | .integral signed width, s => do
    let (i,s) ← decodeIntegral signed width s
    .ok (.int i,s)
  | .bool, s => do
    let (b,s) ← decodeBool s
    .ok (.bool b,s)
  | .string, s => do
    let (content,s) ← decodeBytes L (.integral false .one) s
    .ok (.bytes content,s)
  | .u256, s => do
    let (view,s) ← takeBytes 32 s
    .ok (.int (fromBigEndian view),s)
  | .s256, s => do
    let (view,s) ← takeBytes 32 s
    .ok (.int (u2s (BitVec.ofNat 256 (fromBigEndian view))),s)
  | .fixedBytes size, s => do
    let (content,s) ← decodeEach nextByte size s
    .ok (.bytes content,s)
  | .compactInteger, s => do
    let (value,s) ← decodeCompactInteger s
    .ok (.int value,s)
  | .pair first second, s => do
    let (x,s) ← decode first s
    let (y,s) ← decode second s
    .ok (.seq [x,y],s)
  | .tuple elements, s => do
    let (xs,s) ← decodeElements elements s
    .ok (.seq xs,s)
  | .array element size, s => do
    let (xs,s) ← decodeEach (fun s => decode element s) size s
    .ok (.seq xs,s)
  | .vector element, s =>
    match fromByte element with
    | some ofByte => do
      let (content,s) ← decodeBytes L element s
      .ok (.seq (content.map ofByte),s)
    | none => do
      let (size,s) ← decodeCompactInteger s
      resizeVector L element (itemCount size)
      let (xs,s) ← decodeEach (fun s => decode element s) (itemCount size) s
      .ok (.seq xs,s)
  | .map key value, s => do
    let (size,s) ← decodeCompactInteger s
    let (entries,s) ← decodeEach (fun s => do
        let (x,s) ← decode key s
        let (y,s) ← decode value s
        .ok ((x,y),s)) (itemCount size) s
    .ok (.map (entries.foldl (emplace L key) []),s)
  | .optional .bool, s => do
    let (held,s) ← decodeOptionalBool s
    .ok (.optional held,s)
  | .optional value, s => do
    let (hasValue,s) ← decodeBool s
    if hasValue then do
      let (x,s) ← decode value s
      .ok (.optional (some x),s)
    else .ok (.optional none,s)
  | .variant alternatives, s => do
    let (index,s) ← nextByte s
    if alternatives.length ≤ index.toNat then scaleThrows "exception for WRONG_TYPE_INDEX"
    else do
      let (x,s) ← decodeAlternative alternatives index.toNat s
      .ok (.variant index.toNat x,s)
/-- `decodeElementOfTuple`, which also reads a sequence of values. -/
def decodeElements : List Ty → Stream → Read (List Data × Stream)
  | [], s => .ok ([],s)
  | t :: ts, s => do
    let (x,s) ← decode t s
    let (xs,s) ← decodeElements ts s
    .ok (x :: xs,s)
/-- `tryDecodeAsOneOfVariant`; the index is that of an alternative. -/
def decodeAlternative : List Ty → Nat → Stream → Read (Data × Stream)
  | [], _, _ => .error .undefined
  | t :: _, 0, s => decode t s
  | _ :: ts, index + 1, s => decodeAlternative ts index s
end

/-- Other optional values follow a boolean. -/
theorem optional_eq {value : Ty} (other : value ≠ .bool) :
    encode (.optional value) (.optional none) = .ok [0] ∧
    (∀ x, encode (.optional value) (.optional (some x)) = (do .ok (1 :: (← encode value x)))) ∧
    decode L (.optional value) = (fun s => do
      let (hasValue,s) ← decodeBool s
      if hasValue then do
        let (x,s) ← decode L value s
        .ok (.optional (some x),s)
      else .ok (.optional none,s)) := by
  cases value with
  | bool => exact absurd rfl other
  | _ => exact ⟨rfl,fun x => rfl,rfl⟩

end

end CppSdk.ScaleStreams

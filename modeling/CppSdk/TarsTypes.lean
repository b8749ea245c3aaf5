import CppSdk.TarsCodecs

/-!
The types that the templates of `Tars.h` write and read, with vectors and maps of each other to
any depth. A value of any of them comes back from whatever bytes follow it.
-/
namespace CppSdk.TarsTypes
open CppSdk.ByteString CppSdk.Runtime CppSdk.Cursors CppSdk.TarsStream CppSdk.TarsSafety CppSdk.TarsFields CppSdk.TarsCodecs

/-- The types of fields, and whether the template of vectors takes them as elements: a vector
    of `Char`s has a `read` of its own, and no `read` takes an element of a vector of `Bool`s. -/
inductive FieldType : Bool → Type where
  | bool : FieldType false
  | char : FieldType false
  | short : FieldType true
  | int32 : FieldType true
  | int64 : FieldType true
  | uint8 : FieldType true
  | uint16 : FieldType true
  | uint32 : FieldType true
  | string : FieldType true
  | chars : FieldType true
  | vector (element : FieldType true) : FieldType true
  | map {keyListed valueListed : Bool} (key : FieldType keyListed) (value : FieldType valueListed) : FieldType true

/-- The values of a type; a map is the list of its entries. -/
def FieldType.Value : {listed : Bool} → FieldType listed → Type
  | _, .bool => Bool
  | _, .char => Int8
  | _, .short => Int16
  | _, .int32 => Int32
  | _, .int64 => Int64
  | _, .uint8 => UInt8
  | _, .uint16 => UInt16
  | _, .uint32 => UInt32
  | _, .string => Bytes
  | _, .chars => Bytes
  | _, .vector element => List element.Value
  | _, .map key value => List (key.Value × value.Value)

/-- The order of sequences. -/
def lexicographic {α : Type} (less : α → α → Bool) : List α → List α → Bool
  | _, [] => false
  | [], _ :: _ => true
  | a :: as, b :: bs => less a b || (!less b a && lexicographic less as bs)
/-- The order of pairs. -/
def pairLess {α β : Type} (less : α → α → Bool) (lessLater : β → β → Bool) (a b : α × β) : Bool :=
  less a.1 b.1 || (!less b.1 a.1 && lessLater a.2 b.2)
/-- `std::less` of a type. -/
def FieldType.less : {listed : Bool} → (type : FieldType listed) → type.Value → type.Value → Bool
  | _, .bool, a, b => !a && b
  | _, .char, a, b => decide (Int8.toInt a < Int8.toInt b)
  | _, .short, a, b => decide (Int16.toInt a < Int16.toInt b)
  | _, .int32, a, b => decide (Int32.toInt a < Int32.toInt b)
  | _, .int64, a, b => decide (Int64.toInt a < Int64.toInt b)
  | _, .uint8, a, b => decide (UInt8.toNat a < UInt8.toNat b)
  | _, .uint16, a, b => decide (UInt16.toNat a < UInt16.toNat b)
  | _, .uint32, a, b => decide (UInt32.toNat a < UInt32.toNat b)
  | _, .string, a, b => lexicographic (fun c d : UInt8 => decide (c.toNat < d.toNat)) a b
  | _, .chars, a, b => lexicographic (fun c d : UInt8 => decide (c.toInt8.toInt < d.toInt8.toInt)) a b
  | _, .vector element, a, b => lexicographic element.less a b
  | _, .map key value, a, b => lexicographic (pairLess key.less value.less) a b

/-- The value of a variable that is declared. -/
def FieldType.default : {listed : Bool} → (type : FieldType listed) → type.Value
  | _, .bool => false
  | _, .char => (0 : Int8)
  | _, .short => (0 : Int16)
  | _, .int32 => (0 : Int32)
  | _, .int64 => (0 : Int64)
  | _, .uint8 => (0 : UInt8)
  | _, .uint16 => (0 : UInt16)
  | _, .uint32 => (0 : UInt32)
  | _, .string => ([] : Bytes)
  | _, .chars => ([] : Bytes)
  | _, .vector element => ([] : List element.Value)
  | _, .map key value => ([] : List (key.Value × value.Value))

/-- `read` of `UInt32` as a conversion. -/
theorem readUInt32_eq (n : UInt32) (tag : UInt8) (isRequire : Bool) :
    readUInt32 n tag isRequire = (fun i => UInt32.ofNat (i % 4294967296).toNat) <$> readInteger .int64 n.toNat tag isRequire := by
  rw [← bind_pure_comp]
  rfl
private theorem uint32_value (n : UInt32) : n.toUInt64.toInt64.toInt = n.toNat := by
  have small : 2 * n.toUInt64.toBitVec.toNat < 2 ^ 64 := by
    have := n.toNat_lt
    simp
    omega
  exact (BitVec.toInt_eq_toNat_of_lt small).trans (by simp)
private theorem uint32_back (n : UInt32) : UInt32.ofNat ((n.toNat : Int) % 4294967296).toNat = n := by
  have := n.toNat_lt
  apply UInt32.toNat_inj.mp
  simp
  omega
private theorem holds_uint32 (n : UInt32) : Width.Holds .int64 n.toNat := by
  have := n.toNat_lt
  simp only [Width.Holds,Width.size]
  norm_num
  omega
def uint32Codec : Codec UInt32 where
  write := writeUInt32
  read := readUInt32
  payload tag head := (fun i => UInt32.ofNat (i % 4294967296).toNat) <$> integerPayload .int64 tag head
  notExist := Width.notExist .int64
  Valid _ := True
  wire n := .integer n.toNat
  fielded n tag isRequire := by
    have fielded : Fielded (readInteger .int64) (integerPayload .int64) (Width.notExist .int64) := fun _ _ _ => rfl
    rw [readUInt32_eq]
    exact fielded_map (f := fun i => UInt32.ofNat (i % 4294967296).toNat) (g := fun n : UInt32 => (n.toNat : Int)) fielded uint32_back n
      tag isRequire
  fits n _ := .integer (range_of_holds (holds_uint32 n)).1 (range_of_holds (holds_uint32 n)).2
  writes n tag _ := uint32_value n ▸ writes_int64 n.toUInt64.toInt64 tag
  takes n tag _ := by
    have taken := takes_map (takes_integer (holds_uint32 n) tag tag) (fun i => UInt32.ofNat (i % 4294967296).toNat)
    rwa [uint32_back] at taken

/-- The functions that the templates choose for a type. -/
def FieldType.codec : {listed : Bool} → (type : FieldType listed) → Codec type.Value
  | _, .bool => boolCodec
  | _, .char => charCodec
  | _, .short => shortCodec
  | _, .int32 => int32Codec
  | _, .int64 => int64Codec
  | _, .uint8 => uint8Codec
  | _, .uint16 => uint16Codec
  | _, .uint32 => uint32Codec
  | _, .string => stringCodec
  | _, .chars => charsCodec
  | _, .vector element => vectorCodec element.codec element.default
  | _, .map key value => mapCodec key.less key.codec value.codec key.default value.default

/-- A value of any type comes back, whatever value the variable has had and whatever bytes
    follow; `skipField` passes over exactly its field. -/
theorem types_come_back {listed : Bool} (type : FieldType listed) {v : type.Value} (valid : type.codec.Valid v) (old : type.Value)
    (tag : UInt8) (isRequire : Bool) (rest : Bytes) :
    ∃ bytes, Writes (type.codec.write v tag) bytes ∧ Reads (type.codec.read old tag isRequire) (bytes ++ rest) v rest ∧
      Reads (skipHeadedWith skipField) (bytes ++ rest) () rest :=
  ⟨_,type.codec.writes v tag valid,type.codec.takes_read valid old tag isRequire rest,
    takes_headed (takes_skipField (type.codec.fits v valid)) tag rest⟩

/-- A map from texts to vectors. -/
def listings : List (Bytes × List Int32) := [([65],[1,-200]),([65,66],[])]

theorem types_come_back_listings :
    ∃ bytes, Writes ((FieldType.map .string (.vector .int32)).codec.write listings 3) bytes ∧
      Reads ((FieldType.map .string (.vector .int32)).codec.read [] 3 true) (bytes ++ []) listings [] ∧
      Reads (skipHeadedWith skipField) (bytes ++ []) () [] := by
  refine types_come_back (.map .string (.vector .int32)) ⟨by decide,?_,?_⟩ [] 3 true []
  · exact List.pairwise_pair.mpr ⟨by decide,by decide⟩
  intro entry member
  refine ⟨?_,?_,fun _ _ => trivial⟩
  · rcases List.mem_cons.mp member with rfl | member
    · exact (show 1 ≤ tarsMaxStringLength by decide)
    · obtain rfl := List.mem_singleton.mp member
      exact (show 2 ≤ tarsMaxStringLength by decide)
  · rcases List.mem_cons.mp member with rfl | member
    · exact (show 2 < 4294967296 by decide)
    · obtain rfl := List.mem_singleton.mp member
      exact (show 0 < 4294967296 by decide)

end CppSdk.TarsTypes

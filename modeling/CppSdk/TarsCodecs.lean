import CppSdk.TarsFields

/-!
The `write` and `read` functions of `Tars.h` belong together: a `Codec` carries the field that
a value is written as and the proof that the read takes this field, with whatever is around
it, for the value.
-/
namespace CppSdk.TarsCodecs
open CppSdk.ByteString CppSdk.Runtime CppSdk.Cursors CppSdk.TarsStream CppSdk.TarsSafety CppSdk.TarsFields

variable {α β : Type}

/-! ### What a writer writes -/

/-- The writer appends the bytes. -/
def Writes (x : TarsWrite) (bytes : Bytes) : Prop := ∀ written, x.run written = (.ok (),written ++ bytes)

private theorem writes_nothing : Writes (pure ()) [] := fun written => by rw [List.append_nil]; rfl
theorem writes_then {x y : TarsWrite} {bytes more : Bytes} (first : Writes x bytes) (later : Writes y more) :
    Writes (do
      x
      y) (bytes ++ more) := by
  intro written
  rw [← List.append_assoc]
  exact (run_bind (first written)).trans (later (written ++ bytes))
theorem writes_typeBuf (bytes : Bytes) : Writes (writeTypeBuf bytes) bytes := fun _ => rfl
theorem writes_forM {write : α → TarsWrite} {item : α → Bytes} {values : List α} (each : ∀ a ∈ values, Writes (write a) (item a)) :
    Writes (values.forM write) (values.flatMap item) := by
  induction values with
  | nil => exact writes_nothing
  | cons a values ih =>
    rw [List.forall_mem_cons] at each
    exact writes_then each.1 (ih each.2)

private theorem writes_head (type : HeadType) (tag : UInt8) : Writes (writeToHead type tag) (headBytes type tag) := by
  unfold writeToHead headBytes
  split
  · exact writes_typeBuf _
  · exact writes_then (writes_typeBuf [type.code + 240]) (writes_typeBuf [tag])

/-! ### Integers -/

/-- The digits of a machine integer. -/
theorem digits_eq {width size : Nat} (same : 256 ^ size = 2 ^ width) (n : BitVec width) :
    toBigEndian size n.toNat = toBigEndian size (n.toInt % 256 ^ size).toNat := by
  have value : n.toInt % (2 ^ width : Nat) = n.toNat := by
    rw [BitVec.toInt_eq_toNat_bmod,Int.bmod_emod]
    exact Int.emod_eq_of_lt (by omega) (by exact_mod_cast n.isLt)
  rw [show (256 : Int) ^ size = (256 ^ size : Nat) by push_cast; rfl,same,value,Int.toNat_natCast]

/-- An integer that no narrower width holds. -/
theorem writes_width {i : Int} {n : Nat} {width : Width} (other : i ≠ 0) (narrow : narrowest i = width)
    (digits : toBigEndian width.size n = toBigEndian width.size (i % 256 ^ width.size).toNat) (tag : UInt8) :
    Writes (do
      writeToHead width.head tag
      writeTypeBuf (toBigEndian width.size n)) ((Wire.integer i).bytes tag) := by
  simp only [Wire.bytes,Wire.payload,Wire.head,integerHead,integerBytes,if_neg other,narrow]
  rw [← digits]
  exact writes_then (writes_head width.head tag) (writes_typeBuf _)

theorem writes_char (n : Int8) (tag : UInt8) : Writes (writeChar n tag) ((Wire.integer n.toInt).bytes tag) := by
  unfold writeChar
  by_cases zero : n = 0
  · subst zero
    rw [if_pos rfl,show (Wire.integer (0 : Int8).toInt).bytes tag = headBytes .zeroTag tag from List.append_nil _]
    exact writes_head .zeroTag tag
  · rw [if_neg zero]
    have other : n.toInt ≠ 0 := fun same => zero (Int8.toInt_inj.mp same)
    have narrow : narrowest n.toInt = .char := if_pos (by have := n.le_toInt; have := n.toInt_lt; omega)
    exact writes_width other narrow (digits_eq rfl n.toBitVec) tag
theorem writes_short (n : Int16) (tag : UInt8) : Writes (writeShort n tag) ((Wire.integer n.toInt).bytes tag) := by
  unfold writeShort
  have range : (-128 ≤ n ∧ n ≤ 127) ↔ (-128 ≤ n.toInt ∧ n.toInt ≤ 127) := by
    rw [Int16.le_iff_toInt_le,Int16.le_iff_toInt_le]
    rfl
  split_ifs with small
  · rw [range] at small
    have same : n.toInt8.toInt = n.toInt := by
      rw [Int16.toInt_toInt8]
      exact Int.bmod_eq_of_le (by omega) (by omega)
    exact same ▸ writes_char n.toInt8 tag
  · rw [range] at small
    have := n.le_toInt
    have := n.toInt_lt
    have narrow : narrowest n.toInt = .short := by
      unfold narrowest
      rw [if_neg small,if_pos (by omega)]
    exact writes_width (by omega) narrow (digits_eq rfl n.toBitVec) tag
theorem writes_int32 (n : Int32) (tag : UInt8) : Writes (writeInt32 n tag) ((Wire.integer n.toInt).bytes tag) := by
  unfold writeInt32
  have range : (-32768 ≤ n ∧ n ≤ 32767) ↔ (-32768 ≤ n.toInt ∧ n.toInt ≤ 32767) := by
    rw [Int32.le_iff_toInt_le,Int32.le_iff_toInt_le]
    rfl
  split_ifs with small
  · rw [range] at small
    have same : n.toInt16.toInt = n.toInt := by
      rw [Int32.toInt_toInt16]
      exact Int.bmod_eq_of_le (by omega) (by omega)
    exact same ▸ writes_short n.toInt16 tag
  · rw [range] at small
    have := n.le_toInt
    have := n.toInt_lt
    have narrow : narrowest n.toInt = .int32 := by
      unfold narrowest
      rw [if_neg (by omega),if_neg small,if_pos (by omega)]
    exact writes_width (by omega) narrow (digits_eq rfl n.toBitVec) tag
theorem writes_int64 (n : Int64) (tag : UInt8) : Writes (writeInt64 n tag) ((Wire.integer n.toInt).bytes tag) := by
  unfold writeInt64
  have range : (-2147483648 ≤ n ∧ n ≤ 2147483647) ↔ (-2147483648 ≤ n.toInt ∧ n.toInt ≤ 2147483647) := by
    rw [Int64.le_iff_toInt_le,Int64.le_iff_toInt_le]
    rfl
  split_ifs with small
  · rw [range] at small
    have same : n.toInt32.toInt = n.toInt := by
      rw [Int64.toInt_toInt32]
      exact Int.bmod_eq_of_le (by omega) (by omega)
    exact same ▸ writes_int32 n.toInt32 tag
  · rw [range] at small
    have narrow : narrowest n.toInt = .int64 := by
      unfold narrowest
      rw [if_neg (by omega),if_neg (by omega),if_neg small]
    exact writes_width (by omega) narrow (digits_eq rfl n.toBitVec) tag

/-- The size of a container as it is written. -/
theorem writes_size (size : Nat) : Writes (writeInt32 (Int32.ofNat size) 0) (sizeBytes size) := writes_int32 (Int32.ofNat size) 0

/-! ### Codecs -/

/-- The read looks for its tag and makes a payload of what it finds. -/
def Fielded (read : α → UInt8 → Bool → TarsRead α) (payload : UInt8 → DataHead → TarsRead α) (notExist : UInt8 → Bytes) : Prop :=
  ∀ a tag isRequire, read a tag isRequire = readField (skipToTag tag) (payload tag) (notExist tag) a isRequire

/-- A type that is written and read: how a value is written, and the proof that the read takes
    it. -/
structure Codec (α : Type) where
  write : α → UInt8 → TarsWrite
  read : α → UInt8 → Bool → TarsRead α
  payload : UInt8 → DataHead → TarsRead α
  notExist : UInt8 → Bytes
  Valid : α → Prop
  wire : α → Wire
  fielded : Fielded read payload notExist
  fits : ∀ a, Valid a → (wire a).Fits
  writes : ∀ a tag, Valid a → Writes (write a tag) ((wire a).bytes tag)
  takes : ∀ a tag, Valid a → Takes (payload tag ⟨(wire a).head,tag⟩) (wire a).payload a

/-- Wherever the field of a value lies, it is read as the value. -/
theorem Codec.takes_read (c : Codec α) {a : α} (valid : c.Valid a) (old : α) (tag : UInt8) (isRequire : Bool) :
    Takes (c.read old tag isRequire) ((c.wire a).bytes tag) a := by
  intro rest
  rw [c.fielded old tag isRequire,Wire.bytes,List.append_assoc]
  exact reads_bind (reads_skipToTag (seeks_found (head_ne_structEnd _) _)) (c.takes a tag valid rest)

/-- A read whose result is converted. -/
theorem fielded_map {read : α → UInt8 → Bool → TarsRead α} {payload : UInt8 → DataHead → TarsRead α} {notExist : UInt8 → Bytes}
    (fielded : Fielded read payload notExist) {f : α → β} {g : β → α} (back : ∀ b, f (g b) = b) :
    Fielded (fun b tag isRequire => f <$> read (g b) tag isRequire) (fun tag head => f <$> payload tag head) notExist := by
  intro b tag isRequire
  simp only [fielded (g b) tag isRequire,readField,map_bind]
  congr 1
  funext found
  cases found with
  | some head => rfl
  | none =>
    cases isRequire with
    | true => rfl
    | false => simp only [Bool.false_eq_true,if_false,map_pure,back]

/-- A codec through a conversion. -/
def Codec.map (c : Codec α) (f : α → β) (g : β → α) (back : ∀ b, f (g b) = b) : Codec β where
  write b := c.write (g b)
  read b tag isRequire := f <$> c.read (g b) tag isRequire
  payload tag head := f <$> c.payload tag head
  notExist := c.notExist
  Valid b := c.Valid (g b)
  wire b := c.wire (g b)
  fielded := fielded_map c.fielded back
  fits b := c.fits (g b)
  writes b := c.writes (g b)
  takes b tag valid := by
    have taken := takes_map (c.takes (g b) tag valid) f
    rwa [back] at taken

theorem range_of_holds {width : Width} {i : Int} (holds : Width.Holds width i) :
    -9223372036854775808 ≤ i ∧ i ≤ 9223372036854775807 := by
  obtain ⟨low,high⟩ := holds
  cases width <;> simp only [Width.size] at low high <;> norm_num at low high <;> omega

/-- The codec of an integer type. -/
def integerCodec (width : Width) (toInt : α → Int) (ofInt : Int → α) (write : α → UInt8 → TarsWrite)
    (back : ∀ a, ofInt (toInt a) = a) (holds : ∀ a, Width.Holds width (toInt a))
    (writes : ∀ a tag, Writes (write a tag) ((Wire.integer (toInt a)).bytes tag)) : Codec α where
  write := write
  read a tag isRequire := ofInt <$> readInteger width (toInt a) tag isRequire
  payload tag head := ofInt <$> integerPayload width tag head
  notExist := width.notExist
  Valid _ := True
  wire a := .integer (toInt a)
  fielded := fielded_map (fun _ _ _ => rfl) back
  fits a _ := .integer (range_of_holds (holds a)).1 (range_of_holds (holds a)).2
  writes a tag _ := writes a tag
  takes a tag _ := by
    have taken := takes_map (takes_integer (holds a) tag tag) ofInt
    rwa [back] at taken

private theorem holds_char (n : Int8) : Width.Holds .char n.toInt := ⟨n.le_toInt,n.toInt_lt⟩
private theorem holds_short (n : Int16) : Width.Holds .short n.toInt := ⟨n.le_toInt,n.toInt_lt⟩
private theorem holds_int32 (n : Int32) : Width.Holds .int32 n.toInt := ⟨n.le_toInt,n.toInt_lt⟩
private theorem holds_int64 (n : Int64) : Width.Holds .int64 n.toInt := ⟨n.le_toInt,n.toInt_lt⟩

def charCodec : Codec Int8 := integerCodec .char Int8.toInt Int8.ofInt writeChar Int8.ofInt_toInt holds_char writes_char
def shortCodec : Codec Int16 := integerCodec .short Int16.toInt Int16.ofInt writeShort Int16.ofInt_toInt holds_short writes_short
def int32Codec : Codec Int32 := integerCodec .int32 Int32.toInt Int32.ofInt writeInt32 Int32.ofInt_toInt holds_int32 writes_int32
def int64Codec : Codec Int64 := integerCodec .int64 Int64.toInt Int64.ofInt writeInt64 Int64.ofInt_toInt holds_int64 writes_int64
def boolCodec : Codec Bool := charCodec.map (fun c => c != 0) (fun b => if b then 1 else 0) (fun b => by cases b <;> rfl)

/-- A value that is widened comes back when it is narrowed. -/
theorem narrowed {w v : Nat} (wider : w ≤ v) (x : BitVec w) : (x.setWidth v).signExtend w = x := by
  rw [BitVec.signExtend_eq_setWidth_of_le _ wider]
  exact (BitVec.setWidth_setWidth_of_le x wider).trans (BitVec.setWidth_eq x)
def uint8Codec : Codec UInt8 :=
  shortCodec.map (fun i => i.toInt8.toUInt8) (fun n => n.toUInt16.toInt16)
    (fun n => UInt8.toBitVec_inj.mp (narrowed (by decide) n.toBitVec))
def uint16Codec : Codec UInt16 :=
  int32Codec.map (fun i => i.toInt16.toUInt16) (fun n => n.toUInt32.toInt32)
    (fun n => UInt16.toBitVec_inj.mp (narrowed (by decide) n.toBitVec))

/-! ### Strings and bytes -/

theorem takes_digits {content : Bytes} {size : Nat} (bound : content.length < 256 ^ size) :
    Takes (readTypeBuf size >>= fun strLength => readStringBuf (fromBigEndian strLength))
      (toBigEndian size content.length ++ content) content := by
  have digits := takes_readTypeBuf (toBigEndian size content.length)
  rw [toBigEndian_length] at digits
  refine takes_bind digits ?_
  rw [fromBigEndian_toBigEndian,Nat.mod_eq_of_lt bound]
  exact takes_readTypeBuf content

private theorem writes_string {s : Bytes} (valid : s.length ≤ tarsMaxStringLength) (tag : UInt8) :
    Writes (writeString s tag) ((Wire.string s).bytes tag) := by
  simp only [writeString,Wire.bytes,Wire.head,Wire.payload]
  split_ifs with long huge
  · omega
  · exact writes_then (writes_head .string4 tag) (writes_then (writes_typeBuf _) (writes_typeBuf s))
  · exact writes_then (writes_head .string1 tag) (writes_then (writes_typeBuf _) (writes_typeBuf s))
private theorem takes_string {s : Bytes} (valid : s.length ≤ tarsMaxStringLength) (tag : UInt8) :
    Takes (stringPayload tag ⟨(Wire.string s).head,tag⟩) (Wire.string s).payload s := by
  have most : tarsMaxStringLength < 256 ^ 4 := by decide
  simp only [Wire.head,Wire.payload]
  split_ifs with long
  · have digits := takes_readTypeBuf (toBigEndian 4 s.length)
    rw [toBigEndian_length] at digits
    refine takes_bind digits ?_
    rw [fromBigEndian_toBigEndian,Nat.mod_eq_of_lt (by omega),if_neg (by omega)]
    exact takes_readTypeBuf s
  · exact takes_digits (by omega)
def stringCodec : Codec Bytes where
  write := writeString
  read := readString
  payload := stringPayload
  notExist tag := lit "require field not exist, tag: " ++ byteText tag
  Valid s := s.length ≤ tarsMaxStringLength
  wire := .string
  fielded _ _ _ := rfl
  fits _ := .string
  writes _ tag valid := writes_string valid tag
  takes _ tag valid := takes_string valid tag

/-- The size of a container that fits into the buffer. -/
theorem reads_size {size : Nat} {rest : Bytes} (bound : size < 4294967296) (room : size ≤ rest.length) (invalid : UInt32 → Bytes) :
    Reads (readSize invalid) (sizeBytes size ++ rest) (UInt32.ofNat size) rest := by
  refine reads_bind (takes_size size rest) (fun front => ⟨front,rfl,?_⟩)
  rw [run_get,if_neg]
  · rfl
  · rw [UInt32.toNat_ofNat',standing_buf,List.length_append]
    omega
theorem size_toNat {size : Nat} (bound : size < 4294967296) : (UInt32.ofNat size).toNat = size := by
  rw [UInt32.toNat_ofNat']
  omega

def charsCodec : Codec Bytes where
  write := writeChars
  read := readChars
  payload := charsPayload
  notExist := notExistText
  Valid v := v.length < 4294967296
  wire := .chars
  fielded _ _ _ := rfl
  fits _ := .chars
  writes v tag _ := by
    rw [Wire.bytes,Wire.payload]
    exact writes_then (writes_head .simpleList tag)
      (writes_then (writes_head .char 0) (writes_then (writes_size v.length) (writes_typeBuf v)))
  takes v tag valid := by
    refine takes_bind (takes_readFromHead .char 0) (fun rest => ?_)
    have room : v.length ≤ (v ++ rest).length := by simp
    rw [List.append_assoc (sizeBytes v.length)]
    refine reads_bind (reads_size valid room _) ?_
    rw [size_toNat valid]
    exact takes_readBuf v rest

/-! ### Containers -/

theorem elements_room (elements : List Wire) : elements.length ≤ (elementsBytes elements).length := by
  induction elements with
  | nil => exact Nat.le_refl 0
  | cons w rest ih =>
    have := headBytes_pos w.head 0
    simp only [elementsBytes,List.length_append,List.length_cons]
    omega

/-- `std::vector` of a type. -/
def vectorCodec (c : Codec α) (default : α) : Codec (List α) where
  write := writeVector c.write
  read := readVector (fun tag => c.read default tag true)
  payload := vectorPayload (fun tag => c.read default tag true)
  notExist := notExistText
  Valid v := v.length < 4294967296 ∧ ∀ a ∈ v, c.Valid a
  wire v := .list (v.map c.wire)
  fielded _ _ _ := rfl
  fits v valid := by
    refine .list (by simpa using valid.1) (fun w member => ?_)
    obtain ⟨a,present,rfl⟩ := List.mem_map.mp member
    exact c.fits a (valid.2 a present)
  writes v tag valid := by
    rw [Wire.bytes,Wire.payload,elementsBytes_eq,List.length_map,List.map_map,← List.flatMap_def]
    exact writes_then (writes_head .list tag)
      (writes_then (writes_size v.length) (writes_forM (fun a member => c.writes a 0 (valid.2 a member))))
  takes v tag valid rest := by
    have room := elements_room (v.map c.wire)
    rw [List.length_map] at room
    rw [Wire.payload,List.append_assoc,List.length_map]
    refine reads_bind (reads_size valid.1 (by rw [List.length_append]; exact Nat.le_trans room (Nat.le_add_right _ _)) _) ?_
    rw [size_toNat valid.1,elementsBytes_eq,List.map_map,← List.flatMap_def]
    exact takes_collect (fun a member => c.takes_read (valid.2 a member) default 0 true) rest

/-- Entries in the order of their keys are inserted behind each other. -/
theorem insert_ascending {less : α → α → Bool} {m more : List (α × β)}
    (ascending : (m ++ more).Pairwise (fun e f => less e.1 f.1 = true ∧ less f.1 e.1 = false)) :
    more.foldl (fun m entry => insertNew less entry.1 entry.2 m) m = m ++ more := by
  have last : ∀ (m : List (α × β)) (entry : α × β), (∀ e ∈ m, less e.1 entry.1 = true ∧ less entry.1 e.1 = false) →
      insertNew less entry.1 entry.2 m = m ++ [entry] := by
    intro m entry greatest
    induction m with
    | nil => rfl
    | cons e m ih =>
      rw [List.forall_mem_cons] at greatest
      rw [insertNew,greatest.1.2,greatest.1.1,if_neg (by decide),if_pos rfl,ih greatest.2]
      rfl
  induction more generalizing m with
  | nil => simp
  | cons entry more ih =>
    have before := (List.pairwise_append.mp ascending).2.2
    rw [List.foldl_cons,last m entry (fun e member => before e member entry List.mem_cons_self),ih (by simpa using ascending)]
    simp

private theorem entries_room (entries : List (Wire × Wire)) : entries.length ≤ (entriesBytes entries).length := by
  induction entries with
  | nil => exact Nat.le_refl 0
  | cons e rest ih =>
    have := headBytes_pos e.1.head 0
    simp only [entriesBytes,List.length_append,List.length_cons]
    omega

private theorem entriesBytes_map (key : α → Wire) (value : β → Wire) (m : List (α × β)) :
    entriesBytes (m.map (fun e => (key e.1,value e.2))) = m.flatMap (fun e => (key e.1).bytes 0 ++ (value e.2).bytes 1) := by
  induction m with
  | nil => rfl
  | cons e m ih => simp [entriesBytes,Wire.bytes,ih]

/-- `std::map` of two types with the order of the keys. -/
def mapCodec (less : α → α → Bool) (keys : Codec α) (values : Codec β) (key : α) (value : β) : Codec (List (α × β)) where
  write := writeMap keys.write values.write
  read := readMap less (fun tag => keys.read key tag true) (fun tag => values.read value tag true)
  payload := mapPayload less (fun tag => keys.read key tag true) (fun tag => values.read value tag true)
  notExist := notExistText
  Valid m := m.length < 2147483648 ∧ m.Pairwise (fun e f => less e.1 f.1 = true ∧ less f.1 e.1 = false) ∧
    ∀ e ∈ m, keys.Valid e.1 ∧ values.Valid e.2
  wire m := .map (m.map (fun e => (keys.wire e.1,values.wire e.2)))
  fielded _ _ _ := rfl
  fits m valid := by
    refine .map (by simpa using valid.1) (fun w member => ?_) (fun w member => ?_)
    · obtain ⟨e,present,rfl⟩ := List.mem_map.mp member
      exact keys.fits e.1 (valid.2.2 e present).1
    · obtain ⟨e,present,rfl⟩ := List.mem_map.mp member
      exact values.fits e.2 (valid.2.2 e present).2
  writes m tag valid := by
    rw [Wire.bytes,Wire.payload,entriesBytes_map,List.length_map]
    refine writes_then (writes_head .map tag) (writes_then (writes_size m.length) (writes_forM (fun e member => ?_)))
    exact writes_then (keys.writes e.1 0 (valid.2.2 e member).1) (values.writes e.2 1 (valid.2.2 e member).2)
  takes m tag valid rest := by
    have room := entries_room (m.map (fun e => (keys.wire e.1,values.wire e.2)))
    have bound : m.length < 4294967296 := Nat.lt_trans valid.1 (by decide)
    rw [List.length_map] at room
    rw [Wire.payload,List.append_assoc,List.length_map]
    refine reads_bind (reads_size bound (by rw [List.length_append]; omega) _) ?_
    rw [size_toNat bound,entriesBytes_map]
    have read : Takes (collect (do
      let k ← keys.read key 0 true
      let v ← values.read value 1 true
      pure (k,v)) m.length) (m.flatMap (fun e => (keys.wire e.1).bytes 0 ++ (values.wire e.2).bytes 1)) m :=
      takes_collect (fun e member => by
        have valid := valid.2.2 e member
        exact takes_bind (keys.takes_read valid.1 key 0 true)
          (takes_then (values.takes_read valid.2 value 1 true) (takes_pure (e.1,e.2))))
    have inserted : m.foldl (fun m entry => insertNew less entry.1 entry.2 m) [] = m :=
      (insert_ascending (m := []) valid.2.1)
    have whole := reads_map (read rest) (fun entries => entries.foldl (fun m entry => insertNew less entry.1 entry.2 m) [])
    rw [inserted,← bind_pure_comp] at whole
    exact whole

/-! ### Reads from a row -/

section
variable {c : Codec α} {a old : α} {tag : UInt8} {least : Nat} {row : List (UInt8 × Wire)} {rest : Bytes}

/-- A field that is there is read, whatever fields are around it. -/
theorem Codec.reads_present (c : Codec α) (ascending : Row row) (below : least ≤ tag.toNat)
    (present : row.lookup tag = some (c.wire a)) (valid : c.Valid a) (old : α) (isRequire : Bool) (rest : Bytes) :
    Reads (c.read old tag isRequire) (fieldsBytes (fieldsFrom least row) ++ rest) a
      (fieldsBytes (fieldsFrom (tag.toNat + 1) row) ++ rest) := by
  have seeks := seeks_present (row_fieldsFrom ascending least) ((lookup_fieldsFrom below).trans present) rest
  rw [fieldsFrom_fieldsFrom (Nat.le_succ_of_le below)] at seeks
  rw [c.fielded old tag isRequire]
  exact reads_bind (reads_skipToTag seeks) (c.takes a tag valid _)
private theorem seeks_missing (ascending : Row row) (below : least ≤ tag.toNat) (absent : row.lookup tag = none) (closes : Closes rest) :
    Seeks tag (fieldsBytes (fieldsFrom least row) ++ rest) none (fieldsBytes (fieldsFrom (tag.toNat + 1) row) ++ rest) := by
  have seeks := seeks_absent (row_fieldsFrom ascending least).fits ((lookup_fieldsFrom below).trans absent) closes
  rwa [fieldsFrom_fieldsFrom (Nat.le_succ_of_le below)] at seeks
/-- An optional field that is not there leaves the value. -/
theorem Codec.reads_missing (c : Codec α) (ascending : Row row) (below : least ≤ tag.toNat) (absent : row.lookup tag = none)
    (closes : Closes rest) (old : α) :
    Reads (c.read old tag false) (fieldsBytes (fieldsFrom least row) ++ rest) old
      (fieldsBytes (fieldsFrom (tag.toNat + 1) row) ++ rest) := by
  rw [c.fielded old tag false]
  exact reads_bind (reads_skipToTag (seeks_missing ascending below absent closes)) (reads_pure old _)
/-- A required field that is not there is reported with its tag. -/
theorem Codec.fails_missing (c : Codec α) (ascending : Row row) (below : least ≤ tag.toNat) (absent : row.lookup tag = none)
    (closes : Closes rest) (old : α) :
    Fails (c.read old tag true) (fieldsBytes (fieldsFrom least row) ++ rest)
      (.throws .requireNotExist (snprintf 64 (c.notExist tag))) := by
  rw [c.fielded old tag true]
  exact fails_later (reads_skipToTag (seeks_missing ascending below absent closes)) (fun front => ⟨standing front _,rfl⟩)

/-- A field that may be lacking when the value is the one that the reader starts with. -/
theorem Codec.reads_slot (c : Codec α) (old : α) (tag : UInt8) (isRequire : Bool) (ascending : Row row)
    (below : least ≤ tag.toNat) {lacking : Prop} (found : row.lookup tag = some (c.wire a) ∨ (lacking ∧ row.lookup tag = none))
    (valid : c.Valid a) (default : lacking → isRequire = false ∧ a = old) (closes : Closes rest) :
    Reads (c.read old tag isRequire) (fieldsBytes (fieldsFrom least row) ++ rest) a
      (fieldsBytes (fieldsFrom (tag.toNat + 1) row) ++ rest) := by
  rcases found with present | ⟨lacks,absent⟩
  · exact c.reads_present ascending below present valid old isRequire rest
  · obtain ⟨rfl,rfl⟩ := default lacks
    exact c.reads_missing ascending below absent closes a

end

/-- A field of a struct: whether the writer omits it, and when the reader does without it. -/
structure Slot where
  tag : UInt8
  wire : Wire
  omitted : Bool
  lacking : Prop
  covered : omitted = true → lacking

/-- A field that is always written and required. -/
def Slot.required (tag : UInt8) (wire : Wire) : Slot := ⟨tag,wire,false,False,by simp⟩
/-- A field that is always written and not required. -/
def Slot.always (tag : UInt8) (wire : Wire) (lacking : Prop) : Slot := ⟨tag,wire,false,lacking,by simp⟩
/-- A field that is omitted exactly when the reader does without it. -/
def Slot.optional (tag : UInt8) (wire : Wire) (lacking : Prop) [Decidable lacking] : Slot :=
  ⟨tag,wire,decide lacking,lacking,of_decide_eq_true⟩

section
variable (tag : UInt8) (wire : Wire) (lacking : Prop)
@[simp] theorem required_tag : (Slot.required tag wire).tag = tag := rfl
@[simp] theorem always_tag : (Slot.always tag wire lacking).tag = tag := rfl
@[simp] theorem optional_tag [Decidable lacking] : (Slot.optional tag wire lacking).tag = tag := rfl
@[simp] theorem required_lacking : (Slot.required tag wire).lacking = False := rfl
@[simp] theorem always_lacking : (Slot.always tag wire lacking).lacking = lacking := rfl
@[simp] theorem optional_lacking [Decidable lacking] : (Slot.optional tag wire lacking).lacking = lacking := rfl
@[simp] theorem optional_omitted [Decidable lacking] : (Slot.optional tag wire lacking).omitted = decide lacking := rfl
end

def Slot.bytes (slot : Slot) : Bytes := if slot.omitted then [] else slot.wire.bytes slot.tag
/-- The fields that are written. -/
def written (slots : List Slot) : List (UInt8 × Wire) :=
  slots.filterMap (fun slot => if slot.omitted then none else some (slot.tag,slot.wire))

theorem fieldsBytes_written (slot : Slot) (slots : List Slot) :
    fieldsBytes (written (slot :: slots)) = slot.bytes ++ fieldsBytes (written slots) := by
  unfold written Slot.bytes
  rw [List.filterMap_cons]
  split_ifs <;> simp [fieldsBytes,Wire.bytes]
theorem fieldsBytes_last (bytes : Bytes) : bytes ++ fieldsBytes (written []) = bytes := List.append_nil bytes
theorem fieldsBytes_zero (row : List (UInt8 × Wire)) : fieldsBytes (fieldsFrom 0 row) = fieldsBytes row := by rw [fieldsFrom_zero]
theorem row_written {slots : List Slot} (ascending : slots.Pairwise (fun s t => s.tag < t.tag))
    (fits : ∀ slot ∈ slots, slot.wire.Fits) : Row (written slots) := by
  constructor
  · refine List.Pairwise.filterMap _ (fun s t less => ?_) ascending
    rintro f from_s g from_t
    split_ifs at from_s from_t
    obtain rfl := Option.some.inj from_s
    obtain rfl := Option.some.inj from_t
    exact less
  · intro f member
    obtain ⟨slot,present,same⟩ := List.mem_filterMap.mp member
    split_ifs at same
    obtain rfl := Option.some.inj same
    exact fits slot present
private theorem lookup_written {slots : List Slot} (ascending : slots.Pairwise (fun s t => s.tag < t.tag)) {slot : Slot}
    (member : slot ∈ slots) : (written slots).lookup slot.tag = if slot.omitted then none else some slot.wire := by
  induction slots with
  | nil => cases member
  | cons s slots ih =>
    obtain ⟨first,rest⟩ := List.pairwise_cons.mp ascending
    rw [written,List.filterMap_cons,← written]
    rcases List.mem_cons.mp member with rfl | later
    · have absent : (written slots).lookup slot.tag = none := by
        refine List.lookup_eq_none_iff.mpr (fun f present => ?_)
        obtain ⟨t,among,same⟩ := List.mem_filterMap.mp present
        split_ifs at same
        obtain rfl := Option.some.inj same
        have other : slot.tag ≠ t.tag := fun same => by
          have := UInt8.lt_iff_toNat_lt.mp (first t among)
          rw [same] at this
          omega
        simpa using other
      split_ifs with omitted
      · exact absent
      · exact lookup_here (slot.tag,slot.wire) _
    · have other : ¬ slot.tag = s.tag := by
        have := UInt8.lt_iff_toNat_lt.mp (first slot later)
        exact fun same => by rw [same] at this; omega
      have passed := ih rest later
      by_cases here : s.omitted = true
      · simpa only [here,if_true] using passed
      · simp only [here,if_false,Bool.false_eq_true]
        exact (lookup_other other).trans passed

theorem writes_slot {slot : Slot} {write : TarsWrite} (present : slot.omitted = false)
    (writes : Writes write (slot.wire.bytes slot.tag)) : Writes write slot.bytes := by
  rw [Slot.bytes,present]
  exact writes
/-- A field that is written under a condition. -/
theorem writes_if {slot : Slot} {write : TarsWrite} {c : Prop} [Decidable c] (present : slot.omitted = decide (¬ c))
    (writes : Writes write (slot.wire.bytes slot.tag)) : Writes (writeIf c write) slot.bytes := by
  unfold writeIf Slot.bytes
  by_cases here : c
  · simpa [present,here] using writes
  · simpa [present,here] using writes_nothing

/-! ### Structs -/

/-- The row has the field, or lacks one that the reader does without. -/
def Slot.Found (slot : Slot) (row : List (UInt8 × Wire)) : Prop :=
  row.lookup slot.tag = some slot.wire ∨ (slot.lacking ∧ row.lookup slot.tag = none)

/-- What is known of a row from the slots whose fields it has. -/
theorem found_slots {slots : List Slot} (ascending : slots.Pairwise (fun s t => s.tag < t.tag)) {row : List (UInt8 × Wire)}
    (same : ∀ slot ∈ slots, row.lookup slot.tag = (written slots).lookup slot.tag) : ∀ slot ∈ slots, slot.Found row := by
  intro slot member
  rw [Slot.Found,same slot member,lookup_written ascending member]
  cases omitted : slot.omitted with
  | true => exact .inr ⟨slot.covered omitted,rfl⟩
  | false => exact .inl rfl

/-- A struct that is written as a row of fields. Its reader takes the value from every row that
    has the same fields for the tags of the struct, and stops behind the last of these. -/
structure StructCodec (α : Type) where
  writeTo : α → TarsWrite
  readFrom : TarsRead α
  slots : α → List Slot
  least : Nat
  Valid : α → Prop
  ascending : ∀ a, (slots a).Pairwise (fun s t => s.tag < t.tag)
  fits : ∀ a, Valid a → ∀ slot ∈ slots a, slot.wire.Fits
  writes : ∀ a, Valid a → Writes (writeTo a) (fieldsBytes (written (slots a)))
  reads : ∀ a, Valid a → ∀ row, Row row → (∀ slot ∈ slots a, slot.Found row) → ∀ rest, Closes rest → Reads readFrom (fieldsBytes row ++ rest) a (fieldsBytes (fieldsFrom least row) ++ rest)

theorem StructCodec.row (c : StructCodec α) {a : α} (valid : c.Valid a) : Row (written (c.slots a)) :=
  row_written (c.ascending a) (c.fits a valid)

/-- The field of a struct. -/
def StructCodec.codec (c : StructCodec α) : Codec α where
  write a := writeStruct (c.writeTo a)
  read := readStruct c.readFrom
  payload := structPayload c.readFrom
  notExist := notExistText
  Valid := c.Valid
  wire a := .struct (written (c.slots a))
  fielded _ _ _ := rfl
  fits a valid := .struct (c.row valid).fits
  writes a tag valid := by
    rw [Wire.bytes,Wire.payload]
    exact writes_then (writes_head .structBegin tag) (writes_then (c.writes a valid) (writes_head .structEnd 0))
  takes a tag valid rest := by
    have row := c.row valid
    have closes : Closes (headBytes .structEnd 0 ++ rest) := .inr ⟨0,rest,rfl⟩
    have skips : ∀ f ∈ fieldsFrom c.least (written (c.slots a)), Takes (skipField f.2.head) f.2.payload () :=
      fun f member => takes_skipField ((row_fieldsFrom row c.least).fits f member)
    rw [Wire.payload,List.append_assoc]
    exact reads_bind (c.reads a valid _ row (found_slots (c.ascending a) (fun _ _ => rfl)) _ closes)
      (reads_bind (reads_skipToStructEnd skips 0 rest) (reads_pure a rest))

end CppSdk.TarsCodecs

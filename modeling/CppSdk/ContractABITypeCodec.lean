import CppSdk.ContractABIType

/-!
The codec `ContractABITypeCodecSolImpl`: `serialize` appends the encoding of a tree to
a buffer, `deserialize` fills a tree from a position of a buffer. Sizes of buffers are
natural numbers; positions that the decoder computes from the words it reads are
`size_t`, and its cursor is an `int`.
-/
namespace CppSdk.ContractABITypeCodec
open CppSdk.ByteString CppSdk.Runtime CppSdk.ContractABIType

/-! ### Serialization -/

/-- `serialize(const u256&)`. -/
def serializeU256 (u : U256) (buffer : Bytes) : Bytes := buffer ++ word u.toNat
/-- `serialize(const s256&)`. -/
def serializeS256 (i : Int) (buffer : Bytes) : Bytes := buffer ++ word (s2u i).toNat
/-- `serialize(bool)`. -/
def serializeBool (b : Bool) (buffer : Bytes) : Bytes := serializeU256 (if b then 1 else 0) buffer
/-- `serialize(const Address&)`. -/
def serializeAddress (account buffer : Bytes) : Bytes := buffer ++ (List.replicate 12 0 ++ account)
/-- `serialize(bytes, int)`, for `bytesN`. -/
def serializeBytesN (value buffer : Bytes) : Call Bytes :=
  if 32 < value.length then
    throws (lit "bytesN length must be must be in range 0 < M <= 32, the real length is: " ++ stdToString value.length)
  else .ok (buffer ++ (value ++ List.replicate (32 - value.length) 0))
/-- `serialize(bytes)` and `serialize(const std::string&)`. -/
def serializeBytes (value buffer : Bytes) : Bytes :=
  buffer ++ (word value.length ++ populate value ((value.length + 31) / 32 * 32))

theorem serializeBytes_eq (value buffer : Bytes) :
    serializeBytes value buffer = buffer ++ (word value.length ++ padRight value) := by
  have room : value.length ≤ (value.length + 31) / 32 * 32 := by omega
  rw [serializeBytes,populate,List.take_of_length_le room,padRight,padded]

/-- The loop over the members of a struct that sums up `offsetAsBytes`. -/
def initialOffset (dynamicOffset : Nat) : List AbstractType → Call Nat
  | [] => .ok dynamicOffset
  | t :: ts => do initialOffset (dynamicOffset + (← offsetAsBytes t).toNat) ts

section
variable (U : Utilities)

mutual
/-- `serialize(const AbstractType&)`. -/
def serialize : AbstractType → Bytes → Call Bytes
  | .boolean _ value, buffer => .ok (serializeBool value buffer)
  | .uint _ _ value, buffer => .ok (serializeU256 value buffer)
  | .int _ _ value, buffer => .ok (serializeS256 value buffer)
  | .fixedBytes _ _ value, buffer => serializeBytesN value buffer
  | .addr _ value, buffer =>
    match U.address value with
    | .ok account => .ok (serializeAddress account buffer)
    | .error (.throws _) => throws (lit "invalid solidity address: " ++ value)
    | .error failure => .error failure
  | .string _ value, buffer => .ok (serializeBytes value buffer)
  | .dynamicBytes _ value, buffer => .ok (serializeBytes value buffer)
  | .dynamicList _ value, buffer => do
    let buffer := serializeU256 (BitVec.ofNat 256 value.length) buffer
    let (offsetBuffer,valueBuffer) ← serializeElements value (value.length * 32) [] []
    .ok (buffer ++ offsetBuffer ++ valueBuffer)
  | .fixedList _ _ value, buffer => do
    let (offsetBuffer,valueBuffer) ← serializeElements value (value.length * 32) [] []
    .ok (buffer ++ offsetBuffer ++ valueBuffer)
  | .struct _ value, buffer => do
    let dynamicOffset ← initialOffset 0 value
    let (fixedBuffer,dynamicBuffer) ← serializeMembers value dynamicOffset [] []
    .ok (buffer ++ fixedBuffer ++ dynamicBuffer)
/-- The loop over the elements of a list. -/
def serializeElements : List AbstractType → Nat → Bytes → Bytes → Call (Bytes × Bytes)
  | [], _, offsetBuffer, valueBuffer => .ok (offsetBuffer,valueBuffer)
  | t :: ts, offset, offsetBuffer, valueBuffer => do
    let tempBuffer ← serialize t []
    if ← dynamicType t then
      serializeElements ts (offset + tempBuffer.length) (serializeU256 (BitVec.ofNat 256 offset) offsetBuffer)
        (valueBuffer ++ tempBuffer)
    else serializeElements ts offset offsetBuffer (valueBuffer ++ tempBuffer)
/-- The loop over the members of a struct. -/
def serializeMembers : List AbstractType → Nat → Bytes → Bytes → Call (Bytes × Bytes)
  | [], _, fixedBuffer, dynamicBuffer => .ok (fixedBuffer,dynamicBuffer)
  | t :: ts, dynamicOffset, fixedBuffer, dynamicBuffer => do
    let tempBuffer ← serialize t []
    if ← dynamicType t then
      serializeMembers ts (dynamicOffset + tempBuffer.length)
        (serializeU256 (BitVec.ofNat 256 dynamicOffset) fixedBuffer) (dynamicBuffer ++ tempBuffer)
    else serializeMembers ts dynamicOffset (fixedBuffer ++ tempBuffer) dynamicBuffer
end

end

/-! ### Deserialization -/

/-- The use of a word of the buffer: as the offset of a dynamic component from its base,
    or as the length of the bytes after it, with the bytes that were read. -/
inductive Use where
  | offset (base : UInt64) (word : U256)
  | length (position : UInt64) (word : U256) (value : Bytes)

section
variable (U : Utilities) (ndebug : Bool) (buffer : Bytes)

/-- `verifyBufferOffset`. -/
def verifyBufferOffset (offset : UInt64) : Call Unit :=
  if buffer.length ≤ offset.toNat then
    throws (lit "abi encode exception for offset overflow, offset: " ++ stdToString offset.toNat ++
      lit " ,buffer length: " ++ stdToString buffer.length ++ lit " ,buffer: " ++ U.toHexString buffer)
  else .ok ()

/-- `deserialize(u256&)`. -/
def deserializeU256 (offset : UInt64) : Call U256 := do
  verifyBufferOffset U buffer (offset + 32 - 1)
  .ok (BitVec.ofNat 256 (fromBigEndian (getCroppedData buffer offset.toNat 32)))
/-- `deserialize(s256&)`. -/
def deserializeS256 (offset : UInt64) : Call Int := do .ok (u2s (← deserializeU256 U buffer offset))
/-- `deserialize(bool&)`. -/
def deserializeBool (offset : UInt64) : Call Bool := do .ok (decide (0 < (← deserializeU256 U buffer offset)))
/-- `deserialize(Address&)`. -/
def deserializeAddress (offset : UInt64) : Call Bytes := do
  verifyBufferOffset U buffer (offset + 32 - 1)
  .ok (populate (getCroppedData buffer (offset + 32 - 20).toNat 20) 20)
/-- `deserialize(bytes&, size_t _fixedN)`, for `bytesN`. -/
def deserializeBytesN (offset : UInt64) (fixedN : Nat) : Call Bytes := do
  if 32 < fixedN then
    throws (lit "bytesN length must be must be in range 0 < M <= 32, the real length is: " ++ stdToString fixedN)
  else
    verifyBufferOffset U buffer (offset + 32 - 1)
    .ok (getCroppedData buffer offset.toNat fixedN)
/-- `deserialize(bytes&)` and `deserialize(std::string&)`, with the length that was used. -/
def deserializeBytes (offset : UInt64) : Call (Bytes × Use) := do
  let len ← deserializeU256 U buffer offset
  verifyBufferOffset U buffer (offset + 32 + sizeOfWord len - 1)
  let value := getCroppedData buffer (offset + 32).toNat (sizeOfWord len).toNat
  .ok (value,.length offset len value)

/-- The `assert` on the offset of a component: lists and fixed lists have one. -/
abbrev OffsetCheck := U256 → Call Unit
/-- The `assert` of `T[]`. -/
def checkElementOffset : OffsetCheck := fun valueOffset =>
  assert ndebug "valueOffset >= 0 && valueOffset < LONG_MAX" (decide (valueOffset.toNat < 2 ^ 63 - 1))
/-- The `assert` of `T[N]`. -/
def checkMemberOffset : OffsetCheck := fun valueOffset =>
  assert ndebug "valueOffset > 0 && valueOffset < LONG_MAX"
    (decide (0 < valueOffset.toNat ∧ valueOffset.toNat < 2 ^ 63 - 1))

/-- The body of the loops over components: a dynamic one is decoded at the offset that
    the word at the cursor gives, a static one at the cursor. -/
def deserializeComponent (decode : UInt64 → Call (AbstractType × List Use)) (dynamic : Call Bool)
    (check : OffsetCheck) (base : UInt64) (cursor : Cursor) : Call (AbstractType × List Use × Cursor) := do
  if ← dynamic then
    let valueOffset ← deserializeU256 U buffer cursor.position
    check valueOffset
    let (tv,uses) ← decode (base + sizeOfWord valueOffset)
    .ok (tv,.offset base valueOffset :: uses,cursor.advance (← offsetAsBytes tv))
  else
    let (tv,uses) ← decode cursor.position
    .ok (tv,uses,cursor.advance (← offsetAsBytes tv))

/-- The loop of `T[]`, which appends `count` elements. -/
def deserializeElements (component : Cursor → Call (AbstractType × List Use × Cursor)) :
    Nat → Cursor → Call (List AbstractType × List Use)
  | 0, _ => .ok ([],[])
  | count + 1, cursor => do
    let (tv,uses,cursor) ← component cursor
    let (rest,more) ← deserializeElements component count cursor
    .ok (tv :: rest,uses ++ more)

mutual
/-- `deserialize(AbstractType&)`, with the words that it used as offsets and lengths.
    What `clone()` returns is the tree it is called on (`clone_same`), so a clone of
    the template is decoded as the template itself. -/
def deserializeUses : AbstractType → UInt64 → Call (AbstractType × List Use)
  | .boolean name _, offset => do .ok (.boolean name (← deserializeBool U buffer offset),[])
  | .uint name extent _, offset => do .ok (.uint name extent (← deserializeU256 U buffer offset),[])
  | .int name extent _, offset => do .ok (.int name extent (← deserializeS256 U buffer offset),[])
  | .fixedBytes name fixedN _, offset => do
    let value ← deserializeBytesN U buffer offset fixedN.1
    .ok (← setFixedBytes name fixedN value,[])
  | .addr name _, offset => do .ok (.addr name (U.hexPrefixed (← deserializeAddress U buffer offset)),[])
  | .string name _, offset => do
    let (value,use) ← deserializeBytes U buffer offset
    .ok (.string name value,[use])
  | .dynamicBytes name _, offset => do
    let (value,use) ← deserializeBytes U buffer offset
    .ok (.dynamicBytes name value,[use])
  | .dynamicList name value, offset => do
    let listSize ← deserializeU256 U buffer offset
    assert ndebug "listSize >= 0 && listSize < INT_MAX" (decide (listSize.toNat < 2 ^ 31 - 1))
    let base := offset + 32
    match value with
    | [] => .ok (.dynamicList name [],[])
    | templateTV :: _ => do
      let (elements,uses) ← deserializeElements (fun cursor => do
        let _ ← clone templateTV
        deserializeComponent U buffer (fun o => deserializeUses templateTV o) (dynamicType templateTV)
          (checkElementOffset ndebug) base cursor) listSize.toNat (cursorAt base)
      -- the index is a `size_t`, which never reaches such a size
      if 2 ^ 64 ≤ listSize.toNat then .error .diverges else .ok (.dynamicList name elements,uses)
  | .fixedList name dimension value, offset => do
    assert ndebug "listSize == fixedListRef.value().size()" (decide (dimension.toNat = value.length))
    let (members,uses) ← deserializeMembers (checkMemberOffset ndebug) offset value dimension.toNat (cursorAt offset)
    .ok (.fixedList name dimension members,uses)
  | .struct name value, offset => do
    let (members,uses) ← deserializeMembers (fun _ => .ok ()) offset value value.length (cursorAt offset)
    .ok (.struct name members,uses)
/-- The loop over the first `count` members of a fixed list or of a struct. -/
def deserializeMembers (check : OffsetCheck) (base : UInt64) :
    List AbstractType → Nat → Cursor → Call (List AbstractType × List Use)
  | ts, 0, _ => .ok (ts,[])
  | [], _ + 1, _ => .error .undefined
  | t :: ts, count + 1, cursor => do
    let (tv,uses,cursor) ← deserializeComponent U buffer (fun o => deserializeUses t o) (dynamicType t) check base cursor
    let (rest,more) ← deserializeMembers check base ts count cursor
    .ok (tv :: rest,uses ++ more)
end

/-- `deserialize(AbstractType&)`: the tree as it is left. -/
def deserialize (out : AbstractType) (offset : UInt64) : Call AbstractType := do
  .ok (← deserializeUses U ndebug buffer out offset).1

end

/-! ### What is inside the buffer -/

section
variable {U : Utilities} {buffer : Bytes}

theorem verifyBufferOffset_iff {offset : UInt64} : verifyBufferOffset U buffer offset = .ok () ↔ offset.toNat < buffer.length := by
  by_cases outside : buffer.length ≤ offset.toNat
  · rw [verifyBufferOffset,if_pos outside]
    exact iff_of_false (fun failed => by cases failed) (by omega)
  · rw [verifyBufferOffset,if_neg outside]
    exact iff_of_true rfl (by omega)
/-- A word is read exactly where its last byte is inside. -/
theorem deserializeU256_iff {offset : UInt64} {w : U256} :
    deserializeU256 U buffer offset = .ok w ↔ WordInside buffer offset ∧ w = wordAt buffer offset := by
  rw [deserializeU256,bind_ok,last_word]
  constructor
  · rintro ⟨⟨⟩,verified,⟨⟩⟩
    exact ⟨verifyBufferOffset_iff.mp verified,rfl⟩
  · rintro ⟨inside,rfl⟩
    exact ⟨(),verifyBufferOffset_iff.mpr inside,rfl⟩

private theorem wordInside_unwrapped {offset : UInt64} (inside : WordInside buffer offset) (small : offset.toNat + 31 < 2 ^ 64) :
    offset.toNat + 32 ≤ buffer.length := by
  have last : (offset + 31).toNat = offset.toNat + 31 := add_toNat (by simpa using small)
  rw [WordInside,last] at inside
  exact inside
theorem verified_inside {offset : UInt64} (verified : verifyBufferOffset U buffer (offset + 32 - 1) = .ok ())
    (small : offset.toNat + 31 < 2 ^ 64) : offset.toNat + 32 ≤ buffer.length := by
  rw [last_word] at verified
  exact wordInside_unwrapped (verifyBufferOffset_iff.mp verified) small
theorem deserializeU256_inside {offset : UInt64} {w : U256} (read : deserializeU256 U buffer offset = .ok w)
    (small : offset.toNat + 31 < 2 ^ 64) : offset.toNat + 32 ≤ buffer.length :=
  wordInside_unwrapped (deserializeU256_iff.mp read).1 small

end

/-! ### What a tree is decoded from -/

section
variable {U : Utilities} {ndebug : Bool} {buffer name : Bytes} {value : List AbstractType} {offset : UInt64} {out : AbstractType}
  {uses : List Use}

theorem decoded_fixedBytes {fixedN : FixedN} {content : Bytes}
    (decoded : deserializeUses U ndebug buffer (.fixedBytes name fixedN content) offset = .ok (out,uses)) :
    ∃ bytes, deserializeBytesN U buffer offset fixedN.1 = .ok bytes ∧ out = .fixedBytes name fixedN bytes ∧ uses = [] := by
  obtain ⟨bytes,read,set⟩ := bind_ok.mp decoded
  obtain ⟨tree,stored,⟨⟩⟩ := bind_ok.mp set
  unfold setFixedBytes at stored
  split at stored
  · exact ⟨bytes,read,(Except.ok.inj stored).symm,rfl⟩
  · cases stored
/-- A list holds nothing where its template does, or what the loop over its elements returns. -/
theorem decoded_dynamicList (decoded : deserializeUses U ndebug buffer (.dynamicList name value) offset = .ok (out,uses)) :
    ∃ listSize, deserializeU256 U buffer offset = .ok listSize ∧
      ((value = [] ∧ out = .dynamicList name [] ∧ uses = []) ∨ ∃ template others elements, value = template :: others ∧
        deserializeElements (fun cursor => do
          let _ ← clone template
          deserializeComponent U buffer (fun o => deserializeUses U ndebug buffer template o) (dynamicType template)
            (checkElementOffset ndebug) (offset + 32) cursor) listSize.toNat (cursorAt (offset + 32)) = .ok (elements,uses) ∧
        out = .dynamicList name elements) := by
  rw [deserializeUses] at decoded
  obtain ⟨listSize,header,more⟩ := bind_ok.mp decoded
  obtain ⟨⟨⟩,_,rest⟩ := bind_ok.mp more
  refine ⟨listSize,header,?_⟩
  cases value with
  | nil =>
    cases rest
    exact .inl ⟨rfl,rfl,rfl⟩
  | cons template others =>
    obtain ⟨⟨elements,used⟩,looped,ended⟩ := bind_ok.mp rest
    by_cases endless : 2 ^ 64 ≤ listSize.toNat
    · cases (if_pos endless).symm.trans ended
    · cases (if_neg endless).symm.trans ended
      exact .inr ⟨template,others,elements,rfl,looped,rfl⟩
theorem decoded_fixedList {dimension : UInt32}
    (decoded : deserializeUses U ndebug buffer (.fixedList name dimension value) offset = .ok (out,uses)) :
    ∃ members, deserializeMembers U ndebug buffer (checkMemberOffset ndebug) offset value dimension.toNat (cursorAt offset) =
      .ok (members,uses) ∧ out = .fixedList name dimension members := by
  rw [deserializeUses] at decoded
  obtain ⟨⟨⟩,_,more⟩ := bind_ok.mp decoded
  obtain ⟨⟨members,used⟩,looped,⟨⟩⟩ := bind_ok.mp more
  exact ⟨members,looped,rfl⟩
theorem decoded_struct (decoded : deserializeUses U ndebug buffer (.struct name value) offset = .ok (out,uses)) :
    ∃ members, deserializeMembers U ndebug buffer (fun _ => .ok ()) offset value value.length (cursorAt offset) =
      .ok (members,uses) ∧ out = .struct name members := by
  rw [deserializeUses] at decoded
  obtain ⟨⟨members,used⟩,looped,⟨⟩⟩ := bind_ok.mp decoded
  exact ⟨members,looped,rfl⟩

end

end CppSdk.ContractABITypeCodec

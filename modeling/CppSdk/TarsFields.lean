import CppSdk.TarsSafety

/-!
The bytes of a field as a tree (`Wire`): what the writers of `Tars.h` write, what `skipField`
moves over, and what the search for a tag finds in a row of fields.
-/
namespace CppSdk.TarsFields
open CppSdk.ByteString CppSdk.Runtime CppSdk.Cursors CppSdk.TarsStream CppSdk.TarsSafety

/-! ### Heads -/

/-- The bytes of a head. -/
def headBytes (type : HeadType) (tag : UInt8) : Bytes :=
  if tag < 15 then [type.code + (tag <<< 4)] else [type.code + 240,tag]

private theorem code_lt (type : HeadType) : type.code.toNat < 16 := by
  cases type with
  | unnamed last => cases last <;> decide
  | _ => decide
private theorem ofCode_code (type : HeadType) : HeadType.ofCode type.code = type := by
  cases type with
  | unnamed last => cases last <;> rfl
  | _ => rfl

private theorem shifted {code high : UInt8} (low : code.toNat < 16) (small : high.toNat < 16) :
    (code + (high <<< 4)) >>> 4 = high ∧ (code + (high <<< 4)) &&& 15 = code := by
  have sum : (code + (high <<< 4)).toNat = code.toNat + 16 * high.toNat := by
    rw [UInt8.toNat_add,UInt8.toNat_shiftLeft,Nat.shiftLeft_eq]
    simp
    omega
  constructor
  · apply UInt8.toNat_inj.mp
    rw [UInt8.toNat_shiftRight,sum,Nat.shiftRight_eq_div_pow]
    simp
    omega
  · apply UInt8.toNat_inj.mp
    rw [UInt8.toNat_and,sum,show (15 : UInt8).toNat = 2 ^ 4 - 1 from rfl,Nat.and_two_pow_sub_one_eq_mod]
    omega

theorem headBytes_pos (type : HeadType) (tag : UInt8) : 0 < (headBytes type tag).length := by
  unfold headBytes
  split <;> simp

/-- The head that the bytes stand for. -/
theorem head_standing (front : Bytes) (type : HeadType) (tag : UInt8) (rest : Bytes) :
    headAt (standing front (headBytes type tag ++ rest)) = ⟨type,tag⟩ ∧
      headSize (standing front (headBytes type tag ++ rest)) = (headBytes type tag).length := by
  unfold headAt headSize headBytes byteAt standing
  by_cases small : tag < 15
  · have bound : tag.toNat < 15 := UInt8.lt_iff_toNat_lt.mp small
    obtain ⟨high,low⟩ := shifted (code_lt type) (show tag.toNat < 16 by omega)
    have other : tag ≠ 15 := fun same => by rw [same] at bound; exact absurd bound (by decide)
    simp [small,high,low,ofCode_code,other]
  · obtain ⟨high,low⟩ := shifted (code_lt type) (show (15 : UInt8).toNat < 16 by decide)
    have same : type.code + ((15 : UInt8) <<< 4) = type.code + (240 : UInt8) := rfl
    rw [same] at high low
    simp [small,high,low,ofCode_code]

private theorem behindHead_standing (front : Bytes) (type : HeadType) (tag : UInt8) (rest : Bytes) :
    behindHead (standing front (headBytes type tag ++ rest)) = standing (front ++ headBytes type tag) rest := by
  rw [standing_append,behindHead,(head_standing front type tag rest).2]
  rfl
private theorem inside_standing (front : Bytes) (type : HeadType) (tag : UInt8) (rest : Bytes) :
    ¬ (standing front (headBytes type tag ++ rest)).buf.length <
      (standing front (headBytes type tag ++ rest)).cur + headSize (standing front (headBytes type tag ++ rest)) := by
  rw [(head_standing front type tag rest).2]
  simp

theorem takes_readFromHead (type : HeadType) (tag : UInt8) : Takes readFromHead (headBytes type tag) ⟨type,tag⟩ := by
  intro rest front
  refine ⟨front ++ headBytes type tag,by simp,?_⟩
  rw [readFromHead_run,if_neg (inside_standing front type tag rest),(head_standing front type tag rest).1]
  exact congrArg _ (behindHead_standing front type tag rest)
private theorem takes_readFromHeadNoTag (type : HeadType) (tag : UInt8) : Takes readFromHeadNoTag (headBytes type tag) type := by
  intro rest front
  refine ⟨front ++ headBytes type tag,by simp,?_⟩
  rw [readFromHeadNoTag_run,if_neg (inside_standing front type tag rest),(head_standing front type tag rest).1]
  exact congrArg _ (behindHead_standing front type tag rest)

/-! ### Bytes -/

theorem takes_readTypeBuf (bytes : Bytes) : Takes (readTypeBuf bytes.length) bytes bytes := by
  intro rest front
  refine ⟨front ++ bytes,by simp,?_⟩
  rw [readTypeBuf_run,if_neg (by simp),standing_append]
  simp [standing]
theorem takes_readBuf (bytes : Bytes) : Takes (readBuf bytes.length) bytes bytes := by
  intro rest front
  refine ⟨front ++ bytes,by simp,?_⟩
  rw [readBuf_run,if_neg (by simp),standing_append]
  simp [standing]
private theorem takes_readHeadSkip (bytes : Bytes) : Takes (readHeadSkip bytes.length) bytes () := by
  intro rest front
  refine ⟨front ++ bytes,by simp,?_⟩
  rw [standing_append]
  rfl
theorem takes_number {size : Nat} {n : Nat} (bound : n < 256 ^ size) :
    Takes (fromBigEndian <$> readTypeBuf size) (toBigEndian size n) n := by
  have whole := takes_map (takes_readTypeBuf (toBigEndian size n)) fromBigEndian
  rwa [toBigEndian_length,fromBigEndian_toBigEndian,Nat.mod_eq_of_lt bound] at whole

/-! ### Fields -/

/-- What follows a head. An integer has its shortest form, a list of `Char`s is one run of
    bytes, and the sizes are those that the writers write. -/
inductive Wire where
  | integer (i : Int)
  | float (content : Bytes)
  | double (content : Bytes)
  | string (content : Bytes)
  | chars (content : Bytes)
  | list (elements : List Wire)
  | map (entries : List (Wire × Wire))
  | struct (fields : List (UInt8 × Wire))

/-- The narrowest width that has the integer. -/
def narrowest (i : Int) : Width :=
  if -128 ≤ i ∧ i ≤ 127 then .char
  else if -32768 ≤ i ∧ i ≤ 32767 then .short
  else if -2147483648 ≤ i ∧ i ≤ 2147483647 then .int32
  else .int64
def integerHead (i : Int) : HeadType := if i = 0 then .zeroTag else (narrowest i).head
def integerBytes (i : Int) : Bytes :=
  if i = 0 then [] else toBigEndian (narrowest i).size (i % 256 ^ (narrowest i).size).toNat

def Wire.head : Wire → HeadType
  | .integer i => integerHead i
  | .float _ => .float
  | .double _ => .double
  | .string content => if 255 < content.length then .string4 else .string1
  | .chars _ => .simpleList
  | .list _ => .list
  | .map _ => .map
  | .struct _ => .structBegin

/-- The bytes of the size of a container: a field with the tag 0. -/
def sizeBytes (size : Nat) : Bytes :=
  headBytes (integerHead (Int32.ofNat size).toInt) 0 ++ integerBytes (Int32.ofNat size).toInt

mutual
/-- The bytes behind the head. -/
def Wire.payload : Wire → Bytes
  | .integer i => integerBytes i
  | .float content => content
  | .double content => content
  | .string content =>
    (if 255 < content.length then toBigEndian 4 content.length else toBigEndian 1 content.length) ++ content
  | .chars content => headBytes .char 0 ++ (sizeBytes content.length ++ content)
  | .list elements => sizeBytes elements.length ++ elementsBytes elements
  | .map entries => sizeBytes entries.length ++ entriesBytes entries
  | .struct fields => fieldsBytes fields ++ headBytes .structEnd 0
/-- The elements of a list, with the tag 0. -/
def elementsBytes : List Wire → Bytes
  | [] => []
  | w :: rest => headBytes w.head 0 ++ w.payload ++ elementsBytes rest
/-- The entries of a map: keys with the tag 0 and values with the tag 1. -/
def entriesBytes : List (Wire × Wire) → Bytes
  | [] => []
  | (key,value) :: rest => (headBytes key.head 0 ++ key.payload) ++ (headBytes value.head 1 ++ value.payload) ++ entriesBytes rest
/-- Fields with their tags. -/
def fieldsBytes : List (UInt8 × Wire) → Bytes
  | [] => []
  | (tag,w) :: rest => headBytes w.head tag ++ w.payload ++ fieldsBytes rest
end

/-- A field with its head. -/
def Wire.bytes (tag : UInt8) (w : Wire) : Bytes := headBytes w.head tag ++ w.payload

/-- What is written is in the ranges of the formats. -/
inductive Wire.Fits : Wire → Prop
  | integer {i : Int} (low : -9223372036854775808 ≤ i) (high : i ≤ 9223372036854775807) : Fits (.integer i)
  | float {content : Bytes} (size : content.length = 4) : Fits (.float content)
  | double {content : Bytes} (size : content.length = 8) : Fits (.double content)
  | string {content : Bytes} (size : content.length ≤ tarsMaxStringLength) : Fits (.string content)
  | chars {content : Bytes} (size : content.length < 4294967296) : Fits (.chars content)
  | list {elements : List Wire} (size : elements.length < 4294967296) (each : ∀ w ∈ elements, Fits w) : Fits (.list elements)
  | map {entries : List (Wire × Wire)} (size : entries.length < 2147483648) (keys : ∀ e ∈ entries, Fits e.1)
      (values : ∀ e ∈ entries, Fits e.2) : Fits (.map entries)
  | struct {fields : List (UInt8 × Wire)} (each : ∀ f ∈ fields, Fits f.2) : Fits (.struct fields)

/-! ### The search for a tag -/

/-- Fields end here: at the end of the buffer or of a struct. -/
def Closes (rest : Bytes) : Prop := rest = [] ∨ ∃ tag more, rest = headBytes .structEnd tag ++ more
/-- The search finds what it gives behind the fields that it passes. -/
abbrev Seeks (tag : UInt8) (p : Bytes) (found : Option DataHead) (q : Bytes) : Prop :=
  LoopReads .diverges (skipToTagRound skipField tag) () p found q

theorem reads_skipToTag {tag : UInt8} {p q : Bytes} {found : Option DataHead} (seeks : Seeks tag p found q) :
    Reads (skipToTag tag) p found q := reads_catch (reads_loop seeks)

section
variable {tag : UInt8}

private theorem seeks_end (tag : UInt8) : Seeks tag [] none [] := by
  refine loopReads_done (fun front => ⟨front,rfl,?_⟩)
  rw [skipToTagRound_run,if_neg (by simp),if_pos (by simp)]
/-- A round before a head. -/
theorem round_head (tag : UInt8) (type : HeadType) (tag' : UInt8) (front rest : Bytes) :
    (skipToTagRound skipField tag ()).run (standing front (headBytes type tag' ++ rest)) =
      if type = .structEnd ∨ tag < tag' then (.ok (.inr none),standing front (headBytes type tag' ++ rest))
      else if tag = tag' then (.ok (.inr (some ⟨type,tag'⟩)),standing (front ++ headBytes type tag') rest)
      else (do
        skipField type
        pure (.inl ()) : TarsRead (Unit ⊕ Option DataHead)).run (standing (front ++ headBytes type tag') rest) := by
  have some_bytes := headBytes_pos type tag'
  have inside := inside_standing front type tag' rest
  rw [skipToTagRound_run,if_neg (by simp),if_neg (by simp only [standing_buf,standing_cur,List.length_append]; omega),if_neg inside,(head_standing front type tag' rest).1,
    behindHead_standing]

theorem seeks_stop {type : HeadType} {tag' : UInt8} (stops : type = .structEnd ∨ tag < tag') (rest : Bytes) :
    Seeks tag (headBytes type tag' ++ rest) none (headBytes type tag' ++ rest) := by
  refine loopReads_done (fun front => ⟨front,rfl,?_⟩)
  rw [round_head,if_pos stops]
theorem seeks_closes {rest : Bytes} (ends : Closes rest) : Seeks tag rest none rest := by
  rcases ends with rfl | ⟨tag',more,rfl⟩
  · exact seeks_end tag
  · exact seeks_stop (.inl rfl) more
theorem seeks_found {type : HeadType} (other : type ≠ .structEnd) (rest : Bytes) :
    Seeks tag (headBytes type tag ++ rest) (some ⟨type,tag⟩) rest := by
  refine loopReads_done (fun front => ⟨front ++ headBytes type tag,by simp,?_⟩)
  rw [round_head,if_neg (by simp [other]),if_pos rfl]
private theorem seeks_past {type : HeadType} {tag' : UInt8} {payload p q : Bytes} {found : Option DataHead} (other : type ≠ .structEnd)
    (before : tag' < tag) (skips : Takes (skipField type) payload ()) (later : Seeks tag p found q) :
    Seeks tag (headBytes type tag' ++ payload ++ p) found q := by
  have some_bytes := headBytes_pos type tag'
  refine loopReads_next ?_ (q := p) (by simp; omega) later
  intro front
  rw [List.append_assoc,round_head,if_neg (by simp [other,UInt8.le_of_lt before]),
    if_neg (fun same => by rw [same] at before; exact absurd before (UInt8.lt_irrefl _))]
  have round : Reads (do
      skipField type
      pure (.inl ()) : TarsRead (Unit ⊕ Option DataHead)) (payload ++ p) (.inl ()) p := reads_bind (skips p) (reads_pure _ p)
  obtain ⟨front',same,ran⟩ := round (front ++ headBytes type tag')
  exact ⟨front',by rw [same]; simp,ran⟩

end

/-! ### Integers -/

/-- The integers of a width. -/
def Width.Holds (width : Width) (i : Int) : Prop := -(2 ^ (8 * width.size - 1) : Int) ≤ i ∧ i < 2 ^ (8 * width.size - 1)

private theorem narrowest_holds {i : Int} (low : -9223372036854775808 ≤ i) (high : i ≤ 9223372036854775807) :
    Width.Holds (narrowest i) i := by
  unfold narrowest Width.Holds
  split_ifs <;> simp only [Width.size] <;> norm_num <;> omega
/-- The widths that hold an integer are those from the narrowest on. -/
theorem holds_iff {i : Int} (low : -9223372036854775808 ≤ i) (high : i ≤ 9223372036854775807) (width : Width) :
    Width.Holds width i ↔ (narrowest i).size ≤ width.size := by
  unfold narrowest Width.Holds
  cases width <;> split_ifs <;> simp only [Width.size] <;> norm_num <;> omega

private theorem signedBigEndian_of_holds {width : Width} {i : Int} (holds : Width.Holds width i) :
    signedBigEndian (toBigEndian width.size (i % 256 ^ width.size).toNat) = i := by
  obtain ⟨low,high⟩ := holds
  have positive : (0 : Int) < 256 ^ width.size := by positivity
  have bound : (i % 256 ^ width.size).toNat < 256 ^ width.size := by
    apply (Int.toNat_lt (Int.emod_nonneg i positive.ne')).mpr
    exact_mod_cast Int.emod_lt_of_pos i positive
  rw [signedBigEndian,fromBigEndian_toBigEndian,Nat.mod_eq_of_lt bound,toBigEndian_length,
    Int.toNat_of_nonneg (Int.emod_nonneg i positive.ne')]
  rw [show (256 : Int) ^ width.size = (256 ^ width.size : Nat) by push_cast; rfl,Int.emod_bmod]
  apply Int.bmod_eq_of_le <;> cases width <;> simp only [Width.size] at * <;> norm_num at * <;> omega

private theorem ofHead_head (width : Width) : Width.ofHead width.head = some width := by cases width <;> rfl
private theorem head_ne (width : Width) : width.head ≠ .zeroTag ∧ width.head ≠ .structEnd := by cases width <;> decide

/-- A width takes every integer that it holds, in its shortest form. -/
theorem takes_integer {width : Width} {i : Int} (holds : Width.Holds width i) (tag : UInt8) (tag' : UInt8) :
    Takes (integerPayload width tag ⟨integerHead i,tag'⟩) (integerBytes i) i := by
  have range : -9223372036854775808 ≤ i ∧ i ≤ 9223372036854775807 := by
    obtain ⟨low,high⟩ := holds
    cases width <;> simp only [Width.size] at low high <;> norm_num at low high <;> omega
  unfold integerPayload integerHead integerBytes
  by_cases zero : i = 0
  · simp only [if_pos zero,if_true]
    rw [zero]
    exact takes_pure 0
  · simp only [if_neg zero,if_neg (head_ne (narrowest i)).1,ofHead_head,if_pos ((holds_iff range.1 range.2 width).mp holds)]
    have bytes := takes_map (takes_readTypeBuf (toBigEndian (narrowest i).size (i % 256 ^ (narrowest i).size).toNat)) signedBigEndian
    rwa [toBigEndian_length,signedBigEndian_of_holds (narrowest_holds range.1 range.2)] at bytes
/-- It refuses every other one. -/
theorem fails_integer {width : Width} {i : Int} (low : -9223372036854775808 ≤ i) (high : i ≤ 9223372036854775807)
    (outside : ¬ Width.Holds width i) (tag : UInt8) (head : DataHead) (type : head.type = integerHead i) (rest : Bytes) :
    Fails (integerPayload width tag head) rest (.throws .mismatch (snprintf 64 (width.mismatch tag head))) := by
  have other : i ≠ 0 := by
    rintro rfl
    exact outside (by cases width <;> simp [Width.Holds,Width.size])
  rw [integerHead,if_neg other] at type
  intro front
  refine ⟨standing front rest,?_⟩
  unfold integerPayload
  rw [if_neg (by rw [type]; exact (head_ne _).1),type,ofHead_head]
  simp only [if_neg (fun fits => outside ((holds_iff low high width).mpr fits))]
  rfl

theorem integerHead_ne (i : Int) : integerHead i ≠ .structEnd := by
  unfold integerHead
  split
  · decide
  · exact (head_ne _).2
theorem head_ne_structEnd (w : Wire) : w.head ≠ .structEnd := by
  cases w with
  | integer i => exact integerHead_ne i
  | string content =>
    simp only [Wire.head]
    split <;> decide
  | _ => simp [Wire.head]

/-- The size of a container as it is read. -/
theorem takes_size (size : Nat) : Takes (readUInt32With skipField 0 0 true) (sizeBytes size) (UInt32.ofNat size) := by
  have holds : Width.Holds .int64 (Int32.ofNat size).toInt := by
    have := (Int32.ofNat size).toInt_lt
    have := (Int32.ofNat size).le_toInt
    generalize (Int32.ofNat size).toInt = i at *
    simp only [Width.Holds,Width.size]
    norm_num
    omega
  have integer : Takes (readIntegerWith skipField .int64 (0 : UInt32).toNat 0 true) (sizeBytes size) (Int32.ofNat size).toInt := by
    intro rest
    rw [sizeBytes,List.append_assoc]
    exact reads_bind (reads_skipToTag (seeks_found (integerHead_ne _) _)) (takes_integer holds 0 0 rest)
  have whole : Takes (readUInt32With skipField 0 0 true) (sizeBytes size)
      (UInt32.ofNat ((Int32.ofNat size).toInt % 4294967296).toNat) := takes_then integer (takes_pure _)
  have same : (Int32.ofNat size).toInt % 4294967296 = (size % 4294967296 : Nat) := by
    rw [Int32.toInt_ofNat']
    exact (Int.bmod_emod).trans (by push_cast; rfl)
  rw [same,Int.toNat_natCast] at whole
  have reduced : UInt32.ofNat (size % 4294967296) = UInt32.ofNat size := UInt32.toNat_inj.mp (by simp)
  rwa [reduced] at whole

/-! ### Skipping -/

theorem elementsBytes_eq (elements : List Wire) : elementsBytes elements = (elements.map (Wire.bytes 0)).flatten := by
  induction elements with
  | nil => rfl
  | cons w rest ih => simp [elementsBytes,Wire.bytes,ih]
/-- The fields of the entries of a map, one after the other. -/
def entryFields (entries : List (Wire × Wire)) : List Bytes := entries.flatMap (fun e => [e.1.bytes 0,e.2.bytes 1])

private theorem entriesBytes_eq (entries : List (Wire × Wire)) : entriesBytes entries = (entryFields entries).flatten := by
  induction entries with
  | nil => rfl
  | cons e rest ih =>
    simp only [entryFields,List.flatMap_cons,List.flatten_append] at ih ⊢
    simp [entriesBytes,Wire.bytes,ih]
private theorem entryFields_length (entries : List (Wire × Wire)) : (entryFields entries).length = 2 * entries.length := by
  induction entries with
  | nil => rfl
  | cons e rest ih =>
    simp only [entryFields,List.flatMap_cons,List.length_append,List.length_cons,List.length_nil] at ih ⊢
    omega

private theorem takes_skipField_of {type : HeadType} {payload : Bytes} (takes : Takes (skipFieldWith skipField type) payload ()) :
    Takes (skipField type) payload () := by
  intro rest front
  obtain ⟨front',same,ran⟩ := takes rest front
  exact ⟨front',same,by rw [skipField_eq type (by simp [Buffered.Inside]),ran]⟩
/-- A field with its head. -/
theorem takes_headed {w : Wire} (skips : Takes (skipField w.head) w.payload ()) (tag : UInt8) :
    Takes (skipHeadedWith skipField) (w.bytes tag) () := takes_bind (takes_readFromHeadNoTag w.head tag) skips

private theorem takes_skipStructEnd : Takes (skipField .structEnd) [] () :=
  takes_skipField_of (show Takes (skipFieldWith skipField .structEnd) [] () from takes_pure ())
private theorem loopReads_structEnd {fields : List (UInt8 × Wire)} (skips : ∀ f ∈ fields, Takes (skipField f.2.head) f.2.payload ())
    (tag : UInt8) (rest : Bytes) :
    LoopReads .diverges (skipToStructEndRound skipField) () (fieldsBytes fields ++ (headBytes .structEnd tag ++ rest)) () rest := by
  induction fields with
  | nil =>
    refine loopReads_done (reads_bind (takes_readFromHeadNoTag .structEnd tag rest) ?_)
    exact reads_bind (takes_skipStructEnd rest) (reads_pure _ rest)
  | cons f fields ih =>
    rw [List.forall_mem_cons] at skips
    have some_bytes := headBytes_pos f.2.head f.1
    refine loopReads_next ?_ (q := fieldsBytes fields ++ (headBytes .structEnd tag ++ rest)) ?_ (ih skips.2)
    · simp only [fieldsBytes,List.append_assoc]
      refine reads_bind (takes_readFromHeadNoTag f.2.head f.1 _) (reads_bind (skips.1 _) ?_)
      rw [if_neg (head_ne_structEnd f.2)]
      exact reads_pure _ _
    · simp only [fieldsBytes,List.length_append]
      omega
/-- From within a struct to its end. -/
theorem reads_skipToStructEnd {fields : List (UInt8 × Wire)} (skips : ∀ f ∈ fields, Takes (skipField f.2.head) f.2.payload ())
    (tag : UInt8) (rest : Bytes) : Reads skipToStructEnd (fieldsBytes fields ++ (headBytes .structEnd tag ++ rest)) () rest :=
  reads_loop (loopReads_structEnd skips tag rest)

private theorem takes_skipInteger (i : Int) : Takes (skipFieldWith skipField (integerHead i)) (integerBytes i) () := by
  unfold integerHead integerBytes
  by_cases zero : i = 0
  · simp only [if_pos zero]
    exact takes_pure ()
  · simp only [if_neg zero]
    generalize (i % 256 ^ (narrowest i).size).toNat = n
    generalize narrowest i = width
    have skip := takes_readHeadSkip (toBigEndian width.size n)
    rw [toBigEndian_length] at skip
    cases width <;> exact skip

/-- `skipField` moves over every field that the writers write, however deep it nests. -/
theorem takes_skipField {w : Wire} (fits : w.Fits) : Takes (skipField w.head) w.payload () := by
  induction fits with
  | @integer i low high => exact takes_skipField_of (takes_skipInteger i)
  | @float content size =>
    have skip := takes_readHeadSkip content
    rw [size] at skip
    exact takes_skipField_of skip
  | @double content size =>
    have skip := takes_readHeadSkip content
    rw [size] at skip
    exact takes_skipField_of skip
  | @string content size =>
    refine takes_skipField_of ?_
    have bound : content.length < 4294967296 := Nat.lt_of_le_of_lt size (by decide)
    have content_skipped : ∀ digits, Takes (readTypeBuf digits.length) digits digits →
        fromBigEndian digits = content.length →
        Takes (readTypeBuf digits.length >>= fun len => readHeadSkip (fromBigEndian len)) (digits ++ content) () := by
      intro digits read same
      refine takes_bind read ?_
      rw [same]
      exact takes_readHeadSkip content
    simp only [Wire.head,Wire.payload]
    split_ifs with long
    · have whole := content_skipped _ (takes_readTypeBuf (toBigEndian 4 content.length))
        (by rw [fromBigEndian_toBigEndian]; omega)
      rwa [toBigEndian_length] at whole
    · have whole := content_skipped _ (takes_readTypeBuf (toBigEndian 1 content.length))
        (by rw [fromBigEndian_toBigEndian]; omega)
      rwa [toBigEndian_length] at whole
  | @chars content size =>
    refine takes_skipField_of ?_
    have read : (UInt32.ofNat content.length).toNat = content.length := by
      rw [UInt32.toNat_ofNat']
      omega
    refine takes_bind (takes_readFromHead .char 0) ?_
    refine takes_bind (takes_size content.length) ?_
    rw [read]
    exact takes_readHeadSkip content
  | @list elements size each ih =>
    refine takes_skipField_of ?_
    have read : (UInt32.ofNat elements.length).toNat = elements.length := by
      rw [UInt32.toNat_ofNat']
      omega
    refine takes_bind (takes_size elements.length) ?_
    rw [read,elementsBytes_eq,← List.length_map (Wire.bytes 0)]
    refine takes_times (fun bytes member => ?_)
    obtain ⟨w,present,rfl⟩ := List.mem_map.mp member
    exact takes_headed (ih w present) 0
  | @map entries size keys values keysSkipped valuesSkipped =>
    refine takes_skipField_of ?_
    have read : (UInt32.ofNat entries.length * 2).toNat = (entryFields entries).length := by
      rw [entryFields_length,UInt32.toNat_mul,UInt32.toNat_ofNat']
      simp
      omega
    refine takes_bind (takes_size entries.length) ?_
    rw [read,entriesBytes_eq]
    refine takes_times (fun bytes member => ?_)
    obtain ⟨e,present,part⟩ := List.mem_flatMap.mp member
    simp only [List.mem_cons,List.not_mem_nil,or_false] at part
    rcases part with rfl | rfl
    · exact takes_headed (keysSkipped e present) 0
    · exact takes_headed (valuesSkipped e present) 1
  | @struct fields each ih =>
    refine takes_skipField_of (fun rest => ?_)
    rw [Wire.payload,List.append_assoc]
    exact reads_skipToStructEnd ih 0 rest

/-! ### Rows of fields -/

/-- Fields with ascending tags. -/
structure Row (fields : List (UInt8 × Wire)) : Prop where
  ascending : fields.Pairwise (fun f g => f.1 < g.1)
  fits : ∀ f ∈ fields, f.2.Fits

/-- The fields from a tag on. -/
def fieldsFrom (least : Nat) (fields : List (UInt8 × Wire)) : List (UInt8 × Wire) := fields.dropWhile (fun f => f.1.toNat < least)

@[simp] theorem fieldsFrom_zero (fields : List (UInt8 × Wire)) : fieldsFrom 0 fields = fields := by
  cases fields <;> simp [fieldsFrom]

section
variable {fields : List (UInt8 × Wire)} {tag : UInt8} {least : Nat} {w : Wire} {rest : Bytes}

theorem row_fieldsFrom (row : Row fields) (least : Nat) : Row (fieldsFrom least fields) :=
  ⟨row.ascending.sublist (List.dropWhile_sublist _),fun f member => row.fits f ((List.dropWhile_sublist _).mem member)⟩

theorem lookup_here (f : UInt8 × Wire) (fields : List (UInt8 × Wire)) : (f :: fields).lookup f.1 = some f.2 := by
  obtain ⟨t,w⟩ := f
  exact List.lookup_cons_self
theorem lookup_other {f : UInt8 × Wire} (other : ¬ tag = f.1) : (f :: fields).lookup tag = fields.lookup tag := by
  obtain ⟨t,w⟩ := f
  rw [List.lookup_cons,show (tag == t) = false by simpa using other]
theorem lookup_fieldsFrom (below : least ≤ tag.toNat) : (fieldsFrom least fields).lookup tag = fields.lookup tag := by
  induction fields with
  | nil => rfl
  | cons f fields ih =>
    by_cases dropped : f.1.toNat < least
    · have other : ¬ tag = f.1 := fun same => by rw [same] at below; omega
      rw [fieldsFrom,List.dropWhile_cons_of_pos (by simpa using dropped),← fieldsFrom,ih,lookup_other other]
    · rw [fieldsFrom,List.dropWhile_cons_of_neg (by simpa using dropped)]
theorem fieldsFrom_fieldsFrom {more : Nat} (below : least ≤ more) : fieldsFrom more (fieldsFrom least fields) = fieldsFrom more fields := by
  induction fields with
  | nil => rfl
  | cons f fields ih =>
    by_cases dropped : f.1.toNat < least
    · rw [fieldsFrom,fieldsFrom,List.dropWhile_cons_of_pos (by simpa using dropped),← fieldsFrom,← fieldsFrom,ih,fieldsFrom,fieldsFrom,
        List.dropWhile_cons_of_pos (by simp; omega)]
    · rw [fieldsFrom,fieldsFrom,List.dropWhile_cons_of_neg (by simpa using dropped)]
      rfl

theorem fieldsFrom_head {f : UInt8 × Wire} {later : List (UInt8 × Wire)} (from_least : fieldsFrom least fields = f :: later) :
    least ≤ f.1.toNat := by
  have first := List.head?_dropWhile_not (fun f : UInt8 × Wire => decide (f.1.toNat < least)) fields
  rw [show fields.dropWhile (fun f => decide (f.1.toNat < least)) = f :: later from from_least] at first
  simpa using first
theorem fieldsFrom_absent (absent : fields.lookup tag = none) : fieldsFrom tag.toNat fields = fieldsFrom (tag.toNat + 1) fields := by
  induction fields with
  | nil => rfl
  | cons f fields ih =>
    have other : ¬ tag = f.1 := by
      rintro rfl
      rw [lookup_here] at absent
      cases absent
    have apart : tag.toNat ≠ f.1.toNat := fun same => other (UInt8.toNat_inj.mp same)
    rw [lookup_other other] at absent
    by_cases before : f.1.toNat < tag.toNat
    · rw [fieldsFrom,fieldsFrom,List.dropWhile_cons_of_pos (by simpa using before),List.dropWhile_cons_of_pos (by simp; omega)]
      exact ih absent
    · rw [fieldsFrom,fieldsFrom,List.dropWhile_cons_of_neg (by simpa using before),List.dropWhile_cons_of_neg (by simp; omega)]
theorem fieldsFrom_present (ascending : fields.Pairwise (fun f g => f.1 < g.1)) (present : fields.lookup tag = some w) :
    fieldsFrom tag.toNat fields = (tag,w) :: fieldsFrom (tag.toNat + 1) fields := by
  induction fields with
  | nil => cases present
  | cons f fields ih =>
    obtain ⟨first,others⟩ := List.pairwise_cons.mp ascending
    by_cases here : tag = f.1
    · have found : f.2 = w := by
        rw [here,lookup_here] at present
        exact Option.some.inj present
      have whole : fieldsFrom (tag.toNat + 1) fields = fields := by
        cases fields with
        | nil => rfl
        | cons g fields =>
          have := UInt8.lt_iff_toNat_lt.mp (first g List.mem_cons_self)
          rw [fieldsFrom,List.dropWhile_cons_of_neg (by simp [here]; omega)]
      rw [fieldsFrom,List.dropWhile_cons_of_neg (by simp [here]),fieldsFrom,List.dropWhile_cons_of_pos (by simp [here]),← fieldsFrom,
        whole,here,← found]
    · rw [lookup_other here] at present
      obtain ⟨before,after,split⟩ := List.lookup_eq_some_iff.mp present
      have less : f.1.toNat < tag.toNat := UInt8.lt_iff_toNat_lt.mp (first (tag,w) (by rw [split.1]; simp))
      rw [fieldsFrom,List.dropWhile_cons_of_pos (by simpa using less),← fieldsFrom,ih others present,fieldsFrom,fieldsFrom,
        List.dropWhile_cons_of_pos (by simp; omega)]

/-- The search passes the fields with smaller tags. -/
theorem seeks_passed (fits : ∀ f ∈ fields, f.2.Fits) {q : Bytes} {found : Option DataHead}
    (later : Seeks tag (fieldsBytes (fieldsFrom tag.toNat fields) ++ rest) found q) : Seeks tag (fieldsBytes fields ++ rest) found q := by
  induction fields with
  | nil => exact later
  | cons f fields ih =>
    rw [List.forall_mem_cons] at fits
    by_cases before : f.1.toNat < tag.toNat
    · rw [fieldsFrom,List.dropWhile_cons_of_pos (by simpa using before),← fieldsFrom] at later
      rw [fieldsBytes,List.append_assoc]
      exact seeks_past (head_ne_structEnd f.2) (UInt8.lt_iff_toNat_lt.mpr before) (takes_skipField fits.1) (ih fits.2 later)
    · rwa [fieldsFrom,List.dropWhile_cons_of_neg (by simpa using before)] at later
/-- It stops before a greater tag. -/
theorem seeks_greater (ends : Closes rest) :
    Seeks tag (fieldsBytes (fieldsFrom (tag.toNat + 1) fields) ++ rest) none (fieldsBytes (fieldsFrom (tag.toNat + 1) fields) ++ rest) := by
  cases from_next : fieldsFrom (tag.toNat + 1) fields with
  | nil => exact seeks_closes ends
  | cons f later =>
    rw [fieldsBytes,List.append_assoc,List.append_assoc]
    exact seeks_stop (.inr (UInt8.lt_iff_toNat_lt.mpr (fieldsFrom_head from_next))) _
/-- The search for a tag that no field has. -/
theorem seeks_absent (fits : ∀ f ∈ fields, f.2.Fits) (absent : fields.lookup tag = none) (ends : Closes rest) :
    Seeks tag (fieldsBytes fields ++ rest) none (fieldsBytes (fieldsFrom (tag.toNat + 1) fields) ++ rest) := by
  refine seeks_passed fits ?_
  rw [fieldsFrom_absent absent]
  exact seeks_greater ends
/-- The search for the tag of a field. -/
theorem seeks_present (row : Row fields) (present : fields.lookup tag = some w) (rest : Bytes) :
    Seeks tag (fieldsBytes fields ++ rest) (some ⟨w.head,tag⟩)
      (w.payload ++ (fieldsBytes (fieldsFrom (tag.toNat + 1) fields) ++ rest)) := by
  refine seeks_passed row.fits ?_
  rw [fieldsFrom_present row.ascending present,fieldsBytes,List.append_assoc,List.append_assoc]
  exact seeks_found (head_ne_structEnd w) _

end

end CppSdk.TarsFields

import CppSdk.TarsDecoding

/-!
What the fields of `Tars.h` mean. A value is read from a tree (`Wire`) and a struct from a row
of fields, without bytes and positions; the readers of `Tars.h` compute these meanings on the
bytes of every row, with the same exceptions (`Refines`).
-/
namespace CppSdk.TarsMeaning
open CppSdk.ByteString CppSdk.Runtime CppSdk.Cursors CppSdk.TarsStream CppSdk.TarsSafety CppSdk.TarsFields CppSdk.TarsCodecs
open CppSdk.TarsStructs CppSdk.TarsDecoding
open CppSdk.TransactionHash (TransactionData LogEntry TransactionReceiptData)

variable {α β : Type}

/-! ### Values -/

/-- What is read from what follows a head. -/
abbrev Meaning (α : Type) := UInt8 → Wire → Except TarsFailure α

instance (width : Width) (i : Int) : Decidable (Width.Holds width i) := inferInstanceAs (Decidable (_ ∧ _))

/-- An integer that the width holds. -/
def integerMeaning (width : Width) : Meaning Int := fun tag w =>
  match w with
  | .integer i => if Width.Holds width i then .ok i else .error (.throws .mismatch (snprintf 64 (width.mismatch tag ⟨w.head,tag⟩)))
  | w => .error (.throws .mismatch (snprintf 64 (width.mismatch tag ⟨w.head,tag⟩)))
def stringMeaning : Meaning Bytes := fun tag w =>
  match w with
  | .string content => .ok content
  | w =>
    .error (.throws .mismatch (snprintf 64 (lit "read 'string' type mismatch, tag: " ++ byteText tag ++ lit ", get type: " ++
      byteText w.head.code ++ lit ", tag: " ++ byteText tag ++ lit ".")))
/-- A run of bytes, or a list of integers that are `Char`s. -/
def charsMeaning : Meaning Bytes := fun tag w =>
  match w with
  | .chars content => .ok content
  | .list elements => elements.mapM (fun w => (integerMeaning .char 0 w).map (fun i => (Int8.ofInt i).toUInt8))
  | w => .error (.throws .mismatch (snprintf 128 (lit "type mismatch, tag: " ++ byteText tag ++ lit ", type: " ++ byteText w.head.code)))
def vectorMeaning (element : Meaning α) : Meaning (List α) := fun tag w =>
  match w with
  | .list elements => elements.mapM (element 0)
  | w =>
    .error (.throws .mismatch (snprintf 64 (lit "read 'vector' type mismatch, tag: " ++ byteText tag ++ lit ", get type: " ++
      byteText w.head.code ++ lit ".")))

/-- The meaning is what the payload is read as. -/
def Denotes (payload : UInt8 → DataHead → TarsRead α) (meaning : Meaning α) : Prop :=
  ∀ tag w, w.Fits → ∀ rest, Results (payload tag ⟨w.head,tag⟩) (w.payload ++ rest) ((meaning tag w).map (fun a => (a,rest)))

private theorem fails_throw (e : TarsFailure) (p : Bytes) : Fails (throw e : TarsRead α) p e := fun front => ⟨standing front p,rfl⟩

private theorem ofHead_other {w : Wire} (other : ∀ i, w ≠ .integer i) : w.head ≠ .zeroTag ∧ Width.ofHead w.head = none := by
  cases w with
  | integer i => exact absurd rfl (other i)
  | string content =>
    simp only [Wire.head]
    split <;> decide
  | _ => exact ⟨by simp [Wire.head],rfl⟩
private theorem denotes_integer (width : Width) : Denotes (integerPayload width) (integerMeaning width) := by
  intro tag w fits rest
  cases fits with
  | @integer i low high =>
    by_cases holds : Width.Holds width i
    · simp only [integerMeaning,if_pos holds]
      exact takes_integer holds tag tag rest
    · simp only [integerMeaning,if_neg holds]
      exact fails_integer low high holds tag ⟨integerHead i,tag⟩ rfl _
  | @string content size =>
    obtain ⟨other,none⟩ := ofHead_other (w := .string content) (by simp)
    simp only [integerMeaning,integerPayload,if_neg other,none]
    exact fails_throw _ _
  | float | double | chars | list | map | struct => exact fails_throw _ _

private theorem integerHead_cases (i : Int) :
    integerHead i = .zeroTag ∨ integerHead i = .char ∨ integerHead i = .short ∨ integerHead i = .int32 ∨ integerHead i = .int64 := by
  unfold integerHead narrowest
  split_ifs <;> decide
private theorem denotes_string : Denotes stringPayload stringMeaning := by
  intro tag w fits rest
  cases fits with
  | @string content size => exact stringCodec.takes content tag size rest
  | @integer i low high =>
    simp only [Wire.head,stringMeaning]
    rcases integerHead_cases i with type | type | type | type | type <;> rw [type] <;> exact fails_throw _ _
  | float | double | chars | list | map | struct => exact fails_throw _ _

/-- A read whose field comes next. -/
theorem results_next {payload : UInt8 → DataHead → TarsRead α} {meaning : Meaning α} (denotes : Denotes payload meaning) {w : Wire}
    (fits : w.Fits) (tag : UInt8) (notExist : Bytes) (a : α) (isRequire : Bool) (rest : Bytes) :
    Results (readField (skipToTag tag) (payload tag) notExist a isRequire) (w.bytes tag ++ rest) ((meaning tag w).map (fun a => (a,rest))) := by
  have found : Reads (skipToTag tag) (w.bytes tag ++ rest) (some ⟨w.head,tag⟩) (w.payload ++ rest) := by
    rw [Wire.bytes,List.append_assoc]
    exact reads_skipToTag (seeks_found (head_ne_structEnd w) _)
  have read := denotes tag w fits rest
  cases meant : meaning tag w with
  | ok b =>
    rw [meant] at read
    exact reads_bind found read
  | error e =>
    rw [meant] at read
    exact fails_later found read
/-- The elements of a list that is not larger than the buffer. -/
theorem results_elements {x : TarsRead α} {meaning : Wire → Except TarsFailure α} {elements : List Wire}
    (bound : elements.length < 4294967296)
    (each : ∀ w ∈ elements, ∀ rest, Results x (w.bytes 0 ++ rest) ((meaning w).map (fun a => (a,rest)))) (invalid : UInt32 → Bytes)
    (rest : Bytes) :
    Results (readSize invalid >>= fun size => collect x size.toNat) ((Wire.list elements).payload ++ rest)
      ((elements.mapM meaning).map (fun values => (values,rest))) := by
  have room := elements_room elements
  have size : Reads (readSize invalid) (sizeBytes elements.length ++ (elementsBytes elements ++ rest)) _ _ :=
    reads_size bound (by rw [List.length_append]; omega) invalid
  have collected : Results (collect x elements.length) (elements.flatMap (Wire.bytes 0) ++ rest) _ := results_collect each rest
  rw [List.flatMap_def,← elementsBytes_eq,← size_toNat bound] at collected
  rw [Wire.payload,List.append_assoc]
  cases meant : elements.mapM meaning with
  | ok values =>
    rw [meant] at collected
    exact reads_bind size collected
  | error e =>
    rw [meant] at collected
    exact fails_later size collected

/-- An element of a list of `Char`s. -/
theorem results_char {w : Wire} (fits : w.Fits) (rest : Bytes) :
    Results ((fun c => c.toUInt8) <$> readChar 0 0 true) (w.bytes 0 ++ rest)
      (((integerMeaning .char 0 w).map (fun i => (Int8.ofInt i).toUInt8)).map (fun a => (a,rest))) := by
  have read := results_next (denotes_integer .char) fits 0 (Width.notExist .char 0) 0 true rest
  have converted := results_map (results_map read Int8.ofInt) (fun c => c.toUInt8)
  cases meant : integerMeaning .char 0 w with
  | ok i =>
    rw [meant] at converted
    exact converted
  | error e =>
    rw [meant] at converted
    exact converted
private theorem denotes_chars : Denotes charsPayload charsMeaning := by
  intro tag w fits rest
  cases fits with
  | @chars content size => exact charsCodec.takes content tag size rest
  | @list elements size each => exact results_elements size (fun w member => results_char (each w member)) _ rest
  | @integer i low high =>
    simp only [Wire.head,charsMeaning]
    rcases integerHead_cases i with type | type | type | type | type <;> rw [type] <;> exact fails_throw _ _
  | @string content size =>
    simp only [Wire.head,charsMeaning]
    split_ifs <;> exact fails_throw _ _
  | float | double | map | struct => exact fails_throw _ _

private theorem denotes_vector {c : Codec α} {meaning : Meaning α} (denotes : Denotes c.payload meaning) (default : α) :
    Denotes (vectorCodec c default).payload (vectorMeaning meaning) := by
  intro tag w fits rest
  have each : ∀ w : Wire, w.Fits → ∀ rest, Results (c.read default 0 true) (w.bytes 0 ++ rest) ((meaning 0 w).map (fun a => (a,rest))) := by
    intro w fits rest
    rw [c.fielded default 0 true]
    exact results_next denotes fits 0 _ default true rest
  cases fits with
  | @list elements size fit => exact results_elements size (fun w member => each w (fit w member)) _ rest
  | @integer i low high =>
    show Results (vectorPayload (fun tag => c.read default tag true) tag ⟨integerHead i,tag⟩) _ _
    simp only [Wire.head,vectorMeaning]
    rcases integerHead_cases i with type | type | type | type | type <;> rw [type] <;> exact fails_throw _ _
  | @string content size =>
    show Results (vectorPayload (fun tag => c.read default tag true) tag ⟨(Wire.string content).head,tag⟩) _ _
    simp only [Wire.head,vectorMeaning]
    split_ifs <;> exact fails_throw _ _
  | float | double | chars | map | struct => exact fails_throw _ _

/-! ### Rows -/

/-- A read from a row of fields, which leaves those that it has not passed. -/
abbrev RowRead (α : Type) := StateT (List (UInt8 × Wire)) (Except TarsFailure) α

/-- A field that is not there. -/
def missing (notExist : Bytes) (old : α) (isRequire : Bool) (row : List (UInt8 × Wire)) : Except TarsFailure (α × List (UInt8 × Wire)) :=
  if isRequire then .error (.throws .requireNotExist (snprintf 64 notExist)) else .ok (old,row)
/-- The field of a tag, behind fields with smaller tags. -/
def fieldMeaning (meaning : Meaning α) (notExist : UInt8 → Bytes) (old : α) (tag : UInt8) (isRequire : Bool) : RowRead α := fun row =>
  match fieldsFrom tag.toNat row with
  | (next,w) :: later =>
    if next = tag then (meaning tag w).map (fun a => (a,later)) else missing (notExist tag) old isRequire ((next,w) :: later)
  | [] => missing (notExist tag) old isRequire []
/-- What is read from the fields of a struct. -/
def structMeaning (fields : RowRead α) : Meaning α := fun tag w =>
  match w with
  | .struct row => (fields.run row).map (fun read => read.1)
  | w =>
    .error (.throws .mismatch (snprintf 64 (lit "read 'struct' type mismatch, tag: " ++ byteText tag ++ lit ", get type: " ++
      [w.head.code] ++ lit ", headTag: " ++ [tag] ++ lit ".")))

/-- On the bytes of a row, the read is that of the row. -/
def Refines (x : TarsRead α) (fields : RowRead α) : Prop :=
  ∀ row, (∀ f ∈ row, f.2.Fits) → ∀ rest, Closes rest →
    Results x (fieldsBytes row ++ rest) ((fields.run row).map (fun read => (read.1,fieldsBytes read.2 ++ rest))) ∧
    ∀ a left, fields.run row = .ok (a,left) → ∀ f ∈ left, f.2.Fits

private theorem refines_pure (a : α) : Refines (pure a) (pure a) := by
  intro row fits rest _
  refine ⟨reads_pure a _,fun b left same => ?_⟩
  obtain ⟨-,rfl⟩ := Prod.mk.inj (Except.ok.inj same)
  exact fits
private theorem refines_bind {x : TarsRead α} {f : α → TarsRead β} {fields : RowRead α} {more : α → RowRead β} (first : Refines x fields)
    (later : ∀ a, Refines (f a) (more a)) : Refines (x >>= f) (fields >>= more) := by
  intro row fits rest closes
  obtain ⟨read,kept⟩ := first row fits rest closes
  have run : (fields >>= more).run row = (fields.run row >>= fun p => (more p.1).run p.2) := rfl
  rw [run]
  cases ran : fields.run row with
  | error e =>
    rw [ran] at read
    exact ⟨fails_first read,fun _ _ same => by cases same⟩
  | ok p =>
    rw [ran] at read
    obtain ⟨second,fit⟩ := later p.1 p.2 (kept p.1 p.2 ran) rest closes
    refine ⟨?_,fit⟩
    show Results _ _ (((more p.1).run p.2).map _)
    revert second
    cases (more p.1).run p.2 with
    | error e => exact fun second => fails_later read second
    | ok q => exact fun second => reads_bind read second

private theorem fits_fieldsFrom {row : List (UInt8 × Wire)} (fits : ∀ f ∈ row, f.2.Fits) (least : Nat) :
    ∀ f ∈ fieldsFrom least row, f.2.Fits := fun f member => fits f ((List.dropWhile_sublist _).mem member)

/-- A read of a field. -/
theorem refines_field (c : Codec α) {meaning : Meaning α} (denotes : Denotes c.payload meaning) (old : α) (tag : UInt8)
    (isRequire : Bool) : Refines (c.read old tag isRequire) (fieldMeaning meaning c.notExist old tag isRequire) := by
  intro row fits rest closes
  have fit := fits_fieldsFrom fits tag.toNat
  have missed : Seeks tag (fieldsBytes (fieldsFrom tag.toNat row) ++ rest) none (fieldsBytes (fieldsFrom tag.toNat row) ++ rest) →
      Results (c.read old tag isRequire) (fieldsBytes row ++ rest)
        ((missing (c.notExist tag) old isRequire (fieldsFrom tag.toNat row)).map (fun read => (read.1,fieldsBytes read.2 ++ rest))) ∧
      ∀ a left, missing (c.notExist tag) old isRequire (fieldsFrom tag.toNat row) = .ok (a,left) → ∀ f ∈ left, f.2.Fits := by
    intro stops
    rw [c.fielded old tag isRequire]
    cases isRequire with
    | true => exact ⟨fails_later (reads_skipToTag (seeks_passed fits stops)) (fails_throw _ _),fun _ _ same => by cases same⟩
    | false =>
      refine ⟨reads_bind (reads_skipToTag (seeks_passed fits stops)) (reads_pure old _),fun a left same => ?_⟩
      obtain ⟨-,rfl⟩ := Prod.mk.inj (Except.ok.inj same)
      exact fit
  simp only [StateT.run,fieldMeaning]
  cases from_tag : fieldsFrom tag.toNat row with
  | nil =>
    rw [from_tag] at missed
    exact missed (seeks_closes closes)
  | cons f later =>
    obtain ⟨next,w⟩ := f
    rw [from_tag] at missed fit
    by_cases here : next = tag
    · subst here
      have found : Seeks next (fieldsBytes row ++ rest) (some ⟨w.head,next⟩) (w.payload ++ (fieldsBytes later ++ rest)) := by
        refine seeks_passed fits ?_
        rw [from_tag,fieldsBytes,List.append_assoc,List.append_assoc]
        exact seeks_found (head_ne_structEnd w) _
      have read := denotes next w (fit (next,w) List.mem_cons_self) (fieldsBytes later ++ rest)
      rw [c.fielded old next isRequire]
      dsimp only
      rw [if_pos rfl]
      cases meant : meaning next w with
      | error e =>
        rw [meant] at read
        exact ⟨fails_later (reads_skipToTag found) read,fun _ _ same => by cases same⟩
      | ok a =>
        rw [meant] at read
        refine ⟨reads_bind (reads_skipToTag found) read,fun b left same => ?_⟩
        obtain ⟨-,rfl⟩ := Prod.mk.inj (Except.ok.inj same)
        exact fun f member => fit f (List.mem_cons_of_mem _ member)
    · dsimp only
      rw [if_neg here]
      refine missed ?_
      have behind : tag.toNat ≤ next.toNat := fieldsFrom_head from_tag
      have less : tag < next := UInt8.lt_iff_toNat_lt.mpr (by
        have : next.toNat ≠ tag.toNat := fun same => here (UInt8.toNat_inj.mp same)
        omega)
      rw [fieldsBytes,List.append_assoc,List.append_assoc]
      exact seeks_stop (.inr less) _

/-- A struct as a field: what its reader leaves is skipped. -/
theorem denotes_struct {c : StructCodec α} {fields : RowRead α} (refines : Refines c.readFrom fields) :
    Denotes c.codec.payload (structMeaning fields) := by
  intro tag w fits rest
  show Results (structPayload c.readFrom tag ⟨w.head,tag⟩) _ _
  cases fits with
  | @struct row each =>
    have closes : Closes (headBytes .structEnd 0 ++ rest) := .inr ⟨0,rest,rfl⟩
    obtain ⟨read,kept⟩ := refines row each _ closes
    rw [Wire.payload,List.append_assoc]
    simp only [structMeaning]
    cases ran : fields.run row with
    | error e =>
      rw [ran] at read
      exact fails_first read
    | ok p =>
      rw [ran] at read
      have fit := kept p.1 p.2 ran
      exact reads_bind read (reads_bind (reads_skipToStructEnd (fun f member => takes_skipField (fit f member)) 0 rest) (reads_pure p.1 rest))
  | @integer i low high =>
    simp only [Wire.head,structMeaning]
    rcases integerHead_cases i with type | type | type | type | type <;> rw [type] <;> exact fails_throw _ _
  | @string content size =>
    simp only [Wire.head,structMeaning]
    split_ifs <;> exact fails_throw _ _
  | float | double | chars | list | map => exact fails_throw _ _

/-! ### The structs -/

def int32Meaning : Meaning Int32 := fun tag w => (integerMeaning .int32 tag w).map Int32.ofInt
def int64Meaning : Meaning Int64 := fun tag w => (integerMeaning .int64 tag w).map Int64.ofInt

def transactionDataMeaning : RowRead TransactionData := do
  let version ← fieldMeaning int32Meaning int32Codec.notExist 0 1 true
  let chainID ← fieldMeaning stringMeaning stringCodec.notExist [] 2 true
  let groupID ← fieldMeaning stringMeaning stringCodec.notExist [] 3 true
  let blockLimit ← fieldMeaning int64Meaning int64Codec.notExist 0 4 true
  let nonce ← fieldMeaning stringMeaning stringCodec.notExist [] 5 true
  let toAddress ← fieldMeaning stringMeaning stringCodec.notExist [] 6 false
  let input ← fieldMeaning charsMeaning charsCodec.notExist [] 7 true
  let abi ← fieldMeaning stringMeaning stringCodec.notExist [] 8 false
  pure ⟨version,chainID,groupID,blockLimit,nonce,toAddress,input,abi⟩
def transactionMeaning : RowRead Transaction := do
  let data ← fieldMeaning (structMeaning transactionDataMeaning) notExistText resetTransactionData 1 false
  let dataHash ← fieldMeaning charsMeaning charsCodec.notExist [] 2 false
  let signature ← fieldMeaning charsMeaning charsCodec.notExist [] 3 false
  let importTime ← fieldMeaning int64Meaning int64Codec.notExist 0 4 false
  let transactionAttribute ← fieldMeaning int32Meaning int32Codec.notExist 0 5 false
  let sender ← fieldMeaning charsMeaning charsCodec.notExist [] 7 false
  let extraData ← fieldMeaning stringMeaning stringCodec.notExist [] 8 false
  pure ⟨data,dataHash,signature,importTime,transactionAttribute,sender,extraData⟩
def logEntryMeaning : RowRead LogEntry := do
  let address ← fieldMeaning stringMeaning stringCodec.notExist [] 1 false
  let topic ← fieldMeaning (vectorMeaning charsMeaning) notExistText [] 2 false
  let data ← fieldMeaning charsMeaning charsCodec.notExist [] 3 false
  pure ⟨address,topic,data⟩
def receiptDataMeaning : RowRead TransactionReceiptData := do
  let version ← fieldMeaning int32Meaning int32Codec.notExist 0 1 true
  let gasUsed ← fieldMeaning stringMeaning stringCodec.notExist [] 2 false
  let contractAddress ← fieldMeaning stringMeaning stringCodec.notExist [] 3 false
  let status ← fieldMeaning int32Meaning int32Codec.notExist 0 4 false
  let output ← fieldMeaning charsMeaning charsCodec.notExist [] 5 false
  let logEntries ← fieldMeaning (vectorMeaning (structMeaning logEntryMeaning)) notExistText [] 6 false
  let blockNumber ← fieldMeaning int64Meaning int64Codec.notExist 0 7 false
  pure ⟨version,gasUsed,contractAddress,status,output,logEntries,blockNumber⟩
def receiptMeaning : RowRead TransactionReceipt := do
  let data ← fieldMeaning (structMeaning receiptDataMeaning) notExistText resetReceiptData 1 false
  let dataHash ← fieldMeaning charsMeaning charsCodec.notExist [] 2 false
  let message ← fieldMeaning stringMeaning stringCodec.notExist [] 3 false
  pure ⟨data,dataHash,message⟩

private theorem denotes_map {payload : UInt8 → DataHead → TarsRead α} {meaning : Meaning α} (denotes : Denotes payload meaning) (g : α → β) :
    Denotes (fun tag head => g <$> payload tag head) (fun tag w => (meaning tag w).map g) := by
  intro tag w fits rest
  have read := results_map (denotes tag w fits rest) g
  show Results (g <$> payload tag ⟨w.head,tag⟩) _ (((meaning tag w).map g).map (fun b => (b,rest)))
  revert read
  cases meaning tag w with
  | error e => exact id
  | ok a => exact id
private theorem denotes_int32 : Denotes int32Codec.payload int32Meaning := denotes_map (denotes_integer .int32) Int32.ofInt
private theorem denotes_int64 : Denotes int64Codec.payload int64Meaning := denotes_map (denotes_integer .int64) Int64.ofInt
private theorem refines_int32 (tag : UInt8) (isRequire : Bool) :
    Refines (readInt32 0 tag isRequire) (fieldMeaning int32Meaning int32Codec.notExist 0 tag isRequire) :=
  refines_field int32Codec denotes_int32 0 tag isRequire
private theorem refines_int64 (tag : UInt8) (isRequire : Bool) :
    Refines (readInt64 0 tag isRequire) (fieldMeaning int64Meaning int64Codec.notExist 0 tag isRequire) :=
  refines_field int64Codec denotes_int64 0 tag isRequire
private theorem refines_string (tag : UInt8) (isRequire : Bool) :
    Refines (readString [] tag isRequire) (fieldMeaning stringMeaning stringCodec.notExist [] tag isRequire) :=
  refines_field stringCodec denotes_string [] tag isRequire
private theorem refines_chars (tag : UInt8) (isRequire : Bool) :
    Refines (readChars [] tag isRequire) (fieldMeaning charsMeaning charsCodec.notExist [] tag isRequire) :=
  refines_field charsCodec denotes_chars [] tag isRequire
private theorem refines_struct {c : StructCodec α} {fields : RowRead α} (refines : Refines c.readFrom fields) (old : α) (tag : UInt8)
    (isRequire : Bool) : Refines (readStruct c.readFrom old tag isRequire) (fieldMeaning (structMeaning fields) notExistText old tag isRequire) :=
  refines_field c.codec (denotes_struct refines) old tag isRequire

theorem refines_transactionData : Refines transactionDataReadFrom transactionDataMeaning := by
  refine refines_bind (refines_int32 1 true) (fun version => refines_bind (refines_string 2 true) (fun chainID => ?_))
  refine refines_bind (refines_string 3 true) (fun groupID => refines_bind (refines_int64 4 true) (fun blockLimit => ?_))
  refine refines_bind (refines_string 5 true) (fun nonce => refines_bind (refines_string 6 false) (fun toAddress => ?_))
  exact refines_bind (refines_chars 7 true) (fun input => refines_bind (refines_string 8 false) (fun abi => refines_pure _))
theorem refines_transaction : Refines transactionReadFrom transactionMeaning := by
  refine refines_bind (refines_struct (c := transactionDataCodec) refines_transactionData _ 1 false) (fun data => ?_)
  refine refines_bind (refines_chars 2 false) (fun dataHash => refines_bind (refines_chars 3 false) (fun signature => ?_))
  refine refines_bind (refines_int64 4 false) (fun importTime => refines_bind (refines_int32 5 false) (fun transactionAttribute => ?_))
  exact refines_bind (refines_chars 7 false) (fun sender => refines_bind (refines_string 8 false) (fun extraData => refines_pure _))
theorem refines_logEntry : Refines logEntryReadFrom logEntryMeaning := by
  refine refines_bind (refines_string 1 false) (fun address => ?_)
  refine refines_bind (refines_field (vectorCodec charsCodec []) (denotes_vector denotes_chars []) [] 2 false) (fun topic => ?_)
  exact refines_bind (refines_chars 3 false) (fun data => refines_pure _)
theorem refines_receiptData : Refines receiptDataReadFrom receiptDataMeaning := by
  have logEntries := denotes_vector (denotes_struct (c := logEntryCodec) refines_logEntry) resetLogEntry
  refine refines_bind (refines_int32 1 true) (fun version => refines_bind (refines_string 2 false) (fun gasUsed => ?_))
  refine refines_bind (refines_string 3 false) (fun contractAddress => refines_bind (refines_int32 4 false) (fun status => ?_))
  refine refines_bind (refines_chars 5 false) (fun output => refines_bind (refines_field logEntriesCodec logEntries [] 6 false) (fun logs => ?_))
  exact refines_bind (refines_int64 7 false) (fun blockNumber => refines_pure _)
theorem refines_receipt : Refines receiptReadFrom receiptMeaning := by
  refine refines_bind (refines_struct (c := receiptDataCodec) refines_receiptData _ 1 false) (fun data => ?_)
  exact refines_bind (refines_chars 2 false) (fun dataHash => refines_bind (refines_string 3 false) (fun message => refines_pure _))

/-! ### Rows with ascending tags -/

/-- A field among those with given tags. -/
def fieldOf (fields : UInt8 → Option Wire) (meaning : Meaning α) (notExist : UInt8 → Bytes) (old : α) (tag : UInt8) (isRequire : Bool) :
    Except TarsFailure α :=
  match fields tag with
  | some w => meaning tag w
  | none => if isRequire then .error (.throws .requireNotExist (snprintf 64 (notExist tag))) else .ok old

section
variable {row : List (UInt8 × Wire)} {tag : UInt8} {least : Nat}

/-- In a row with ascending tags, a field is the one that has its tag. -/
theorem fieldMeaning_run (ascending : row.Pairwise (fun f g => f.1 < g.1)) (below : least ≤ tag.toNat) (meaning : Meaning α)
    (notExist : UInt8 → Bytes) (old : α) (isRequire : Bool) :
    (fieldMeaning meaning notExist old tag isRequire).run (fieldsFrom least row) =
      (fieldOf (fun t => row.lookup t) meaning notExist old tag isRequire).map (fun a => (a,fieldsFrom (tag.toNat + 1) row)) := by
  simp only [StateT.run,fieldMeaning,fieldsFrom_fieldsFrom below,fieldOf]
  cases found : row.lookup tag with
  | some w => simp only [fieldsFrom_present ascending found,if_true]
  | none =>
    rw [fieldsFrom_absent found]
    have gone : ∀ left, missing (notExist tag) old isRequire left =
        (if isRequire then .error (.throws .requireNotExist (snprintf 64 (notExist tag))) else .ok old : Except TarsFailure α).map
          (fun a => (a,left)) := by
      intro left
      cases isRequire <;> rfl
    cases from_next : fieldsFrom (tag.toNat + 1) row with
    | nil => exact gone []
    | cons f later =>
      have greater := fieldsFrom_head from_next
      have other : ¬ f.1 = tag := fun same => by rw [same] at greater; omega
      dsimp only
      rw [if_neg other]
      exact gone _
/-- The fields of a struct one after another. -/
theorem value_bind (ascending : row.Pairwise (fun f g => f.1 < g.1)) (below : least ≤ tag.toNat) {meaning : Meaning α}
    {notExist : UInt8 → Bytes} {old : α} {isRequire : Bool} {more : α → RowRead β} {value : α → Except TarsFailure β}
    (later : ∀ a, ((more a).run (fieldsFrom (tag.toNat + 1) row)).map (fun read => read.1) = value a) :
    ((fieldMeaning meaning notExist old tag isRequire >>= more).run (fieldsFrom least row)).map (fun read => read.1) =
      fieldOf (fun t => row.lookup t) meaning notExist old tag isRequire >>= value := by
  have run : (fieldMeaning meaning notExist old tag isRequire >>= more).run (fieldsFrom least row) =
      ((fieldMeaning meaning notExist old tag isRequire).run (fieldsFrom least row) >>= fun read => (more read.1).run read.2) := rfl
  rw [run,fieldMeaning_run ascending below]
  cases fieldOf (fun t => row.lookup t) meaning notExist old tag isRequire with
  | error e => rfl
  | ok a => exact later a

end

/-- The transaction data of fields that are given by their tags. -/
def transactionDataOf (fields : UInt8 → Option Wire) : Except TarsFailure TransactionData := do
  let version ← fieldOf fields int32Meaning int32Codec.notExist 0 1 true
  let chainID ← fieldOf fields stringMeaning stringCodec.notExist [] 2 true
  let groupID ← fieldOf fields stringMeaning stringCodec.notExist [] 3 true
  let blockLimit ← fieldOf fields int64Meaning int64Codec.notExist 0 4 true
  let nonce ← fieldOf fields stringMeaning stringCodec.notExist [] 5 true
  let toAddress ← fieldOf fields stringMeaning stringCodec.notExist [] 6 false
  let input ← fieldOf fields charsMeaning charsCodec.notExist [] 7 true
  let abi ← fieldOf fields stringMeaning stringCodec.notExist [] 8 false
  pure ⟨version,chainID,groupID,blockLimit,nonce,toAddress,input,abi⟩
/-- The transaction of fields that are given by their tags. -/
def transactionOf (fields : UInt8 → Option Wire) : Except TarsFailure Transaction := do
  let data ← fieldOf fields (structMeaning transactionDataMeaning) notExistText resetTransactionData 1 false
  let dataHash ← fieldOf fields charsMeaning charsCodec.notExist [] 2 false
  let signature ← fieldOf fields charsMeaning charsCodec.notExist [] 3 false
  let importTime ← fieldOf fields int64Meaning int64Codec.notExist 0 4 false
  let transactionAttribute ← fieldOf fields int32Meaning int32Codec.notExist 0 5 false
  let sender ← fieldOf fields charsMeaning charsCodec.notExist [] 7 false
  let extraData ← fieldOf fields stringMeaning stringCodec.notExist [] 8 false
  pure ⟨data,dataHash,signature,importTime,transactionAttribute,sender,extraData⟩

section
variable {row : List (UInt8 × Wire)}

/-- Only the fields that a struct knows count. -/
theorem transactionData_value (ascending : row.Pairwise (fun f g => f.1 < g.1)) :
    (transactionDataMeaning.run row).map (fun read => read.1) = transactionDataOf (fun t => row.lookup t) := by
  have whole : row = fieldsFrom 0 row := (fieldsFrom_zero row).symm
  conv_lhs => rw [whole]
  refine value_bind ascending (by decide) (fun version => value_bind ascending (by decide) (fun chainID => ?_))
  refine value_bind ascending (by decide) (fun groupID => value_bind ascending (by decide) (fun blockLimit => ?_))
  refine value_bind ascending (by decide) (fun nonce => value_bind ascending (by decide) (fun toAddress => ?_))
  exact value_bind ascending (by decide) (fun input => value_bind ascending (by decide) (fun abi => rfl))
theorem transaction_value (ascending : row.Pairwise (fun f g => f.1 < g.1)) :
    (transactionMeaning.run row).map (fun read => read.1) = transactionOf (fun t => row.lookup t) := by
  have whole : row = fieldsFrom 0 row := (fieldsFrom_zero row).symm
  conv_lhs => rw [whole]
  refine value_bind ascending (by decide) (fun data => value_bind ascending (by decide) (fun dataHash => ?_))
  refine value_bind ascending (by decide) (fun signature => value_bind ascending (by decide) (fun importTime => ?_))
  refine value_bind ascending (by decide) (fun transactionAttribute => value_bind ascending (by decide) (fun sender => ?_))
  exact value_bind ascending (by decide) (fun extraData => rfl)

end

end CppSdk.TarsMeaning

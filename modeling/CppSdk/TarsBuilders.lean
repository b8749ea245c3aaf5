import CppSdk.ReceiptJson
import CppSdk.SigningFrontEnds
import CppSdk.TarsMeaning

/-!
`TransactionBuilder` and `ReceiptBuilder`: transactions and receipts as bytes. What is encoded
comes back exactly if the formats have room for it (`transactions_come_back_iff`), with fields
of later versions around it, and whatever bytes are decoded, the call ends well.
-/
namespace CppSdk.TarsBuilders
open CppSdk.ByteString CppSdk.Runtime CppSdk.Cursors CppSdk.TarsStream CppSdk.TarsSafety CppSdk.TarsFields CppSdk.TarsCodecs
open CppSdk.TarsStructs CppSdk.TarsDecoding CppSdk.TarsMeaning
open CppSdk.TransactionHash (TransactionData LogEntry TransactionReceiptData)
open CppSdk.SigningFrontEnds (KeyPairType KeyPair Signing)
open CppSdk.ReceiptJson (HexUtilities hexUtilities_documented)

variable {α β : Type}

/-! ### The builders -/

/-- The buffer of a `TarsOutputStream` that is written to. -/
def encoded (write : TarsWrite) : Except TarsFailure Bytes :=
  match write.run [] with
  | (.ok _,buffer) => .ok buffer
  | (.error failure,_) => .error failure
/-- What is read from a `TarsInputStream` of the bytes. -/
def decoded (read : TarsRead α) (bytes : Bytes) : Except TarsFailure α := (read.run ⟨bytes,0⟩).1

/-- `TransactionBuilder::createTransactionData` with what `generateRandomStr` returns. -/
def createTransactionData (groupID chainID toAddress data abi : Bytes) (blockLimit : Int64) (randomStr : Bytes) : TransactionData :=
  ⟨0,chainID,groupID,blockLimit,randomStr,toAddress,data,abi⟩
/-- `TransactionBuilder::encodeTransactionData`. -/
def encodeTransactionData (x : TransactionData) : Except TarsFailure Bytes := encoded (transactionDataWriteTo x)
/-- The data that `decodeTransactionDataToJsonObj` reads. -/
def decodeTransactionData (txBytes : Bytes) : Except TarsFailure TransactionData := decoded transactionDataReadFrom txBytes
/-- `TransactionBuilder::createTransaction`. -/
def createTransaction (x : TransactionData) (signData hash : Bytes) (transactionAttribute : Int32) (extraData : Bytes) : Transaction :=
  ⟨x,hash,signData,0,transactionAttribute,[],extraData⟩
/-- `TransactionBuilder::encodeTransaction`. -/
def encodeTransaction (x : Transaction) : Except TarsFailure Bytes := encoded (transactionWriteTo x)
/-- The transaction that `decodeTransactionToJsonObj` reads. -/
def decodeTransaction (txBytes : Bytes) : Except TarsFailure Transaction := decoded transactionReadFrom txBytes

/-- `ReceiptBuilder::createReceiptData`. -/
def createReceiptData (gasUsed contractAddress output : Bytes) (blockNumber : Int64) : TransactionReceiptData :=
  ⟨0,gasUsed,contractAddress,0,output,[],blockNumber⟩
/-- `ReceiptBuilder::encodeReceipt`. -/
def encodeReceipt (x : TransactionReceiptData) : Except TarsFailure Bytes := encoded (receiptDataWriteTo x)
/-- The receipt that `decodeReceiptDataToJsonObj` reads. -/
def decodeReceiptData (receiptBytes : Bytes) : Except TarsFailure TransactionReceiptData := decoded receiptDataReadFrom receiptBytes

/-! ### Streams -/

private theorem encoded_of_writes {write : TarsWrite} {bytes : Bytes} (writes : Writes write bytes) : encoded write = .ok bytes := by
  rw [encoded,writes []]
  rfl
private theorem decoded_of_reads {read : TarsRead α} {bytes rest : Bytes} {a : α} (reads : Reads read bytes a rest) : decoded read bytes = .ok a := by
  obtain ⟨after,_,ran⟩ := reads []
  exact congrArg Prod.fst ran
private theorem decoded_of_fails {read : TarsRead α} {bytes : Bytes} {e : TarsFailure} (fails : Fails read bytes e) : decoded read bytes = .error e := by
  obtain ⟨after,ran⟩ := fails []
  exact congrArg Prod.fst ran
theorem of_decoded {P : α → Prop} {read : TarsRead α} (gives : Gives P read) {bytes : Bytes} {a : α} (same : decoded read bytes = .ok a) : P a :=
  gives ⟨bytes,0⟩ a (read.run ⟨bytes,0⟩).2 (Prod.ext same rfl)

section
variable {c : StructCodec α} {a : α}

/-- A row of fields is read as the value whose known fields it has. -/
theorem decoded_row (c : StructCodec α) (valid : c.Valid a) {row : List (UInt8 × Wire)} (ascending : Row row)
    (found : ∀ slot ∈ c.slots a, slot.Found row) : decoded c.readFrom (fieldsBytes row) = .ok a := by
  have reads := c.reads a valid row ascending found [] (.inl rfl)
  rw [List.append_nil] at reads
  exact decoded_of_reads reads
/-- What is written is read. -/
theorem decoded_encoded (valid : c.Valid a) :
    ∃ bytes, encoded (c.writeTo a) = .ok bytes ∧ decoded c.readFrom bytes = .ok a :=
  ⟨_,encoded_of_writes (c.writes a valid),decoded_row c valid (c.row valid) (found_slots (c.ascending a) (fun _ _ => rfl))⟩
/-- It comes back exactly if it is valid. -/
theorem back_iff_valid (sound : StructSound c) (a : α) :
    (∃ bytes, encoded (c.writeTo a) = .ok bytes ∧ decoded c.readFrom bytes = .ok a) ↔ c.Valid a :=
  ⟨fun ⟨_,_,read⟩ => of_decoded sound.valid read,decoded_encoded⟩

end

/-! ### What comes back -/

/-- What is encoded comes back exactly if the formats have room for it: texts of at most 100 MiB
    and vectors of fewer than 2^32 elements. -/
theorem structs_come_back_iff :
    (∀ x, (∃ txBytes, encodeTransactionData x = .ok txBytes ∧ decodeTransactionData txBytes = .ok x) ↔ ValidTransactionData x) ∧
    (∀ x, (∃ txBytes, encodeTransaction x = .ok txBytes ∧ decodeTransaction txBytes = .ok x) ↔ ValidTransaction x) ∧
    (∀ x, (∃ bytes, encoded (logEntryWriteTo x) = .ok bytes ∧ decoded logEntryReadFrom bytes = .ok x) ↔ ValidLogEntry x) ∧
    (∀ x, (∃ bytes, encodeReceipt x = .ok bytes ∧ decodeReceiptData bytes = .ok x) ↔ ValidReceiptData x) ∧
    ∀ x, (∃ bytes, encoded (receiptWriteTo x) = .ok bytes ∧ decoded receiptReadFrom bytes = .ok x) ↔ ValidReceipt x :=
  ⟨back_iff_valid sound_transactionData,back_iff_valid sound_transaction,back_iff_valid sound_logEntry,back_iff_valid sound_receiptData,
    back_iff_valid sound_receipt⟩

/-! ### Any bytes -/

/-- The call leaves the buffer alone and its position near it. It returns a value that can be
    encoded and then comes back, or throws. -/
structure EndsWell (writeTo : α → TarsWrite) (readFrom : TarsRead α) (bytes : Bytes) : Prop where
  same : (readFrom.run ⟨bytes,0⟩).2.buf = bytes
  near : (readFrom.run ⟨bytes,0⟩).2.cur ≤ bytes.length + 4294967296
  ends : (∃ a again, decoded readFrom bytes = .ok a ∧ encoded (writeTo a) = .ok again ∧ decoded readFrom again = .ok a) ∨
    ∃ kind what, decoded readFrom bytes = .error (.throws kind what)

private theorem endsWell (c : StructCodec α) (sound : StructSound c) (bytes : Bytes) : EndsWell c.writeTo c.readFrom bytes := by
  obtain ⟨_,proper⟩ := sound.safe (bytes.length + 1) ⟨bytes,0⟩ (Nat.zero_le _) (by simp [Buffered.remaining])
  refine ⟨proper.same,proper.near,?_⟩
  cases read : decoded c.readFrom bytes with
  | ok a =>
    obtain ⟨again,written,back⟩ := decoded_encoded (of_decoded sound.valid read)
    exact .inl ⟨a,again,rfl,written,back⟩
  | error e =>
    obtain ⟨kind,what,rfl⟩ := proper.error e read
    exact .inr ⟨kind,what,rfl⟩

/-- No bytes make a decoder run for ever or read outside its buffer. The stack that nested calls take up is not
    modelled. -/
theorem decoders_end_well (bytes : Bytes) :
    EndsWell transactionDataWriteTo transactionDataReadFrom bytes ∧ EndsWell transactionWriteTo transactionReadFrom bytes ∧
    EndsWell logEntryWriteTo logEntryReadFrom bytes ∧ EndsWell receiptDataWriteTo receiptDataReadFrom bytes ∧
    EndsWell receiptWriteTo receiptReadFrom bytes :=
  ⟨endsWell transactionDataCodec sound_transactionData bytes,endsWell transactionCodec sound_transaction bytes,
    endsWell logEntryCodec sound_logEntry bytes,endsWell receiptDataCodec sound_receiptData bytes,endsWell receiptCodec sound_receipt bytes⟩

/-! ### Rows of fields -/

private theorem decoded_meaning {read : TarsRead α} {fields : RowRead α} (refines : Refines read fields) {row : List (UInt8 × Wire)}
    (fits : ∀ f ∈ row, f.2.Fits) : decoded read (fieldsBytes row) = (fields.run row).map (fun read => read.1) := by
  have results := (refines row fits [] (.inl rfl)).1
  rw [List.append_nil] at results
  revert results
  cases fields.run row with
  | ok p => exact decoded_of_reads
  | error e => exact decoded_of_fails

/-- On the bytes of any row of fields, in any order and nested to any depth, a decoder computes
    the meaning of the row. -/
theorem decoders_compute_meanings {row : List (UInt8 × Wire)} (fits : ∀ f ∈ row, f.2.Fits) :
    decodeTransactionData (fieldsBytes row) = (transactionDataMeaning.run row).map (fun read => read.1) ∧
    decodeTransaction (fieldsBytes row) = (transactionMeaning.run row).map (fun read => read.1) ∧
    decoded logEntryReadFrom (fieldsBytes row) = (logEntryMeaning.run row).map (fun read => read.1) ∧
    decodeReceiptData (fieldsBytes row) = (receiptDataMeaning.run row).map (fun read => read.1) ∧
    decoded receiptReadFrom (fieldsBytes row) = (receiptMeaning.run row).map (fun read => read.1) :=
  ⟨decoded_meaning refines_transactionData fits,decoded_meaning refines_transaction fits,decoded_meaning refines_logEntry fits,
    decoded_meaning refines_receiptData fits,decoded_meaning refines_receipt fits⟩
/-- A row that starts with its greatest tag. -/
theorem decoders_compute_meanings_disordered :
    decodeTransaction (fieldsBytes [(8,.string [65]),(4,.integer 7)]) =
      (transactionMeaning.run [(8,.string [65]),(4,.integer 7)]).map (fun read => read.1) := by
  have fits : ∀ f ∈ [((8 : UInt8),Wire.string [65]),(4,.integer 7)], f.2.Fits := by
    simp only [List.forall_mem_cons,List.not_mem_nil,false_imp_iff,implies_true,and_true]
    exact ⟨.string (by decide),.integer (by decide) (by decide)⟩
  exact (decoders_compute_meanings fits).2.1

/-- With ascending tags, only the fields that the struct knows count: those of other tags are
    ignored, and of those that are missing or of another type the first one is reported. -/
theorem decoders_know_fields {row : List (UInt8 × Wire)} (ascending : Row row) :
    decodeTransactionData (fieldsBytes row) = transactionDataOf (fun tag => row.lookup tag) ∧
    decodeTransaction (fieldsBytes row) = transactionOf (fun tag => row.lookup tag) :=
  ⟨(decoded_meaning refines_transactionData ascending.fits).trans (transactionData_value ascending.ascending),
    (decoded_meaning refines_transaction ascending.fits).trans (transaction_value ascending.ascending)⟩
/-- The fields of a transaction's data, with a later one behind them. -/
def laterData : List (UInt8 × Wire) :=
  [(1,.integer 0),(2,.string (lit "chain0")),(3,.string (lit "group0")),(4,.integer 500),(5,.string (lit "17")),(7,.chars [96,1]),
    (9,.list [.integer 7])]
/-- The fields of a transaction among later ones. -/
def laterTransaction : List (UInt8 × Wire) := [(1,.struct laterData),(2,.chars [7,8]),(4,.integer 5),(6,.string [65]),(9,.struct [])]

/-- What is known is read, and the later fields are passed over. -/
theorem decoders_know_fields_mixed :
    decodeTransactionData (fieldsBytes laterData) = .ok ⟨0,lit "chain0",lit "group0",500,lit "17",[],[96,1],[]⟩ ∧
      decodeTransaction (fieldsBytes laterTransaction) =
        .ok ⟨⟨0,lit "chain0",lit "group0",500,lit "17",[],[96,1],[]⟩,[7,8],[],5,0,[],[]⟩ := by
  have short : ∀ text : String, (lit text).length ≤ tarsMaxStringLength → Wire.Fits (.string (lit text)) := fun _ size => .string size
  have inner : ∀ f ∈ laterData, f.2.Fits := by
    simp only [laterData,List.forall_mem_cons]
    refine ⟨.integer (by decide) (by decide),short _ (by decide +kernel),short _ (by decide +kernel),.integer (by decide) (by decide),
      short _ (by decide +kernel),.chars (by decide),.list (by decide) ?_,by simp⟩
    simpa using Wire.Fits.integer (by decide) (by decide)
  have outer : ∀ f ∈ laterTransaction, f.2.Fits := by
    simp only [laterTransaction,List.forall_mem_cons]
    exact ⟨.struct inner,.chars (by decide),.integer (by decide) (by decide),short "A" (by decide +kernel),.struct (by simp),by simp⟩
  exact ⟨(decoders_know_fields ⟨by decide,inner⟩).1.trans rfl,(decoders_know_fields ⟨by decide,outer⟩).2.trans rfl⟩

/-! ### Cut transactions -/

/-- The transaction without its fields from a tag on. -/
def beforeTag (x : Transaction) (tag : UInt8) : Transaction where
  data := if 1 < tag then x.data else resetTransactionData
  dataHash := if 2 < tag then x.dataHash else []
  signature := if 3 < tag then x.signature else []
  importTime := if 4 < tag then x.importTime else 0
  transactionAttribute := if 5 < tag then x.transactionAttribute else 0
  sender := if 7 < tag then x.sender else []
  extraData := if 8 < tag then x.extraData else []
/-- The fields before a tag. -/
def fieldsBefore (tag : UInt8) (row : List (UInt8 × Wire)) : List (UInt8 × Wire) := row.takeWhile (fun f => f.1 < tag)

section
variable {row : List (UInt8 × Wire)} {tag : UInt8}

private theorem lookup_fieldsBefore (ascending : row.Pairwise (fun f g => f.1 < g.1)) (tag t : UInt8) :
    (fieldsBefore tag row).lookup t = if t < tag then row.lookup t else none := by
  induction row with
  | nil => simp [fieldsBefore]
  | cons f row ih =>
    obtain ⟨first,rest⟩ := List.pairwise_cons.mp ascending
    have later := ih rest
    by_cases before : f.1 < tag
    · rw [fieldsBefore,List.takeWhile_cons_of_pos (by simpa using before),← fieldsBefore]
      by_cases here : t = f.1
      · rw [here,lookup_here,lookup_here,if_pos before]
      · rw [lookup_other here,lookup_other here,later]
    · rw [fieldsBefore,List.takeWhile_cons_of_neg (by simpa using before)]
      split_ifs with less
      · have other : ∀ g ∈ f :: row, t ≠ g.1 := by
          rintro g member rfl
          rcases List.mem_cons.mp member with rfl | member
          · exact before less
          · exact before (UInt8.lt_trans (first g member) less)
        refine (List.lookup_eq_none_iff.mpr (fun g member => ?_)).symm
        simpa using other g member
      · rfl
private theorem row_fieldsBefore (ascending : Row row) : Row (fieldsBefore tag row) :=
  ⟨ascending.ascending.sublist (List.takeWhile_sublist _),fun f member => ascending.fits f ((List.takeWhile_sublist _).mem member)⟩
private theorem fieldsBytes_append (row more : List (UInt8 × Wire)) : fieldsBytes (row ++ more) = fieldsBytes row ++ fieldsBytes more := by
  induction row with
  | nil => rfl
  | cons f row ih => simp [fieldsBytes,ih]

/-- A field that is kept, or that is cut off and not required. -/
theorem found_before {slots : List Slot} (ascending : slots.Pairwise (fun s t => s.tag < t.tag))
    (fits : ∀ slot ∈ slots, slot.wire.Fits) (slot : Slot) {kept : Slot} (member : slot ∈ slots) (same : kept.tag = slot.tag)
    (before : slot.tag < tag → kept = slot) (behind : ¬ slot.tag < tag → kept.lacking) :
    kept.Found (fieldsBefore tag (written slots)) := by
  have looked := lookup_fieldsBefore (row_written ascending fits).ascending tag slot.tag
  by_cases less : slot.tag < tag
  · rw [before less,Slot.Found,looked,if_pos less]
    exact found_slots ascending (fun _ _ => rfl) slot member
  · rw [if_neg less] at looked
    exact .inr ⟨behind less,by rw [same,looked]⟩

end

private theorem valid_beforeTag {x : Transaction} (valid : ValidTransaction x) (tag : UInt8) : ValidTransaction (beforeTag x tag) := by
  constructor <;> simp only [beforeTag] <;> split_ifs
  · exact valid.data
  · exact valid_resetTransactionData
  · exact valid.dataHash
  · exact empty_chars
  · exact valid.signature
  · exact empty_chars
  · exact valid.sender
  · exact empty_chars
  · exact valid.extraData
  · exact empty_string

/-- Whatever fields at its end are cut off an encoded transaction, the rest is decoded without
    an exception, as a transaction that has their defaults. -/
theorem cut_transaction_decodes {x : Transaction} (valid : ValidTransaction x) (tag : UInt8) :
    ∃ cut : Bytes, encodeTransaction x = .ok (fieldsBytes (fieldsBefore tag (written (transactionSlots x))) ++ cut) ∧
      decodeTransaction (fieldsBytes (fieldsBefore tag (written (transactionSlots x)))) = .ok (beforeTag x tag) := by
  have ascending := transactionCodec.ascending x
  have fits := transactionCodec.fits x valid
  refine ⟨fieldsBytes ((written (transactionSlots x)).dropWhile (fun f => f.1 < tag)),?_,?_⟩
  · rw [← fieldsBytes_append,fieldsBefore,List.takeWhile_append_dropWhile]
    exact encoded_of_writes (transactionCodec.writes x valid)
  · refine decoded_row transactionCodec (valid_beforeTag valid tag) (row_fieldsBefore (row_written ascending fits)) ?_
    show ∀ slot ∈ transactionSlots (beforeTag x tag),slot.Found _
    simp only [transactionSlots,List.forall_mem_cons,List.not_mem_nil,false_imp_iff,implies_true,and_true]
    refine ⟨?_,?_,?_,?_,?_,?_,?_⟩
    · exact found_before ascending fits (.always 1 (transactionDataCodec.codec.wire x.data) (x.data = resetTransactionData))
        (by simp [transactionCodec,transactionSlots]) rfl (fun less => by rw [show (beforeTag x tag).data = x.data from if_pos less]) (fun behind => if_neg behind)
    · exact found_before ascending fits (.optional 2 (.chars x.dataHash) (x.dataHash = []))
        (by simp [transactionCodec,transactionSlots]) rfl (fun less => by rw [show (beforeTag x tag).dataHash = x.dataHash from if_pos less]) (fun behind => if_neg behind)
    · exact found_before ascending fits (.optional 3 (.chars x.signature) (x.signature = []))
        (by simp [transactionCodec,transactionSlots]) rfl (fun less => by rw [show (beforeTag x tag).signature = x.signature from if_pos less]) (fun behind => if_neg behind)
    · exact found_before ascending fits (.optional 4 (int64Codec.wire x.importTime) (x.importTime = 0))
        (by simp [transactionCodec,transactionSlots]) rfl (fun less => by rw [show (beforeTag x tag).importTime = x.importTime from if_pos less]) (fun behind => if_neg behind)
    · exact found_before ascending fits (.optional 5 (int32Codec.wire x.transactionAttribute) (x.transactionAttribute = 0))
        (by simp [transactionCodec,transactionSlots]) rfl (fun less => by rw [show (beforeTag x tag).transactionAttribute = x.transactionAttribute from if_pos less]) (fun behind => if_neg behind)
    · exact found_before ascending fits (.optional 7 (.chars x.sender) (x.sender = []))
        (by simp [transactionCodec,transactionSlots]) rfl (fun less => by rw [show (beforeTag x tag).sender = x.sender from if_pos less]) (fun behind => if_neg behind)
    · exact found_before ascending fits (.optional 8 (.string x.extraData) (x.extraData = []))
        (by simp [transactionCodec,transactionSlots]) rfl (fun less => by rw [show (beforeTag x tag).extraData = x.extraData from if_pos less]) (fun behind => if_neg behind)

/-- A transaction whose signature is cut off. -/
theorem cut_transaction_decodes_unsigned :
    ∃ cut : Bytes, encodeTransaction ⟨resetTransactionData,[1,2],[3],0,0,[],[]⟩ =
        .ok (fieldsBytes (fieldsBefore 3 (written (transactionSlots ⟨resetTransactionData,[1,2],[3],0,0,[],[]⟩))) ++ cut) ∧
      decodeTransaction (fieldsBytes (fieldsBefore 3 (written (transactionSlots ⟨resetTransactionData,[1,2],[3],0,0,[],[]⟩)))) =
        .ok (beforeTag ⟨resetTransactionData,[1,2],[3],0,0,[],[]⟩ 3) :=
  cut_transaction_decodes (x := ⟨resetTransactionData,[1,2],[3],0,0,[],[]⟩)
    ⟨valid_resetTransactionData,show 2 < 4294967296 by decide,show 1 < 4294967296 by decide,empty_chars,empty_string⟩ 3

/-! ### Signed transactions -/

/-- The crypto suites of a builder. -/
inductive Suite where
  | ecdsa
  | sm
  | hsm
  deriving DecidableEq

/-- What the suites compute: a hash of what the hasher is fed, and a signature of a hash. -/
structure Suites (κ : Type) where
  hash : Suite → Bytes → Bytes
  sign : Suite → KeyPair κ → Bytes → Call Bytes

/-- The suite of `calculateTransactionDataHash`. -/
def hashSuite : KeyPairType → Suite
  | .sm2 | .hsmSM2 => .sm
  | _ => .ecdsa
/-- The suite of `signTransactionDataHash`. -/
def signSuite : KeyPairType → Suite
  | .sm2 => .sm
  | .hsmSM2 => .hsm
  | _ => .ecdsa
/-- An exception of a stream. -/
def ofTars : Except TarsFailure α → Call α
  | .ok a => .ok a
  | .error (.throws _ what) => .error (.throws what)
  | .error .undefined => .error .undefined
  | .error .diverges => .error .diverges

section
variable {κ : Type}

/-- `TransactionBuilder::createSignedTransaction`: the texts of the hash and of the transaction. -/
def createSignedTransaction (U : HexUtilities) (suites : Suites κ) (randomStr : Bytes) (signing : Signing κ) : Call (Bytes × Bytes) := do
  let transactionData := createTransactionData signing.groupID signing.chainID signing.receiver signing.data signing.abi
    signing.blockLimit randomStr
  let transactionDataHash := suites.hash (hashSuite signing.keyPair.keyPairType) transactionData.preimage
  let signData ← suites.sign (signSuite signing.keyPair.keyPairType) signing.keyPair transactionDataHash
  let transaction := createTransaction transactionData signData transactionDataHash signing.transactionAttribute signing.extraData
  let encodedTx ← ofTars (encodeTransaction transaction)
  .ok (U.toHexStringWithPrefix transactionDataHash,U.toHexStringWithPrefix encodedTx)

/-- Their documented behaviour: a hash has 32 bytes, and a signature has the size of one. -/
structure Suites.Documented (suites : Suites κ) : Prop where
  hash_length : ∀ suite content, (suites.hash suite content).length = 32
  sign_length : ∀ suite keyPair content signData, suites.sign suite keyPair content = .ok signData → signData.length ≤ 128

end

/-! A text that is too long is not written. -/

private theorem run_then_ok {x y : TarsWrite} {w : Bytes} (ran : ((do
    x
    y : TarsWrite).run w).1 = .ok ()) : (x.run w).1 = .ok () ∧ ∃ more, (y.run more).1 = .ok () := by
  rcases first : x.run w with ⟨outcome,after⟩
  cases outcome with
  | ok _ =>
    rw [run_bind first] at ran
    exact ⟨rfl,after,ran⟩
  | error e =>
    rw [run_bind_error first] at ran
    cases ran
private theorem string_written {s : Bytes} {tag : UInt8} {w : Bytes} (ran : ((writeString s tag).run w).1 = .ok ()) : stringCodec.Valid s := by
  by_contra long
  have most : ¬ s.length ≤ tarsMaxStringLength := long
  simp only [tarsMaxStringLength] at most
  rw [writeString,if_pos (by omega),if_pos (by simp only [tarsMaxStringLength]; omega)] at ran
  cases ran
private theorem optional_string_written {s : Bytes} {tag : UInt8} {w : Bytes} (ran : ((writeIf (s ≠ []) (writeString s tag)).run w).1 = .ok ()) :
    stringCodec.Valid s := by
  by_cases here : s ≠ []
  · rw [writeIf,if_pos here] at ran
    exact string_written ran
  · rw [not_not.mp here]
    exact empty_string

/-- What is encoded has texts that the format has room for. -/
theorem valid_of_transactionData {x : TransactionData} (input : charsCodec.Valid x.input) {w : Bytes}
    (ran : ((transactionDataWriteTo x).run w).1 = .ok ()) : ValidTransactionData x := by
  obtain ⟨_,_,ran⟩ := run_then_ok ran
  obtain ⟨chainID,_,ran⟩ := run_then_ok ran
  obtain ⟨groupID,_,ran⟩ := run_then_ok ran
  obtain ⟨_,_,ran⟩ := run_then_ok ran
  obtain ⟨nonce,_,ran⟩ := run_then_ok ran
  obtain ⟨toAddress,_,ran⟩ := run_then_ok ran
  obtain ⟨_,_,abi⟩ := run_then_ok ran
  exact ⟨string_written chainID,string_written groupID,string_written nonce,optional_string_written toAddress,input,
    optional_string_written abi⟩
private theorem valid_of_encoded {x : Transaction} {txBytes : Bytes} (input : charsCodec.Valid x.data.input) (dataHash : charsCodec.Valid x.dataHash)
    (signature : charsCodec.Valid x.signature) (sender : charsCodec.Valid x.sender) (same : encodeTransaction x = .ok txBytes) :
    ValidTransaction x := by
  have ran : ((transactionWriteTo x).run []).1 = .ok () := by
    unfold encodeTransaction encoded at same
    split at same
    · exact congrArg Prod.fst ‹_›
    · cases same
  obtain ⟨data,_,ran⟩ := run_then_ok ran
  obtain ⟨_,_,ran⟩ := run_then_ok ran
  obtain ⟨_,_,ran⟩ := run_then_ok ran
  obtain ⟨_,_,ran⟩ := run_then_ok ran
  obtain ⟨_,_,ran⟩ := run_then_ok ran
  obtain ⟨_,_,extraData⟩ := run_then_ok ran
  obtain ⟨_,_,data⟩ := run_then_ok data
  obtain ⟨data,_,_⟩ := run_then_ok data
  exact ⟨valid_of_transactionData input data,dataHash,signature,sender,optional_string_written extraData⟩

section
variable {κ : Type} {U : HexUtilities} {suites : Suites κ}

/-- The texts of a signed transaction stand for the bytes of a transaction with the arguments,
    whose hash is that of its data and whose signature is one of this hash. -/
theorem signed_transaction_comes_back (documented : U.Documented) (known : suites.Documented) {signing : Signing κ} {randomStr : Bytes}
    (size : signing.data.length < 4294967296) {transactionHash signedTransaction : Bytes}
    (signed : createSignedTransaction U suites randomStr signing = .ok (transactionHash,signedTransaction)) :
    ∃ txBytes x, U.fromHexString signedTransaction = .ok txBytes ∧ decodeTransaction txBytes = .ok x ∧
      x.data = createTransactionData signing.groupID signing.chainID signing.receiver signing.data signing.abi signing.blockLimit randomStr ∧
      x.dataHash = suites.hash (hashSuite signing.keyPair.keyPairType) x.data.preimage ∧
      U.fromHexString transactionHash = .ok x.dataHash ∧
      suites.sign (signSuite signing.keyPair.keyPairType) signing.keyPair x.dataHash = .ok x.signature ∧
      x.transactionAttribute = signing.transactionAttribute ∧ x.extraData = signing.extraData := by
  obtain ⟨signData,made,signed⟩ := bind_ok.mp signed
  obtain ⟨encodedTx,written,returned⟩ := bind_ok.mp signed
  obtain ⟨rfl,rfl⟩ := Prod.mk.inj (Except.ok.inj returned)
  generalize hash : suites.hash (hashSuite signing.keyPair.keyPairType) _ = dataHash at made written ⊢
  generalize whole : createTransaction _ signData dataHash _ _ = x at written
  have same : encodeTransaction x = .ok encodedTx := by
    revert written
    cases encodeTransaction x with
    | ok txBytes => exact congrArg _ ∘ Except.ok.inj
    | error e => cases e <;> exact fun written => by cases written
  have valid : ValidTransaction x := by
    have hashed : dataHash.length < 4294967296 := by
      rw [← hash,known.hash_length]
      decide
    have signature : signData.length < 4294967296 := Nat.lt_of_le_of_lt (known.sign_length _ _ _ _ made) (by decide)
    subst whole
    exact valid_of_encoded size hashed signature empty_chars same
  subst whole
  obtain ⟨txBytes,again,read⟩ := decoded_encoded (c := transactionCodec) valid
  obtain rfl : txBytes = encodedTx := Except.ok.inj (again.symm.trans same)
  exact ⟨txBytes,_,documented.prefix_reads txBytes,read,rfl,hash.symm,documented.prefix_reads dataHash,made,rfl,rfl⟩

end

/-- Code that is deployed, signed with the key 1. -/
def deployment : Signing Unit where
  keyPair := ⟨.secp256K1,()⟩
  receiver := []
  data := ofHex (lit "60806040")
  abi := []
  transactionAttribute := 0
  extraData := []
  groupID := lit "group0"
  chainID := lit "chain0"
  blockLimit := 500
/-- The Keccak hash of its preimage with the nonce 17, and the signature. -/
def deploymentSuites : Suites Unit where
  hash _ _ := ofHex (lit "985a33761f0deccab2a2889dae969c991f090b076d2e1f2e024b4f22532ac610")
  sign _ _ _ := .ok (ofHex (lit "f01d6b9018ab421dd410404cb869072065522bf85734008f105cf385a023a80f" ++
    lit "5572b4f1c65af2865003c9e470477b1b7634cb4bceefe2b974485740af8fc6a601"))
/-- What is signed. -/
def deployed : Bytes × Bytes :=
  match createSignedTransaction HexUtilities.reference deploymentSuites (lit "17") deployment with
  | .ok texts => texts
  | .error _ => ([],[])

theorem signed_transaction_comes_back_deployment :
    ∃ txBytes x, HexUtilities.reference.fromHexString deployed.2 = .ok txBytes ∧ decodeTransaction txBytes = .ok x ∧
      x.data = createTransactionData (lit "group0") (lit "chain0") [] [96,128,96,64] [] 500 (lit "17") ∧
      x.dataHash = deploymentSuites.hash .ecdsa x.data.preimage ∧ HexUtilities.reference.fromHexString deployed.1 = .ok x.dataHash ∧
      deploymentSuites.sign .ecdsa ⟨.secp256K1,()⟩ x.dataHash = .ok x.signature ∧ x.transactionAttribute = 0 ∧ x.extraData = [] := by
  have signed : createSignedTransaction HexUtilities.reference deploymentSuites (lit "17") deployment = .ok (deployed.1,deployed.2) := by
    decide +kernel
  have known : deploymentSuites.Documented := by
    refine ⟨fun _ _ => ?_,fun _ _ _ signData made => ?_⟩
    · simp only [deploymentSuites]
      decide +kernel
    · obtain rfl := Except.ok.inj made
      decide +kernel
  exact signed_transaction_comes_back hexUtilities_documented known (by decide) signed

end CppSdk.TarsBuilders

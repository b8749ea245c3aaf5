import CppSdk.TarsJsonStructs

/-!
The structs as JSON texts, and the builders that read and show them. In whatever order the maps
are iterated over, a struct is read back from its text exactly if the reader takes the numbers of
its 64-bit fields (`texts_come_back`); a shown receipt has a longer list of topics, and the same hash.
-/
namespace CppSdk.TarsJsonBuilders
open CppSdk.ByteString CppSdk.Runtime CppSdk.TarsJson CppSdk.TarsJsonGrammar CppSdk.TarsJsonRoundTrip CppSdk.TarsJsonStructs
open CppSdk.TransactionHash (TransactionData LogEntry TransactionReceiptData)
open CppSdk.TarsCodecs (StructCodec)
open CppSdk.TarsStructs CppSdk.TarsDecoding CppSdk.TarsBuilders
open CppSdk.ReceiptJson

variable {α : Type}

/-! ### Values that are written -/

/-- The value can be written, and is that of an object with distinct names if read back. -/
structure Writable (v : JsonValue) : Prop where
  distinct : Distinct v
  noNull : NoNull v

private theorem writable_string (value : Bytes) : Writable (.string value) :=
  ⟨distinct_leaf rfl (fun _ same => by cases same),(everywhere_leaf rfl).mpr (fun same => by cases same)⟩
private theorem writable_num (lvalue : Int64) : Writable (.num lvalue) :=
  ⟨distinct_leaf rfl (fun _ same => by cases same),(everywhere_leaf rfl).mpr (fun same => by cases same)⟩
private theorem writable_array {elements : List JsonValue} (each : ∀ v ∈ elements, Writable v) : Writable (.array elements) :=
  ⟨distinct_array.mpr (fun v member => (each v member).distinct),
    everywhere_array.mpr ⟨fun same => (by cases same),fun v member => (each v member).noNull⟩⟩
private theorem writable_obj {members : List (Bytes × JsonValue)} (names : (members.map Prod.fst).Nodup) (each : ∀ m ∈ members, Writable m.2) :
    Writable (.obj members) :=
  ⟨distinct_obj.mpr ⟨names,fun m member => (each m member).distinct⟩,
    everywhere_obj.mpr ⟨fun same => (by cases same),fun m member => (each m member).noNull⟩⟩
private theorem writable_mapped {β : Type} {write : β → JsonValue} (each : ∀ b, Writable (write b)) (elements : List β) :
    Writable (.array (elements.map write)) :=
  writable_array (List.forall_mem_map.mpr (fun b _ => each b))
private theorem brief_mapped {β : Type} {write : β → JsonValue} {elements : List β} :
    Brief (.array (elements.map write)) ↔ ∀ b ∈ elements, Brief (write b) :=
  brief_array.trans List.forall_mem_map
private theorem ranged_mapped {β : Type} {write : β → JsonValue} (each : ∀ b, Ranged (write b)) (elements : List β) :
    Ranged (.array (elements.map write)) :=
  ranged_array.mpr (List.forall_mem_map.mpr (fun b _ => each b))

/-- The reader takes the number. -/
def Taken (n : Int64) : Prop := n.toInt.natAbs ≤ greatest

private theorem taken_int32 (n : Int32) : Taken n.toInt64 := by
  have low := n.le_toInt
  have high := n.toInt_lt
  rw [Taken,Int32.toInt_toInt64,greatest]
  omega
private theorem taken_int8 (n : Int8) : Taken n.toInt64 := by
  have low := n.le_toInt
  have high := n.toInt_lt
  rw [Taken,Int8.toInt_toInt64,greatest]
  omega

/-! ### The structs -/

private theorem readChars_reads (content : Bytes) : readChars (some (writeChars content)) = .ok content := by
  have each : ∀ c, readChar (writeChar c) = .ok c := by
    intro c
    show Except.ok c.toInt8.toInt64.toInt8.toUInt8 = Except.ok c
    rw [Int8.toInt8_toInt64,UInt8.toUInt8_toInt8]
  rw [writeChars,readChars,mapM_written each,List.map_id']
private theorem writable_writeChars (content : Bytes) : Writable (writeChars content) := writable_mapped (fun _ => writable_num _) content
private theorem ranged_writeChars (content : Bytes) : Ranged (writeChars content) :=
  ranged_mapped (fun _ => ranged_num.mpr (taken_int8 _)) content
private theorem brief_writeChars (content : Bytes) : Brief (writeChars content) := brief_mapped.mpr (fun _ _ => brief_num _)

/-- With short names it is the values of the members that count. -/
theorem brief_named {members : List (Bytes × JsonValue)} (names : ∀ key ∈ members.map Prod.fst, key.length < 4294967296) :
    Brief (.obj members) ↔ ∀ m ∈ members, Brief m.2 :=
  brief_obj.trans (and_iff_right (List.forall_mem_map.mp names))

section
variable (U : HexUtilities)

private theorem writable_transactionData (x : TransactionData) : Writable (writeTransactionData U x) := by
  refine writable_obj (show (["version","chainID","groupID","blockLimit","nonce","to","input","abi"].map lit).Nodup by decide +kernel) ?_
  simp only [List.forall_mem_cons,List.not_mem_nil,false_imp_iff,implies_true,and_true]
  exact ⟨writable_num _,writable_string _,writable_string _,writable_num _,writable_string _,writable_string _,writable_string _,
    writable_string _⟩
private theorem ranged_transactionData (x : TransactionData) : Ranged (writeTransactionData U x) ↔ Taken x.blockLimit := by
  simp only [writeTransactionData,ranged_obj,List.forall_mem_cons,List.not_mem_nil,false_imp_iff,implies_true,and_true,ranged_string,
    true_and,ranged_num]
  exact and_iff_right (taken_int32 x.version)

private theorem brief_transactionData (x : TransactionData) : Brief (writeTransactionData U x) ↔
    x.chainID.length < 4294967296 ∧ x.groupID.length < 4294967296 ∧ x.nonce.length < 4294967296 ∧ x.toAddress.length < 4294967296 ∧
      (U.toHexStringWithPrefix x.input).length < 4294967296 ∧ x.abi.length < 4294967296 := by
  have names : ∀ key ∈ ["version","chainID","groupID","blockLimit","nonce","to","input","abi"].map lit, key.length < 4294967296 := by
    decide +kernel
  refine (brief_named ?_).trans ?_
  · exact names
  · simp only [List.forall_mem_cons,List.not_mem_nil,false_imp_iff,implies_true,and_true,brief_num,brief_string,true_and]

private theorem writable_transaction (x : Transaction) : Writable (writeTransaction U x) := by
  refine writable_obj (show (["data","dataHash","signature","importTime","attribute","sender","extraData"].map lit).Nodup by decide +kernel) ?_
  simp only [List.forall_mem_cons,List.not_mem_nil,false_imp_iff,implies_true,and_true]
  exact ⟨writable_transactionData U x.data,writable_writeChars _,writable_writeChars _,writable_num _,writable_num _,
    writable_writeChars _,writable_string _⟩
private theorem ranged_transaction (x : Transaction) : Ranged (writeTransaction U x) ↔ Taken x.data.blockLimit ∧ Taken x.importTime := by
  simp only [writeTransaction,ranged_obj,List.forall_mem_cons,List.not_mem_nil,false_imp_iff,implies_true,and_true,ranged_string,
    true_and,ranged_num,ranged_transactionData,ranged_writeChars]
  exact and_congr_right (fun _ => and_iff_left (taken_int32 x.transactionAttribute))

private theorem brief_transaction (x : Transaction) :
    Brief (writeTransaction U x) ↔ Brief (writeTransactionData U x.data) ∧ x.extraData.length < 4294967296 := by
  have names : ∀ key ∈ ["data","dataHash","signature","importTime","attribute","sender","extraData"].map lit, key.length < 4294967296 := by
    decide +kernel
  refine (brief_named ?_).trans ?_
  · exact names
  · simp only [List.forall_mem_cons,List.not_mem_nil,false_imp_iff,implies_true,and_true,brief_num,brief_string,brief_writeChars,true_and]

private theorem writable_logEntry (log : LogEntry) : Writable (writeLogEntry U log) := by
  refine writable_obj (show (["address","topics","data"].map lit).Nodup by decide +kernel) ?_
  simp only [List.forall_mem_cons,List.not_mem_nil,false_imp_iff,implies_true,and_true]
  exact ⟨writable_string _,writable_mapped writable_string _,writable_string _⟩
private theorem ranged_logEntry (log : LogEntry) : Ranged (writeLogEntry U log) := by
  simp only [writeLogEntry,ranged_obj,List.forall_mem_cons,List.not_mem_nil,false_imp_iff,implies_true,and_true,ranged_string,true_and]
  exact ranged_mapped ranged_string _
private theorem brief_logEntry (log : LogEntry) : Brief (writeLogEntry U log) ↔ log.address.length < 4294967296 ∧
    (∀ topic ∈ log.topic, (U.toHexString topic).length < 4294967296) ∧ (U.toHexStringWithPrefix log.data).length < 4294967296 := by
  have names : ∀ key ∈ ["address","topics","data"].map lit, key.length < 4294967296 := by decide +kernel
  have topics : (∀ s ∈ List.replicate log.topic.length [] ++ log.topic.map U.toHexString, s.length < 4294967296) ↔
      ∀ topic ∈ log.topic, (U.toHexString topic).length < 4294967296 := by
    rw [List.forall_mem_append,List.forall_mem_map]
    refine and_iff_right (fun s member => ?_)
    rw [List.eq_of_mem_replicate member]
    decide
  refine (brief_named ?_).trans ?_
  · exact names
  · simp only [List.forall_mem_cons,List.not_mem_nil,false_imp_iff,implies_true,and_true,brief_string,brief_mapped,topics]
private theorem writable_receiptData (r : TransactionReceiptData) : Writable (writeToJson U r) := by
  refine writable_obj (show (["version","gasUsed","contractAddress","status","output","logEntries","blockNumber"].map lit).Nodup by decide +kernel) ?_
  simp only [List.forall_mem_cons,List.not_mem_nil,false_imp_iff,implies_true,and_true]
  exact ⟨writable_num _,writable_string _,writable_string _,writable_num _,writable_string _,writable_mapped (writable_logEntry U) _,
    writable_num _⟩
private theorem ranged_receiptData (r : TransactionReceiptData) : Ranged (writeToJson U r) ↔ Taken r.blockNumber := by
  simp only [writeToJson,ranged_obj,List.forall_mem_cons,List.not_mem_nil,false_imp_iff,implies_true,and_true,ranged_string,
    true_and,ranged_num,ranged_mapped (ranged_logEntry U)]
  exact (and_iff_right (taken_int32 r.version)).trans (and_iff_right (taken_int32 r.status))
private theorem brief_receiptData (r : TransactionReceiptData) : Brief (writeToJson U r) ↔
    r.gasUsed.length < 4294967296 ∧ r.contractAddress.length < 4294967296 ∧ (U.toHexStringWithPrefix r.output).length < 4294967296 ∧
      ∀ log ∈ r.logEntries, Brief (writeLogEntry U log) := by
  have names : ∀ key ∈ ["version","gasUsed","contractAddress","status","output","logEntries","blockNumber"].map lit,
      key.length < 4294967296 := by decide +kernel
  refine (brief_named ?_).trans ?_
  · exact names
  · simp only [List.forall_mem_cons,List.not_mem_nil,false_imp_iff,implies_true,and_true,brief_num,brief_string,brief_mapped,true_and]

end

section
variable {U : HexUtilities} (documented : U.Documented)
include documented

private theorem transactionData_reads (x : TransactionData) : readTransactionData U (some (writeTransactionData U x)) = .ok x := by
  have read : readTransactionData U (some (writeTransactionData U x)) =
      (U.fromHexString (U.toHexStringWithPrefix x.input) >>= fun input =>
        .ok (TransactionData.mk x.version.toInt64.toInt32 x.chainID x.groupID x.blockLimit x.nonce x.toAddress input x.abi)) := rfl
  rw [read,documented.prefix_reads,ok_bind,Int32.toInt32_toInt64]
private theorem transaction_reads (x : Transaction) : readTransaction U (some (writeTransaction U x)) = .ok x := by
  have read : readTransaction U (some (writeTransaction U x)) =
      (readTransactionData U (some (writeTransactionData U x.data)) >>= fun data =>
        readChars (some (writeChars x.dataHash)) >>= fun dataHash => readChars (some (writeChars x.signature)) >>= fun signature =>
          readChars (some (writeChars x.sender)) >>= fun sender =>
            .ok (Transaction.mk data dataHash signature x.importTime x.transactionAttribute.toInt64.toInt32 sender x.extraData)) := rfl
  rw [read,transactionData_reads documented,ok_bind,readChars_reads,ok_bind,readChars_reads,ok_bind,readChars_reads,ok_bind,
    Int32.toInt32_toInt64]

end

/-! ### Texts -/

/-- The order in which the maps of a value are iterated over. -/
structure MapOrder where
  ordered : JsonValue → JsonValue
  alike : ∀ v, Alike v (ordered v)
/-- `writeToJsonString` of a struct with the value. -/
def writeToJsonString (order : MapOrder) (ndebug : Bool) (v : JsonValue) : Call Bytes := writeValue ndebug false (order.ordered v)

/-- `TransactionBuilder::createTransactionDataWithJson`. -/
def createTransactionDataWithJson (D : Doubles) (U : HexUtilities) (json : Bytes) : Call TransactionData :=
  readFromJsonString D (readTransactionData U) json
/-- `TransactionBuilder::decodeTransactionDataToJsonObj`. -/
def decodeTransactionDataToJsonObj (U : HexUtilities) (order : MapOrder) (ndebug : Bool) (txBytes : Bytes) : Call Bytes := do
  let txData ← ofTars (decodeTransactionData txBytes)
  writeToJsonString order ndebug (writeTransactionData U txData)
/-- `TransactionBuilder::decodeTransactionToJsonObj`. -/
def decodeTransactionToJsonObj (U : HexUtilities) (order : MapOrder) (ndebug : Bool) (txBytes : Bytes) : Call Bytes := do
  let tx ← ofTars (decodeTransaction txBytes)
  writeToJsonString order ndebug (writeTransaction U tx)
/-- `ReceiptBuilder::createReceiptDataWithJson`. -/
def createReceiptDataWithJson (D : Doubles) (U : HexUtilities) (json : Bytes) : Call TransactionReceiptData :=
  readFromJsonString D (readFromJson U) json
/-- `ReceiptBuilder::decodeReceiptDataToJsonObj`. -/
def decodeReceiptDataToJsonObj (U : HexUtilities) (order : MapOrder) (ndebug : Bool) (receiptBytes : Bytes) : Call Bytes := do
  let receiptData ← ofTars (decodeReceiptData receiptBytes)
  writeToJsonString order ndebug (writeToJson U receiptData)

/-- The structs are read alike from texts of values that differ in the order of members. -/
theorem texts_read_alike (D : Doubles) (U : HexUtilities) {str str' : Bytes} {v v' : JsonValue} (read : getValueOf D str = .ok v)
    (read' : getValueOf D str' = .ok v') (alike : Alike v v') :
    createTransactionDataWithJson D U str = createTransactionDataWithJson D U str' ∧
      readFromJsonString D (readTransaction U) str = readFromJsonString D (readTransaction U) str' ∧
      createReceiptDataWithJson D U str = createReceiptDataWithJson D U str' := by
  have views := reads_alike U alike (read_distinct D read)
  simp only [createTransactionDataWithJson,createReceiptDataWithJson,readFromJsonString,read,read',ok_bind]
  exact views

/-- A reader of texts whose numbers are integers. -/
def noDoubles : Doubles := ⟨fun _ _ _ _ => none⟩
/-- Texts of members in two orders. -/
def toFirst : Bytes := lit "\x7b\"to\":[],\"abi\":[]\x7d"
def abiFirst : Bytes := lit "\x7b\"abi\":[],\"to\":[]\x7d"

theorem texts_read_alike_swapped :
    createTransactionDataWithJson noDoubles HexUtilities.reference toFirst = createTransactionDataWithJson noDoubles HexUtilities.reference abiFirst ∧
      readFromJsonString noDoubles (readTransaction HexUtilities.reference) toFirst =
        readFromJsonString noDoubles (readTransaction HexUtilities.reference) abiFirst ∧
      createReceiptDataWithJson noDoubles HexUtilities.reference toFirst = createReceiptDataWithJson noDoubles HexUtilities.reference abiFirst := by
  have first : getValueOf noDoubles toFirst = .ok (.obj [(lit "to",.array []),(lit "abi",.array [])]) := by rfl
  have other : getValueOf noDoubles abiFirst = .ok (.obj [(lit "abi",.array []),(lit "to",.array [])]) := by rfl
  refine texts_read_alike noDoubles HexUtilities.reference first other ?_
  exact .obj rfl (List.forall₂_same.mpr (fun v _ => alike_refl v)) (List.Perm.swap _ _ _)

/-- The text of the value is read as the struct exactly if the condition holds; otherwise the reader comes to an
    operation that is not defined. -/
def ComesBack (D : Doubles) (order : MapOrder) (ndebug : Bool) (read : JsonValuePtr → Call α) (v : JsonValue) (a : α) (fits : Prop) : Prop :=
  ∃ text, writeToJsonString order ndebug v = .ok text ∧ (readFromJsonString D read text = .ok a ↔ fits) ∧
    (readFromJsonString D read text = .error .undefined ↔ ¬ fits)

private theorem comesBack (D : Doubles) (order : MapOrder) (ndebug : Bool) {read : JsonValuePtr → Call α} (respects : Respects read) {v : JsonValue}
    (writable : Writable v) (brief : Brief v) {a : α} (reads : read (some v) = .ok a) {fits : Prop} (ranged : Ranged v ↔ fits) :
    ComesBack D order ndebug read v a fits := by
  have alike := order.alike v
  have distinct := (distinct_alike alike).mp writable.distinct
  obtain ⟨text,wrote,written⟩ := value_written D distinct ((noNull_alike alike).mp writable.noNull)
    ((brief_alike alike).mp brief) ndebug false
  obtain ⟨back,undefined⟩ := written_back D written
  refine ⟨text,wrote,?_⟩
  rw [← ranged_alike alike,ranged] at back undefined
  have same : read (some (order.ordered v)) = .ok a := (respects _ _ (.some alike) (some_distinct writable.distinct)).symm.trans reads
  by_cases here : fits
  · rw [readFromJsonString,back.mpr here,ok_bind,same]
    simp [here]
  · rw [readFromJsonString,undefined.mpr here]
    simp [here,bind,Except.bind]

section
variable {U : HexUtilities} (documented : U.Documented)
include documented

/-- Transactions are read back from their texts exactly if the reader takes their numbers of 64 bits, and receipts
    too, with the topics of their log entries behind as many empty ones. -/
theorem texts_come_back (D : Doubles) (order : MapOrder) (ndebug : Bool) :
    (∀ x, Brief (writeTransactionData U x) →
      ComesBack D order ndebug (readTransactionData U) (writeTransactionData U x) x (Taken x.blockLimit)) ∧
    (∀ x, Brief (writeTransaction U x) →
      ComesBack D order ndebug (readTransaction U) (writeTransaction U x) x (Taken x.data.blockLimit ∧ Taken x.importTime)) ∧
    ∀ r, Brief (writeToJson U r) →
      ComesBack D order ndebug (readFromJson U) (writeToJson U r) { r with logEntries := r.logEntries.map doubled } (Taken r.blockNumber) :=
  ⟨fun x brief => comesBack D order ndebug (respects_readTransactionData U) (writable_transactionData U x) brief
      (transactionData_reads documented x) (ranged_transactionData U x),
    fun x brief => comesBack D order ndebug (respects_readTransaction U) (writable_transaction U x) brief (transaction_reads documented x)
      (ranged_transaction U x),
    fun r brief => comesBack D order ndebug (respects_readFromJson U) (writable_receiptData U r) brief (receipt_reads documented r)
      (ranged_receiptData U r)⟩

end

/-- Maps that keep the order of their members. -/
def inserted : MapOrder := ⟨id,alike_refl⟩

/-- The data of a deployment. -/
def deploymentData : TransactionData := createTransactionData (lit "group0") (lit "chain0") [] [1,2] [] 500 (lit "17")

private theorem brief_deploymentData : Brief (writeTransactionData HexUtilities.reference deploymentData) :=
  (brief_transactionData HexUtilities.reference deploymentData).mpr (by decide +kernel)
/-- A transaction of it, imported at 5. -/
def deploymentTransaction : Transaction := ⟨deploymentData,[7,8],[9],5,0,[],lit "extra"⟩

private theorem brief_transfer : Brief (writeToJson HexUtilities.reference (transfer [[7]])) := by
  refine (brief_receiptData HexUtilities.reference (transfer [[7]])).mpr ⟨?_,?_,?_,fun log member => ?_⟩
  · decide +kernel
  · decide +kernel
  · decide +kernel
  · obtain rfl := List.mem_singleton.mp member
    exact (brief_logEntry HexUtilities.reference _).mpr (by decide +kernel)

/-- The data, the transaction, and a receipt with a topic, which is read back with an empty one in front of it. -/
theorem texts_come_back_deployment :
    ComesBack noDoubles inserted true (readTransactionData HexUtilities.reference) (writeTransactionData HexUtilities.reference deploymentData)
      deploymentData (Taken 500) ∧
    ComesBack noDoubles inserted true (readTransaction HexUtilities.reference)
      (writeTransaction HexUtilities.reference deploymentTransaction) deploymentTransaction (Taken 500 ∧ Taken 5) ∧
    ComesBack noDoubles inserted true (readFromJson HexUtilities.reference) (writeToJson HexUtilities.reference (transfer [[7]]))
      (transfer [[],[7]]) (Taken 9) := by
  obtain ⟨datas,transactions,receipts⟩ := texts_come_back hexUtilities_documented noDoubles inserted true
  have brief : Brief (writeTransaction HexUtilities.reference deploymentTransaction) :=
    (brief_transaction HexUtilities.reference deploymentTransaction).mpr ⟨brief_deploymentData,by decide +kernel⟩
  exact ⟨datas deploymentData brief_deploymentData,transactions deploymentTransaction brief,receipts (transfer [[7]]) brief_transfer⟩

section
variable {U : HexUtilities} (documented : U.Documented)
include documented

omit documented in
/-- Bytes that are shown as a text are read as a struct that is encoded as bytes with the same text. -/
theorem shown_again {c : StructCodec α} (sound : StructSound c) {order : MapOrder} {ndebug : Bool} {write : α → JsonValue} {bytes text : Bytes}
    {x : α} (decodes : decoded c.readFrom bytes = .ok x) (written : writeToJsonString order ndebug (write x) = .ok text) :
    ∃ again, encoded (c.writeTo x) = .ok again ∧ decoded c.readFrom again = .ok x ∧ ∀ shown, shown = bytes ∨ shown = again →
      (ofTars (decoded c.readFrom shown) >>= fun x => writeToJsonString order ndebug (write x)) = .ok text := by
  obtain ⟨again,encodes,read⟩ := decoded_encoded (of_decoded sound.valid decodes)
  refine ⟨again,encodes,read,?_⟩
  rintro shown (rfl | rfl)
  · rw [decodes]
    exact written
  · rw [read]
    exact written

/-- Whatever bytes are shown as a text, the text stands for their transaction exactly if the reader takes its numbers
    of 64 bits. It is encoded again as bytes that are shown as the same text. -/
theorem shown_transactions_stand (D : Doubles) (order : MapOrder) (ndebug : Bool) :
    (∀ txBytes x, decodeTransactionData txBytes = .ok x → Brief (writeTransactionData U x) →
      ∃ text again, decodeTransactionDataToJsonObj U order ndebug txBytes = .ok text ∧
      (createTransactionDataWithJson D U text = .ok x ↔ Taken x.blockLimit) ∧
      (createTransactionDataWithJson D U text = .error .undefined ↔ ¬ Taken x.blockLimit) ∧ encodeTransactionData x = .ok again ∧
      decodeTransactionData again = .ok x ∧ decodeTransactionDataToJsonObj U order ndebug again = .ok text) ∧
    ∀ txBytes x, decodeTransaction txBytes = .ok x → Brief (writeTransaction U x) →
      ∃ text again, decodeTransactionToJsonObj U order ndebug txBytes = .ok text ∧
      (readFromJsonString D (readTransaction U) text = .ok x ↔ Taken x.data.blockLimit ∧ Taken x.importTime) ∧
      (readFromJsonString D (readTransaction U) text = .error .undefined ↔ ¬ (Taken x.data.blockLimit ∧ Taken x.importTime)) ∧
      encodeTransaction x = .ok again ∧ decodeTransaction again = .ok x ∧ decodeTransactionToJsonObj U order ndebug again = .ok text := by
  refine ⟨fun txBytes x decodes brief => ?_,fun txBytes x decodes brief => ?_⟩
  · obtain ⟨text,written,back,undefined⟩ := comesBack D order ndebug (respects_readTransactionData U) (writable_transactionData U x)
      brief (transactionData_reads documented x) (ranged_transactionData U x)
    obtain ⟨again,encodes,read,shown⟩ := shown_again sound_transactionData decodes written
    exact ⟨text,again,shown txBytes (.inl rfl),back,undefined,encodes,read,shown again (.inr rfl)⟩
  · obtain ⟨text,written,back,undefined⟩ := comesBack D order ndebug (respects_readTransaction U) (writable_transaction U x)
      brief (transaction_reads documented x) (ranged_transaction U x)
    obtain ⟨again,encodes,read,shown⟩ := shown_again sound_transaction decodes written
    exact ⟨text,again,shown txBytes (.inl rfl),back,undefined,encodes,read,shown again (.inr rfl)⟩

/-- Whatever bytes are shown as a text, the text stands for a receipt with the hash of theirs exactly if the reader
    takes its block number. This is their receipt itself exactly if its log entries have no topics. -/
theorem shown_receipt_stands (D : Doubles) (order : MapOrder) (ndebug : Bool) {receiptBytes : Bytes} {r : TransactionReceiptData}
    (decodes : decodeReceiptData receiptBytes = .ok r) (brief : Brief (writeToJson U r)) :
    ∃ text back, decodeReceiptDataToJsonObj U order ndebug receiptBytes = .ok text ∧ back.preimage = r.preimage ∧
      (createReceiptDataWithJson D U text = .ok back ↔ Taken r.blockNumber) ∧
      (createReceiptDataWithJson D U text = .error .undefined ↔ ¬ Taken r.blockNumber) ∧
      (back = r ↔ ∀ log ∈ r.logEntries, log.topic = []) := by
  obtain ⟨text,written,back,undefined⟩ := comesBack D order ndebug (respects_readFromJson U) (writable_receiptData U r)
    brief (receipt_reads documented r) (ranged_receiptData U r)
  have shown : decodeReceiptDataToJsonObj U order ndebug receiptBytes = .ok text := by
    rw [decodeReceiptDataToJsonObj,decodes]
    exact written
  refine ⟨text,_,shown,preimage_doubled r,back,undefined,?_⟩
  rw [← map_doubled_iff]
  exact ⟨congrArg TransactionReceiptData.logEntries,fun same => by rw [same]⟩

end

theorem shown_transactions_stand_deployment :
    ∃ txBytes text again, decodeTransactionDataToJsonObj HexUtilities.reference inserted true txBytes = .ok text ∧
      (createTransactionDataWithJson noDoubles HexUtilities.reference text = .ok deploymentData ↔ Taken 500) ∧
      (createTransactionDataWithJson noDoubles HexUtilities.reference text = .error .undefined ↔ ¬ Taken 500) ∧
      encodeTransactionData deploymentData = .ok again ∧ decodeTransactionData again = .ok deploymentData ∧
      decodeTransactionDataToJsonObj HexUtilities.reference inserted true again = .ok text := by
  have valid : ValidTransactionData deploymentData := by
    constructor
    · exact show (lit "chain0").length ≤ 104857600 by decide +kernel
    · exact show (lit "group0").length ≤ 104857600 by decide +kernel
    · exact show (lit "17").length ≤ 104857600 by decide +kernel
    · exact empty_string
    · exact show 2 < 4294967296 by decide
    · exact empty_string
  obtain ⟨txBytes,_,decodes⟩ := decoded_encoded (c := transactionDataCodec) valid
  exact ⟨txBytes,(shown_transactions_stand hexUtilities_documented noDoubles inserted true).1 txBytes deploymentData decodes
    brief_deploymentData⟩

theorem shown_receipt_stands_transfer :
    ∃ receiptBytes text back, decodeReceiptDataToJsonObj HexUtilities.reference inserted true receiptBytes = .ok text ∧
      back.preimage = (transfer [[7]]).preimage ∧ (createReceiptDataWithJson noDoubles HexUtilities.reference text = .ok back ↔ Taken 9) ∧
      (createReceiptDataWithJson noDoubles HexUtilities.reference text = .error .undefined ↔ ¬ Taken 9) ∧
      (back = transfer [[7]] ↔ ∀ log ∈ (transfer [[7]]).logEntries, log.topic = []) := by
  have valid : ValidReceiptData (transfer [[7]]) := by
    constructor
    · exact show (lit "24363").length ≤ 104857600 by decide +kernel
    · exact show (lit "01").length ≤ 104857600 by decide +kernel
    · exact show 2 < 4294967296 by decide
    · refine ⟨show 1 < 4294967296 by decide,fun log member => ?_⟩
      obtain rfl := List.mem_singleton.mp member
      refine ⟨show (lit "a").length ≤ 104857600 by decide +kernel,⟨show 1 < 4294967296 by decide,fun topic member => ?_⟩,
        show 1 < 4294967296 by decide⟩
      obtain rfl := List.mem_singleton.mp member
      exact show 1 < 4294967296 by decide
  obtain ⟨receiptBytes,_,decodes⟩ := decoded_encoded (c := receiptDataCodec) valid
  exact ⟨receiptBytes,shown_receipt_stands hexUtilities_documented noDoubles inserted true decodes brief_transfer⟩

end CppSdk.TarsJsonBuilders

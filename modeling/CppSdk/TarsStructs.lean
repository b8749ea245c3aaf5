import CppSdk.TarsCodecs
import CppSdk.TransactionHash

/-!
The structs of `Transaction.h` and `TransactionReceipt.h` on the wire: `writeTo` and `readFrom`,
and what the readers make of any row of fields. A field that is not known is skipped, and one
that is left out leaves the default.
-/
namespace CppSdk.TarsStructs
open CppSdk.ByteString CppSdk.Runtime CppSdk.Cursors CppSdk.TarsStream CppSdk.TarsSafety CppSdk.TarsFields CppSdk.TarsCodecs
open CppSdk.TransactionHash (TransactionData LogEntry TransactionReceiptData)

/-! ### The structs -/

/-- `Transaction`. -/
structure Transaction where
  data : TransactionData
  dataHash : Bytes
  signature : Bytes
  importTime : Int64
  /-- `attribute`. -/
  transactionAttribute : Int32
  sender : Bytes
  extraData : Bytes

/-- `TransactionReceipt`. -/
structure TransactionReceipt where
  data : TransactionReceiptData
  dataHash : Bytes
  message : Bytes

/-- What `resetDefault` sets. -/
def resetTransactionData : TransactionData := ⟨0,[],[],0,[],[],[],[]⟩
def resetLogEntry : LogEntry := ⟨[],[],[]⟩
def resetReceiptData : TransactionReceiptData := ⟨0,[],[],0,[],[],0⟩

/-- `TransactionData::writeTo`. -/
def transactionDataWriteTo (x : TransactionData) : TarsWrite := do
  writeInt32 x.version 1
  writeString x.chainID 2
  writeString x.groupID 3
  writeInt64 x.blockLimit 4
  writeString x.nonce 5
  writeIf (x.toAddress ≠ []) (writeString x.toAddress 6)
  writeChars x.input 7
  writeIf (x.abi ≠ []) (writeString x.abi 8)
/-- `TransactionData::readFrom`. -/
def transactionDataReadFrom : TarsRead TransactionData := do
  let version ← readInt32 0 1 true
  let chainID ← readString [] 2 true
  let groupID ← readString [] 3 true
  let blockLimit ← readInt64 0 4 true
  let nonce ← readString [] 5 true
  let toAddress ← readString [] 6 false
  let input ← readChars [] 7 true
  let abi ← readString [] 8 false
  pure ⟨version,chainID,groupID,blockLimit,nonce,toAddress,input,abi⟩

/-- `Transaction::writeTo`. -/
def transactionWriteTo (x : Transaction) : TarsWrite := do
  writeStruct (transactionDataWriteTo x.data) 1
  writeIf (0 < x.dataHash.length) (writeChars x.dataHash 2)
  writeIf (0 < x.signature.length) (writeChars x.signature 3)
  writeIf (x.importTime ≠ 0) (writeInt64 x.importTime 4)
  writeIf (x.transactionAttribute ≠ 0) (writeInt32 x.transactionAttribute 5)
  writeIf (0 < x.sender.length) (writeChars x.sender 7)
  writeIf (x.extraData ≠ []) (writeString x.extraData 8)
/-- `Transaction::readFrom`. -/
def transactionReadFrom : TarsRead Transaction := do
  let data ← readStruct transactionDataReadFrom resetTransactionData 1 false
  let dataHash ← readChars [] 2 false
  let signature ← readChars [] 3 false
  let importTime ← readInt64 0 4 false
  let transactionAttribute ← readInt32 0 5 false
  let sender ← readChars [] 7 false
  let extraData ← readString [] 8 false
  pure ⟨data,dataHash,signature,importTime,transactionAttribute,sender,extraData⟩

/-- `LogEntry::writeTo`. -/
def logEntryWriteTo (x : LogEntry) : TarsWrite := do
  writeIf (x.address ≠ []) (writeString x.address 1)
  writeIf (0 < x.topic.length) (writeVector writeChars x.topic 2)
  writeIf (0 < x.data.length) (writeChars x.data 3)
/-- `LogEntry::readFrom`. -/
def logEntryReadFrom : TarsRead LogEntry := do
  let address ← readString [] 1 false
  let topic ← readVector (fun tag => readChars [] tag true) [] 2 false
  let data ← readChars [] 3 false
  pure ⟨address,topic,data⟩

/-- `TransactionReceiptData::writeTo`. -/
def receiptDataWriteTo (x : TransactionReceiptData) : TarsWrite := do
  writeInt32 x.version 1
  writeIf (x.gasUsed ≠ []) (writeString x.gasUsed 2)
  writeIf (x.contractAddress ≠ []) (writeString x.contractAddress 3)
  writeIf (x.status ≠ 0) (writeInt32 x.status 4)
  writeIf (0 < x.output.length) (writeChars x.output 5)
  writeIf (0 < x.logEntries.length) (writeVector (fun log => writeStruct (logEntryWriteTo log)) x.logEntries 6)
  writeIf (x.blockNumber ≠ 0) (writeInt64 x.blockNumber 7)
/-- `TransactionReceiptData::readFrom`. -/
def receiptDataReadFrom : TarsRead TransactionReceiptData := do
  let version ← readInt32 0 1 true
  let gasUsed ← readString [] 2 false
  let contractAddress ← readString [] 3 false
  let status ← readInt32 0 4 false
  let output ← readChars [] 5 false
  let logEntries ← readVector (fun tag => readStruct logEntryReadFrom resetLogEntry tag true) [] 6 false
  let blockNumber ← readInt64 0 7 false
  pure ⟨version,gasUsed,contractAddress,status,output,logEntries,blockNumber⟩

/-- `TransactionReceipt::writeTo`. -/
def receiptWriteTo (x : TransactionReceipt) : TarsWrite := do
  writeStruct (receiptDataWriteTo x.data) 1
  writeIf (0 < x.dataHash.length) (writeChars x.dataHash 2)
  writeIf (x.message ≠ []) (writeString x.message 3)
/-- `TransactionReceipt::readFrom`. -/
def receiptReadFrom : TarsRead TransactionReceipt := do
  let data ← readStruct receiptDataReadFrom resetReceiptData 1 false
  let dataHash ← readChars [] 2 false
  let message ← readString [] 3 false
  pure ⟨data,dataHash,message⟩

/-! ### Transactions -/

/-- The sizes that the formats have room for. -/
structure ValidTransactionData (x : TransactionData) : Prop where
  chainID : stringCodec.Valid x.chainID
  groupID : stringCodec.Valid x.groupID
  nonce : stringCodec.Valid x.nonce
  toAddress : stringCodec.Valid x.toAddress
  input : charsCodec.Valid x.input
  abi : stringCodec.Valid x.abi

def transactionDataSlots (x : TransactionData) : List Slot :=
  [.required 1 (int32Codec.wire x.version),.required 2 (.string x.chainID),.required 3 (.string x.groupID),
    .required 4 (int64Codec.wire x.blockLimit),.required 5 (.string x.nonce),.optional 6 (.string x.toAddress) (x.toAddress = []),
    .required 7 (.chars x.input),.optional 8 (.string x.abi) (x.abi = [])]

def transactionDataCodec : StructCodec TransactionData where
  writeTo := transactionDataWriteTo
  readFrom := transactionDataReadFrom
  slots := transactionDataSlots
  least := 9
  Valid := ValidTransactionData
  ascending _ := by simp [transactionDataSlots]
  fits x valid := by
    simp only [transactionDataSlots,List.forall_mem_cons,List.not_mem_nil,false_imp_iff,implies_true,and_true]
    exact ⟨int32Codec.fits _ trivial,.string valid.chainID,.string valid.groupID,int64Codec.fits _ trivial,.string valid.nonce,
      .string valid.toAddress,.chars valid.input,.string valid.abi⟩
  writes x valid := by
    simp only [transactionDataSlots,fieldsBytes_written]
    rw [fieldsBytes_last]
    refine writes_then (writes_slot rfl (writes_int32 x.version 1)) ?_
    refine writes_then (writes_slot rfl (stringCodec.writes _ 2 valid.chainID)) ?_
    refine writes_then (writes_slot rfl (stringCodec.writes _ 3 valid.groupID)) ?_
    refine writes_then (writes_slot rfl (writes_int64 x.blockLimit 4)) ?_
    refine writes_then (writes_slot rfl (stringCodec.writes _ 5 valid.nonce)) ?_
    refine writes_then (writes_if (by simp) (stringCodec.writes _ 6 valid.toAddress)) ?_
    refine writes_then (writes_slot rfl (charsCodec.writes _ 7 valid.input)) ?_
    exact writes_if (by simp) (stringCodec.writes _ 8 valid.abi)
  reads x valid row ascending found rest closes := by
    simp only [transactionDataSlots,List.forall_mem_cons,List.not_mem_nil,false_imp_iff,implies_true,and_true] at found
    obtain ⟨version,chainID,groupID,blockLimit,nonce,toAddress,input,abi⟩ := found
    rw [← fieldsBytes_zero row]
    refine reads_bind (int32Codec.reads_slot 0 1 true ascending (by decide) version trivial (by simp) closes) ?_
    refine reads_bind (stringCodec.reads_slot [] 2 true ascending (by decide) chainID valid.chainID (by simp) closes) ?_
    refine reads_bind (stringCodec.reads_slot [] 3 true ascending (by decide) groupID valid.groupID (by simp) closes) ?_
    refine reads_bind (int64Codec.reads_slot 0 4 true ascending (by decide) blockLimit trivial (by simp) closes) ?_
    refine reads_bind (stringCodec.reads_slot [] 5 true ascending (by decide) nonce valid.nonce (by simp) closes) ?_
    refine reads_bind (stringCodec.reads_slot [] 6 false ascending (by decide) toAddress valid.toAddress (by simp) closes) ?_
    refine reads_bind (charsCodec.reads_slot [] 7 true ascending (by decide) input valid.input (by simp) closes) ?_
    refine reads_bind (stringCodec.reads_slot [] 8 false ascending (by decide) abi valid.abi (by simp) closes) ?_
    exact reads_pure x _

structure ValidTransaction (x : Transaction) : Prop where
  data : ValidTransactionData x.data
  dataHash : charsCodec.Valid x.dataHash
  signature : charsCodec.Valid x.signature
  sender : charsCodec.Valid x.sender
  extraData : stringCodec.Valid x.extraData

def transactionSlots (x : Transaction) : List Slot :=
  [.always 1 (transactionDataCodec.codec.wire x.data) (x.data = resetTransactionData),.optional 2 (.chars x.dataHash) (x.dataHash = []),
    .optional 3 (.chars x.signature) (x.signature = []),.optional 4 (int64Codec.wire x.importTime) (x.importTime = 0),
    .optional 5 (int32Codec.wire x.transactionAttribute) (x.transactionAttribute = 0),.optional 7 (.chars x.sender) (x.sender = []),
    .optional 8 (.string x.extraData) (x.extraData = [])]

def transactionCodec : StructCodec Transaction where
  writeTo := transactionWriteTo
  readFrom := transactionReadFrom
  slots := transactionSlots
  least := 9
  Valid := ValidTransaction
  ascending _ := by simp [transactionSlots]
  fits x valid := by
    simp only [transactionSlots,List.forall_mem_cons,List.not_mem_nil,false_imp_iff,implies_true,and_true]
    exact ⟨transactionDataCodec.codec.fits _ valid.data,.chars valid.dataHash,.chars valid.signature,int64Codec.fits _ trivial,
      int32Codec.fits _ trivial,.chars valid.sender,.string valid.extraData⟩
  writes x valid := by
    simp only [transactionSlots,fieldsBytes_written]
    rw [fieldsBytes_last]
    refine writes_then (writes_slot rfl (transactionDataCodec.codec.writes _ 1 valid.data)) ?_
    refine writes_then (writes_if (by simp) (charsCodec.writes _ 2 valid.dataHash)) ?_
    refine writes_then (writes_if (by simp) (charsCodec.writes _ 3 valid.signature)) ?_
    refine writes_then (writes_if (by simp) (writes_int64 x.importTime 4)) ?_
    refine writes_then (writes_if (by simp) (writes_int32 x.transactionAttribute 5)) ?_
    refine writes_then (writes_if (by simp) (charsCodec.writes _ 7 valid.sender)) ?_
    exact writes_if (by simp) (stringCodec.writes _ 8 valid.extraData)
  reads x valid row ascending found rest closes := by
    simp only [transactionSlots,List.forall_mem_cons,List.not_mem_nil,false_imp_iff,implies_true,and_true] at found
    obtain ⟨data,dataHash,signature,importTime,transactionAttribute,sender,extraData⟩ := found
    rw [← fieldsBytes_zero row]
    refine reads_bind (transactionDataCodec.codec.reads_slot resetTransactionData 1 false ascending (by decide) data valid.data
      (by simp) closes) ?_
    refine reads_bind (charsCodec.reads_slot [] 2 false ascending (by decide) dataHash valid.dataHash (by simp) closes) ?_
    refine reads_bind (charsCodec.reads_slot [] 3 false ascending (by decide) signature valid.signature (by simp) closes) ?_
    refine reads_bind (int64Codec.reads_slot 0 4 false ascending (by decide) importTime trivial (by simp) closes) ?_
    refine reads_bind (int32Codec.reads_slot 0 5 false ascending (by decide) transactionAttribute trivial (by simp) closes) ?_
    refine reads_bind (charsCodec.reads_slot [] 7 false ascending (by decide) sender valid.sender (by simp) closes) ?_
    refine reads_bind (stringCodec.reads_slot [] 8 false ascending (by decide) extraData valid.extraData (by simp) closes) ?_
    exact reads_pure x _

/-! ### Receipts -/

structure ValidLogEntry (x : LogEntry) : Prop where
  address : stringCodec.Valid x.address
  topic : (vectorCodec charsCodec []).Valid x.topic
  data : charsCodec.Valid x.data

def logEntrySlots (x : LogEntry) : List Slot :=
  [.optional 1 (.string x.address) (x.address = []),.optional 2 ((vectorCodec charsCodec []).wire x.topic) (x.topic = []),
    .optional 3 (.chars x.data) (x.data = [])]

def logEntryCodec : StructCodec LogEntry where
  writeTo := logEntryWriteTo
  readFrom := logEntryReadFrom
  slots := logEntrySlots
  least := 4
  Valid := ValidLogEntry
  ascending _ := by simp [logEntrySlots]
  fits x valid := by
    simp only [logEntrySlots,List.forall_mem_cons,List.not_mem_nil,false_imp_iff,implies_true,and_true]
    exact ⟨.string valid.address,(vectorCodec charsCodec []).fits _ valid.topic,.chars valid.data⟩
  writes x valid := by
    simp only [logEntrySlots,fieldsBytes_written]
    rw [fieldsBytes_last]
    refine writes_then (writes_if (by simp) (stringCodec.writes _ 1 valid.address)) ?_
    refine writes_then (writes_if (by simp) ((vectorCodec charsCodec []).writes _ 2 valid.topic)) ?_
    exact writes_if (by simp) (charsCodec.writes _ 3 valid.data)
  reads x valid row ascending found rest closes := by
    simp only [logEntrySlots,List.forall_mem_cons,List.not_mem_nil,false_imp_iff,implies_true,and_true] at found
    obtain ⟨address,topic,data⟩ := found
    rw [← fieldsBytes_zero row]
    refine reads_bind (stringCodec.reads_slot [] 1 false ascending (by decide) address valid.address (by simp) closes) ?_
    refine reads_bind ((vectorCodec charsCodec []).reads_slot [] 2 false ascending (by decide) topic valid.topic (by simp) closes) ?_
    refine reads_bind (charsCodec.reads_slot [] 3 false ascending (by decide) data valid.data (by simp) closes) ?_
    exact reads_pure x _

/-- The log entries of a receipt. -/
def logEntriesCodec : Codec (List LogEntry) := vectorCodec logEntryCodec.codec resetLogEntry

structure ValidReceiptData (x : TransactionReceiptData) : Prop where
  gasUsed : stringCodec.Valid x.gasUsed
  contractAddress : stringCodec.Valid x.contractAddress
  output : charsCodec.Valid x.output
  logEntries : logEntriesCodec.Valid x.logEntries

def receiptDataSlots (x : TransactionReceiptData) : List Slot :=
  [.required 1 (int32Codec.wire x.version),.optional 2 (.string x.gasUsed) (x.gasUsed = []),
    .optional 3 (.string x.contractAddress) (x.contractAddress = []),.optional 4 (int32Codec.wire x.status) (x.status = 0),
    .optional 5 (.chars x.output) (x.output = []),.optional 6 (logEntriesCodec.wire x.logEntries) (x.logEntries = []),
    .optional 7 (int64Codec.wire x.blockNumber) (x.blockNumber = 0)]

def receiptDataCodec : StructCodec TransactionReceiptData where
  writeTo := receiptDataWriteTo
  readFrom := receiptDataReadFrom
  slots := receiptDataSlots
  least := 8
  Valid := ValidReceiptData
  ascending _ := by simp [receiptDataSlots]
  fits x valid := by
    simp only [receiptDataSlots,List.forall_mem_cons,List.not_mem_nil,false_imp_iff,implies_true,and_true]
    exact ⟨int32Codec.fits _ trivial,.string valid.gasUsed,.string valid.contractAddress,int32Codec.fits _ trivial,
      .chars valid.output,logEntriesCodec.fits _ valid.logEntries,int64Codec.fits _ trivial⟩
  writes x valid := by
    simp only [receiptDataSlots,fieldsBytes_written]
    rw [fieldsBytes_last]
    refine writes_then (writes_slot rfl (writes_int32 x.version 1)) ?_
    refine writes_then (writes_if (by simp) (stringCodec.writes _ 2 valid.gasUsed)) ?_
    refine writes_then (writes_if (by simp) (stringCodec.writes _ 3 valid.contractAddress)) ?_
    refine writes_then (writes_if (by simp) (writes_int32 x.status 4)) ?_
    refine writes_then (writes_if (by simp) (charsCodec.writes _ 5 valid.output)) ?_
    refine writes_then (writes_if (by simp) (logEntriesCodec.writes _ 6 valid.logEntries)) ?_
    exact writes_if (by simp) (writes_int64 x.blockNumber 7)
  reads x valid row ascending found rest closes := by
    simp only [receiptDataSlots,List.forall_mem_cons,List.not_mem_nil,false_imp_iff,implies_true,and_true] at found
    obtain ⟨version,gasUsed,contractAddress,status,output,logEntries,blockNumber⟩ := found
    rw [← fieldsBytes_zero row]
    refine reads_bind (int32Codec.reads_slot 0 1 true ascending (by decide) version trivial (by simp) closes) ?_
    refine reads_bind (stringCodec.reads_slot [] 2 false ascending (by decide) gasUsed valid.gasUsed (by simp) closes) ?_
    refine reads_bind (stringCodec.reads_slot [] 3 false ascending (by decide) contractAddress valid.contractAddress (by simp)
      closes) ?_
    refine reads_bind (int32Codec.reads_slot 0 4 false ascending (by decide) status trivial (by simp) closes) ?_
    refine reads_bind (charsCodec.reads_slot [] 5 false ascending (by decide) output valid.output (by simp) closes) ?_
    refine reads_bind (logEntriesCodec.reads_slot [] 6 false ascending (by decide) logEntries valid.logEntries (by simp) closes) ?_
    refine reads_bind (int64Codec.reads_slot 0 7 false ascending (by decide) blockNumber trivial (by simp) closes) ?_
    exact reads_pure x _

structure ValidReceipt (x : TransactionReceipt) : Prop where
  data : ValidReceiptData x.data
  dataHash : charsCodec.Valid x.dataHash
  message : stringCodec.Valid x.message

def receiptSlots (x : TransactionReceipt) : List Slot :=
  [.always 1 (receiptDataCodec.codec.wire x.data) (x.data = resetReceiptData),.optional 2 (.chars x.dataHash) (x.dataHash = []),
    .optional 3 (.string x.message) (x.message = [])]

def receiptCodec : StructCodec TransactionReceipt where
  writeTo := receiptWriteTo
  readFrom := receiptReadFrom
  slots := receiptSlots
  least := 4
  Valid := ValidReceipt
  ascending _ := by simp [receiptSlots]
  fits x valid := by
    simp only [receiptSlots,List.forall_mem_cons,List.not_mem_nil,false_imp_iff,implies_true,and_true]
    exact ⟨receiptDataCodec.codec.fits _ valid.data,.chars valid.dataHash,.string valid.message⟩
  writes x valid := by
    simp only [receiptSlots,fieldsBytes_written]
    rw [fieldsBytes_last]
    refine writes_then (writes_slot rfl (receiptDataCodec.codec.writes _ 1 valid.data)) ?_
    refine writes_then (writes_if (by simp) (charsCodec.writes _ 2 valid.dataHash)) ?_
    exact writes_if (by simp) (stringCodec.writes _ 3 valid.message)
  reads x valid row ascending found rest closes := by
    simp only [receiptSlots,List.forall_mem_cons,List.not_mem_nil,false_imp_iff,implies_true,and_true] at found
    obtain ⟨data,dataHash,message⟩ := found
    rw [← fieldsBytes_zero row]
    refine reads_bind (receiptDataCodec.codec.reads_slot resetReceiptData 1 false ascending (by decide) data valid.data (by simp)
      closes) ?_
    refine reads_bind (charsCodec.reads_slot [] 2 false ascending (by decide) dataHash valid.dataHash (by simp) closes) ?_
    refine reads_bind (stringCodec.reads_slot [] 3 false ascending (by decide) message valid.message (by simp) closes) ?_
    exact reads_pure x _

end CppSdk.TarsStructs

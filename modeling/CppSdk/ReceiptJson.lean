import CppSdk.Texts
import CppSdk.TransactionHash

/-!
Receipts as JSON. What is read back from the JSON of a receipt is the receipt, but for one
empty topic more in a log entry for each topic that it has (`receipt_reads`), so it is the
receipt itself exactly if its log entries have no topics.
-/
namespace CppSdk.ReceiptJson
open CppSdk.ByteString CppSdk.Runtime CppSdk.Texts
open CppSdk.TransactionHash (LogEntry TransactionReceiptData)

/-! ### JSON values of tars -/

/-- `JsonValue`; of a number, the integer `lvalue`. -/
inductive JsonValue where
  | string (value : Bytes)
  | num (lvalue : Int64)
  | obj (value : List (Bytes × JsonValue))
  | array (value : List JsonValue)
  | boolean (value : Bool)
  | null

/-- `getType`. -/
def JsonValue.getType : JsonValue → Nat
  | .string _ => 0
  | .num _ => 1
  | .obj _ => 2
  | .array _ => 3
  | .boolean _ => 4
  | .null => 5

/-- A `JsonValuePtr`, which can be null. -/
abbrev JsonValuePtr := Option JsonValue

/-- `value[key]` of an object. -/
def valueOf (members : List (Bytes × JsonValue)) (key : String) : JsonValuePtr := members.lookup (lit key)

/-- The exception of a required value of another type; the type of null cannot be asked for. -/
def mismatch {α : Type} (what : String) : JsonValuePtr → Call α
  | some p => throws (lit what ++ lit " type mismatch, get type: " ++ stdToString p.getType ++ lit ".")
  | none => throws (lit "autoptr null handle error![N4tars9JsonValueE]")

/-- `JsonInput::readJson` of an integer. -/
def readInteger : JsonValuePtr → Call Int64
  | some (.num lvalue) => .ok lvalue
  | p => mismatch "read" p
/-- `JsonInput::readJson` of a string. -/
def readString : JsonValuePtr → Call Bytes
  | some (.string value) => .ok value
  | p => mismatch "read 'string'" p
/-- `JsonInput::readJson` of a struct. -/
def readStruct {α : Type} (readFromJson : JsonValuePtr → Call α) : JsonValuePtr → Call α
  | some (.obj value) => readFromJson (some (.obj value))
  | p => mismatch "read 'Char'" p

/-! ### Receipts -/

/-- bcos-utilities with `toHexStringWithPrefix`. -/
structure HexUtilities extends Utilities where
  toHexStringWithPrefix : Bytes → Bytes
/-- Its documented behaviour: a prefix is read over. -/
structure HexUtilities.Documented (U : HexUtilities) : Prop extends U.toUtilities.Documented where
  prefix_reads : ∀ content, U.fromHexString (U.toHexStringWithPrefix content) = .ok content

section
variable (U : HexUtilities)

/-- `LogEntry::writeToJson`. -/
def writeLogEntry (log : LogEntry) : JsonValue :=
  -- the topics are appended to a vector that already has their number of elements
  let topics := List.replicate log.topic.length [] ++ log.topic.map U.toHexString
  .obj [(lit "address",.string log.address),(lit "topics",.array (topics.map .string)),
    (lit "data",.string (U.toHexStringWithPrefix log.data))]

/-- One element of the topics. -/
def readTopic (p : JsonValue) : Call Bytes := do
  let topicHex ← readString (some p)
  U.fromHexString topicHex
/-- The topics, where they are an array. -/
def readTopics : JsonValuePtr → Call (List Bytes)
  | some (.array value) => value.mapM (readTopic U)
  | _ => .ok []

/-- What a struct is read from. -/
def readObject {α : Type} (read : List (Bytes × JsonValue) → Call α) : JsonValuePtr → Call α
  | some (.obj value) => read value
  | some p => throws (lit "read 'struct' type mismatch, get type: " ++ stdToString p.getType ++ lit ".")
  | none => throws (lit "read 'struct' type mismatch, get type: 0.")

/-- `LogEntry::readFromJson`. -/
def readLogEntry : JsonValuePtr → Call LogEntry := readObject (fun members => do
  let address ← readString (valueOf members "address")
  let topic ← readTopics U (valueOf members "topics")
  let dataHex ← readString (valueOf members "data")
  let data ← U.fromHexString dataHex
  .ok ⟨address,topic,data⟩)

/-- `TransactionReceiptData::writeToJson`. -/
def writeToJson (r : TransactionReceiptData) : JsonValue :=
  .obj [(lit "version",.num r.version.toInt64),(lit "gasUsed",.string r.gasUsed),
    (lit "contractAddress",.string r.contractAddress),(lit "status",.num r.status.toInt64),
    (lit "output",.string (U.toHexStringWithPrefix r.output)),
    (lit "logEntries",.array (r.logEntries.map (writeLogEntry U))),(lit "blockNumber",.num r.blockNumber)]

/-- The log entries, where they are an array. -/
def readLogEntries : JsonValuePtr → Call (List LogEntry)
  | some (.array value) => value.mapM (fun p => readStruct (readLogEntry U) (some p))
  | _ => .ok []

/-- `TransactionReceiptData::readFromJson`. -/
def readFromJson : JsonValuePtr → Call TransactionReceiptData := readObject (fun members => do
  let version ← readInteger (valueOf members "version")
  let gasUsed ← readString (valueOf members "gasUsed")
  let contractAddress ← readString (valueOf members "contractAddress")
  let status ← readInteger (valueOf members "status")
  let outputHex ← readString (valueOf members "output")
  let output ← U.fromHexString outputHex
  let logEntries ← readLogEntries U (valueOf members "logEntries")
  let blockNumber ← readInteger (valueOf members "blockNumber")
  .ok ⟨version.toInt32,gasUsed,contractAddress,status.toInt32,output,logEntries,blockNumber⟩)

end

/-! ### Read back -/

/-- A loop that reads each element of what was written. -/
theorem mapM_written {α β γ : Type} {write : α → β} {read : β → Call γ} {back : α → γ}
    (each : ∀ a, read (write a) = .ok (back a)) (elements : List α) : (elements.map write).mapM read = .ok (elements.map back) := by
  induction elements with
  | nil => rfl
  | cons a rest ih =>
    rw [List.map_cons,List.mapM_cons,each,ok_bind,ih]
    rfl

/-- A log entry as it is read back. -/
def doubled (log : LogEntry) : LogEntry := { log with topic := List.replicate log.topic.length [] ++ log.topic }

section
variable {U : HexUtilities} (documented : U.Documented)
include documented

private theorem readTopics_reads (topics : List Bytes) :
    (topics.map (fun topic => JsonValue.string (U.toHexString topic))).mapM (readTopic U) = .ok topics := by
  have each : ∀ topic, readTopic U (.string (U.toHexString topic)) = .ok topic := by
    intro topic
    rw [documented.toHexString_writes]
    exact documented.fromHexString_reads topic
  rw [mapM_written each,List.map_id']

/-- The empty texts are those of empty topics. -/
theorem readLogEntry_reads (log : LogEntry) : readStruct (readLogEntry U) (some (writeLogEntry U log)) = .ok (doubled log) := by
  have texts : (List.replicate log.topic.length [] ++ log.topic.map U.toHexString).map JsonValue.string =
      (List.replicate log.topic.length [] ++ log.topic).map (fun topic => JsonValue.string (U.toHexString topic)) := by
    have empty : U.toHexString [] = [] := documented.toHexString_writes []
    simp [empty]
  have topics : readTopics U (some (.array ((List.replicate log.topic.length [] ++ log.topic.map U.toHexString).map .string))) =
      .ok (List.replicate log.topic.length [] ++ log.topic) := by
    rw [readTopics,texts]
    exact readTopics_reads documented _
  have read : readStruct (readLogEntry U) (some (writeLogEntry U log)) =
      (readTopics U (some (.array ((List.replicate log.topic.length [] ++ log.topic.map U.toHexString).map .string))) >>=
        fun topic => U.fromHexString (U.toHexStringWithPrefix log.data) >>= fun data =>
          .ok (LogEntry.mk log.address topic data)) := rfl
  rw [read,topics,ok_bind,documented.prefix_reads]
  rfl

private theorem readLogEntries_reads (logs : List LogEntry) :
    readLogEntries U (some (.array (logs.map (writeLogEntry U)))) = .ok (logs.map doubled) := by
  rw [readLogEntries]
  refine mapM_written (fun log => ?_) logs
  exact readLogEntry_reads documented log

/-- What is read back from the JSON of a receipt. -/
theorem receipt_reads (r : TransactionReceiptData) :
    readFromJson U (some (writeToJson U r)) = .ok { r with logEntries := r.logEntries.map doubled } := by
  have read : readFromJson U (some (writeToJson U r)) =
      (U.fromHexString (U.toHexStringWithPrefix r.output) >>= fun output =>
        readLogEntries U (some (.array (r.logEntries.map (writeLogEntry U)))) >>= fun logEntries =>
          .ok (TransactionReceiptData.mk r.version.toInt64.toInt32 r.gasUsed r.contractAddress r.status.toInt64.toInt32 output
            logEntries r.blockNumber)) := rfl
  rw [read,documented.prefix_reads,ok_bind,readLogEntries_reads documented,ok_bind,Int32.toInt32_toInt64,
    Int32.toInt32_toInt64]

omit documented in
private theorem doubled_eq_iff (log : LogEntry) : doubled log = log ↔ log.topic = [] := by
  constructor
  · intro same
    have sizes := congrArg (fun log => log.topic.length) same
    simp only [doubled,List.length_append,List.length_replicate] at sizes
    exact List.length_eq_zero_iff.mp (by omega)
  · rintro none
    rw [doubled,none]
    exact congrArg (fun topic => LogEntry.mk log.address topic log.data) none.symm
omit documented in
/-- Empty topics add nothing to what the hasher is fed. -/
theorem doubled_updates (log : LogEntry) : (doubled log).updates.flatten = log.updates.flatten := by
  have empty : (List.replicate log.topic.length ([] : Bytes)).flatten = [] := by simp
  simp only [LogEntry.updates,doubled,List.flatten_cons,List.flatten_append,empty,List.nil_append]

omit documented in
theorem map_doubled_iff (logs : List LogEntry) : logs.map doubled = logs ↔ ∀ log ∈ logs, log.topic = [] := by
  have same := List.map_inj_left (l := logs) (f := doubled) (g := id)
  rw [List.map_id] at same
  exact same.trans (forall₂_congr (fun log _ => doubled_eq_iff log))
omit documented in
theorem preimage_doubled (r : TransactionReceiptData) :
    TransactionReceiptData.preimage { r with logEntries := r.logEntries.map doubled } = r.preimage := by
  have entries : ((r.logEntries.map doubled).flatMap LogEntry.updates).flatten = (r.logEntries.flatMap LogEntry.updates).flatten := by
    induction r.logEntries with
    | nil => rfl
    | cons log rest ih => simp only [List.map_cons,List.flatMap_cons,List.flatten_append,doubled_updates,ih]
  simp only [TransactionReceiptData.preimage,TransactionReceiptData.updates,List.flatten_append,entries]

/-- A receipt is read back from its JSON exactly if its log entries have no topics. What is
    read has the same hash preimage. -/
theorem receipt_reads_iff (r : TransactionReceiptData) :
    (readFromJson U (some (writeToJson U r)) = .ok r ↔ ∀ log ∈ r.logEntries, log.topic = []) ∧
    ∃ back, readFromJson U (some (writeToJson U r)) = .ok back ∧ back.preimage = r.preimage := by
  rw [receipt_reads documented]
  constructor
  · rw [← map_doubled_iff,Except.ok.injEq]
    exact ⟨congrArg TransactionReceiptData.logEntries,fun same => by rw [same]⟩
  · exact ⟨_,rfl,preimage_doubled r⟩

end

/-! ### Functions with the documented behaviour -/

/-- `fromHexString` with or without a prefix. -/
def HexUtilities.reference : HexUtilities where
  toUtilities := { Utilities.reference with
    fromHexString := fun text =>
      Utilities.reference.fromHexString (if startsWith text (lit "0x") then text.drop 2 else text) }
  toHexStringWithPrefix content := lit "0x" ++ toHex content

theorem hexUtilities_documented : HexUtilities.reference.Documented where
  address_reads := reference_documented.address_reads
  hexPrefixed_writes := reference_documented.hexPrefixed_writes
  toHexString_writes := reference_documented.toHexString_writes
  fromHexString_reads content := by
    have plain : startsWith (toHex content) (lit "0x") = false := by
      refine Bool.eq_false_iff.mpr (fun prefixed => ?_)
      obtain ⟨rest,same⟩ := List.isPrefixOf_iff_prefix.mp prefixed
      have digit := toHex_digits content 120 (by rw [← same]; exact List.mem_append_left rest (by decide))
      revert digit
      decide
    simp only [HexUtilities.reference,plain,Bool.false_eq_true,if_false]
    exact reference_documented.fromHexString_reads content
  prefix_reads content := by
    have prefixed : startsWith (lit "0x" ++ toHex content) (lit "0x") = true :=
      List.isPrefixOf_iff_prefix.mpr (List.prefix_append _ _)
    have rest : (lit "0x" ++ toHex content).drop 2 = toHex content := rfl
    simp only [HexUtilities.reference,prefixed,if_true,rest]
    exact reference_documented.fromHexString_reads content

/-- A receipt of a transfer, with a log entry of some topics. -/
def transfer (topic : List Bytes) : TransactionReceiptData := ⟨0,lit "24363",lit "01",0,[1,2],[⟨lit "a",topic,[3]⟩],9⟩

theorem receipt_reads_transfer :
    readFromJson HexUtilities.reference (some (writeToJson HexUtilities.reference (transfer []))) = .ok (transfer []) :=
  (receipt_reads_iff hexUtilities_documented (transfer [])).1.mpr (by simp [transfer])

/-- A log entry of one topic has two when it is read back. -/
theorem receipt_doubles :
    readFromJson HexUtilities.reference (some (writeToJson HexUtilities.reference (transfer [[7]]))) = .ok (transfer [[],[7]]) ∧
      transfer [[],[7]] ≠ transfer [[7]] := by
  refine ⟨receipt_reads hexUtilities_documented (transfer [[7]]),fun same => ?_⟩
  have entries := congrArg TransactionReceiptData.logEntries same
  have topics := congrArg LogEntry.topic (List.cons.inj entries).1
  cases topics

end CppSdk.ReceiptJson

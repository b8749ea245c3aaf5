import CppSdk.ByteString

/-!
The byte strings that `TransactionData::hash` and `TransactionReceiptData::hash` feed
to the hasher. The fields follow one another without lengths or separators, so equal
byte strings come from equal data exactly when the fields have the same lengths.
-/
namespace CppSdk.TransactionHash
open CppSdk.ByteString

/-! ### The data -/

/-- `TransactionData`. -/
structure TransactionData where
  version : Int32
  chainID : Bytes
  groupID : Bytes
  blockLimit : Int64
  nonce : Bytes
  /-- `to`. -/
  toAddress : Bytes
  input : Bytes
  abi : Bytes

/-- `LogEntry`. -/
structure LogEntry where
  address : Bytes
  topic : List Bytes
  data : Bytes

/-- `TransactionReceiptData`. -/
structure TransactionReceiptData where
  version : Int32
  gasUsed : Bytes
  contractAddress : Bytes
  status : Int32
  output : Bytes
  logEntries : List LogEntry
  blockNumber : Int64

/-! ### What the hasher is fed -/

/-- The bytes of `native_to_big` of an `int32_t`. -/
def networkInt32 (i : Int32) : Bytes := toBigEndian 4 i.toBitVec.toNat
/-- The bytes of `native_to_big` of an `int64_t`. -/
def networkInt64 (i : Int64) : Bytes := toBigEndian 8 i.toBitVec.toNat

/-- The arguments of `hasher.update` in `TransactionData::hash`. -/
def TransactionData.updates (x : TransactionData) : List Bytes :=
  [networkInt32 x.version,x.chainID,x.groupID,networkInt64 x.blockLimit,x.nonce,x.toAddress,x.input,x.abi]
/-- The bytes that `TransactionData::hash` feeds to the hasher. -/
def TransactionData.preimage (x : TransactionData) : Bytes := x.updates.flatten

/-- The arguments of `hasher.update` for a log entry. -/
def LogEntry.updates (log : LogEntry) : List Bytes := log.address :: (log.topic ++ [log.data])
/-- The arguments of `hasher.update` in `TransactionReceiptData::hash`. -/
def TransactionReceiptData.updates (x : TransactionReceiptData) : List Bytes :=
  [networkInt32 x.version,x.gasUsed,x.contractAddress,networkInt32 x.status,x.output] ++
    (x.logEntries.flatMap LogEntry.updates ++ [networkInt64 x.blockNumber])
/-- The bytes that `TransactionReceiptData::hash` feeds to the hasher. -/
def TransactionReceiptData.preimage (x : TransactionReceiptData) : Bytes := x.updates.flatten

/-- The lengths of the fields, less that of the last one. -/
def TransactionData.lengths (x : TransactionData) : List Nat :=
  [x.chainID.length,x.groupID.length,x.nonce.length,x.toAddress.length,x.input.length]
/-- The lengths of the fields of a log entry. -/
def LogEntry.lengths (log : LogEntry) : Nat × List Nat × Nat :=
  (log.address.length,log.topic.map List.length,log.data.length)
/-- The lengths of the fields, less that of the output. -/
def TransactionReceiptData.lengths (x : TransactionReceiptData) : Nat × Nat × List (Nat × List Nat × Nat) :=
  (x.gasUsed.length,x.contractAddress.length,x.logEntries.map LogEntry.lengths)

/-! ### Numbers -/

private theorem toBigEndian_injective {width m n : Nat} (mBound : m < 256 ^ width) (nBound : n < 256 ^ width)
    (same : toBigEndian width m = toBigEndian width n) : m = n := by
  have values := congrArg fromBigEndian same
  rwa [fromBigEndian_toBigEndian,fromBigEndian_toBigEndian,Nat.mod_eq_of_lt mBound,Nat.mod_eq_of_lt nBound] at values
private theorem networkInt32_injective {i j : Int32} (same : networkInt32 i = networkInt32 j) : i = j := by
  apply Int32.toBitVec_inj.mp
  apply BitVec.eq_of_toNat_eq
  exact toBigEndian_injective (by have := i.toBitVec.isLt; omega) (by have := j.toBitVec.isLt; omega) same
private theorem networkInt64_injective {i j : Int64} (same : networkInt64 i = networkInt64 j) : i = j := by
  apply Int64.toBitVec_inj.mp
  apply BitVec.eq_of_toNat_eq
  exact toBigEndian_injective (by have := i.toBitVec.isLt; omega) (by have := j.toBitVec.isLt; omega) same
@[simp] theorem networkInt32_length (i : Int32) : (networkInt32 i).length = 4 := toBigEndian_length _ _
@[simp] theorem networkInt64_length (i : Int64) : (networkInt64 i).length = 8 := toBigEndian_length _ _

/-! ### Transactions -/

private theorem transaction_version {x y : TransactionData} (same : x.preimage = y.preimage) : x.version = y.version := by
  simp only [TransactionData.preimage,TransactionData.updates,List.flatten_cons] at same
  exact networkInt32_injective (List.append_inj same (by simp)).1

private theorem transaction_eq {x y : TransactionData} (same : x.preimage = y.preimage) (lengths : x.lengths = y.lengths) :
    x = y := by
  simp only [TransactionData.lengths,List.cons.injEq,and_true] at lengths
  obtain ⟨chain,group,nonce,toAddress,input⟩ := lengths
  have total := congrArg List.length same
  simp only [TransactionData.preimage,TransactionData.updates,List.length_flatten,List.map_cons,List.map_nil,
    List.sum_cons,List.sum_nil,networkInt32_length,networkInt64_length] at total
  have last : x.abi.length = y.abi.length := by omega
  have fields : x.updates = y.updates := by
    apply List.eq_iff_flatten_eq.mpr
    refine ⟨same,?_⟩
    simp only [TransactionData.updates,List.map_cons,List.map_nil,networkInt32_length,networkInt64_length,chain,group,
      nonce,toAddress,input,last]
  obtain ⟨version,chainID,groupID,blockLimit,nonce',address,input',abi⟩ := x
  obtain ⟨version',chainID',groupID',blockLimit',nonce'',address',input'',abi'⟩ := y
  simp only [TransactionData.updates,List.cons.injEq,and_true] at fields
  obtain ⟨sameVersion,rfl,rfl,sameLimit,rfl,rfl,rfl,rfl⟩ := fields
  rw [networkInt32_injective sameVersion,networkInt64_injective sameLimit]

/-! ### Receipts -/

private theorem log_eq {log log' : LogEntry} (same : log.updates = log'.updates) : log = log' := by
  obtain ⟨address,topic,data⟩ := log
  obtain ⟨address',topic',data'⟩ := log'
  simp only [LogEntry.updates,List.cons.injEq] at same
  obtain ⟨rfl,rest⟩ := same
  obtain ⟨rfl,last⟩ := List.append_inj' rest rfl
  rw [List.cons.inj last |>.1]

/-- Log entries of one shape are fed as lists of one length. -/
theorem logs_eq {logs logs' : List LogEntry} (shape : logs.map LogEntry.lengths = logs'.map LogEntry.lengths)
    (same : logs.flatMap LogEntry.updates = logs'.flatMap LogEntry.updates) : logs = logs' := by
  induction logs generalizing logs' with
  | nil =>
    simp only [List.map_nil] at shape
    exact (List.map_eq_nil_iff.mp shape.symm).symm
  | cons log logs ih =>
    cases logs' with
    | nil => simp at shape
    | cons log' logs' =>
      simp only [List.map_cons,List.cons.injEq] at shape
      obtain ⟨here,later⟩ := shape
      have topics : log.topic.length = log'.topic.length := by
        have mapped := congrArg (fun lengths => lengths.2.1.length) here
        simpa only [LogEntry.lengths,List.length_map] using mapped
      have size : log.updates.length = log'.updates.length := by simp [LogEntry.updates,topics]
      simp only [List.flatMap_cons] at same
      obtain ⟨first,rest⟩ := List.append_inj same size
      rw [log_eq first,ih later rest]

private theorem logs_lengths {logs logs' : List LogEntry} (shape : logs.map LogEntry.lengths = logs'.map LogEntry.lengths) :
    (logs.flatMap LogEntry.updates).map List.length = (logs'.flatMap LogEntry.updates).map List.length := by
  have spelled : ∀ logs : List LogEntry, (logs.flatMap LogEntry.updates).map List.length =
      (logs.map LogEntry.lengths).flatMap (fun lengths => lengths.1 :: (lengths.2.1 ++ [lengths.2.2])) := by
    intro logs
    rw [List.map_flatMap,List.flatMap_map]
    simp [LogEntry.updates,LogEntry.lengths]
  rw [spelled,spelled,shape]

private theorem receipt_ends {x y : TransactionReceiptData} (same : x.preimage = y.preimage) :
    x.version = y.version ∧ x.blockNumber = y.blockNumber := by
  simp only [TransactionReceiptData.preimage,TransactionReceiptData.updates,List.flatten_append] at same
  constructor
  · simp only [List.flatten_cons,List.append_assoc] at same
    exact networkInt32_injective (List.append_inj same (by simp)).1
  · rw [← List.append_assoc,← List.append_assoc] at same
    have last := (List.append_inj' same (by simp)).2
    simp only [List.flatten_cons,List.flatten_nil,List.append_nil] at last
    exact networkInt64_injective last

private theorem receipt_eq {x y : TransactionReceiptData} (same : x.preimage = y.preimage) (lengths : x.lengths = y.lengths) :
    x = y := by
  simp only [TransactionReceiptData.lengths,Prod.mk.injEq] at lengths
  obtain ⟨gas,address,shape⟩ := lengths
  have logs := logs_lengths shape
  have total := congrArg List.length same
  simp only [TransactionReceiptData.preimage,TransactionReceiptData.updates,List.length_flatten,List.map_append,
    List.map_cons,List.map_nil,List.sum_append,List.sum_cons,List.sum_nil,networkInt32_length,networkInt64_length,
    logs] at total
  have output : x.output.length = y.output.length := by omega
  have fields : x.updates = y.updates := by
    apply List.eq_iff_flatten_eq.mpr
    refine ⟨same,?_⟩
    simp only [TransactionReceiptData.updates,List.map_append,List.map_cons,List.map_nil,networkInt32_length,
      networkInt64_length,gas,address,output,logs]
  obtain ⟨version,gasUsed,contractAddress,status,out,entries,blockNumber⟩ := x
  obtain ⟨version',gasUsed',contractAddress',status',out',entries',blockNumber'⟩ := y
  obtain ⟨front,rest⟩ := List.append_inj fields rfl
  obtain ⟨middle,back⟩ := List.append_inj' rest rfl
  simp only [List.cons.injEq,and_true] at front back
  obtain ⟨sameVersion,rfl,rfl,sameStatus,rfl⟩ := front
  have entriesSame : entries = entries' := logs_eq shape middle
  rw [networkInt32_injective sameVersion,networkInt32_injective sameStatus,networkInt64_injective back,entriesSame]

/-! ### What the hash identifies -/

/-- Equal byte strings come from data of one version (and, for receipts, of one block
    number), and from equal data exactly when the fields have the same lengths. -/
theorem identified_of_lengths :
    (∀ x y : TransactionData, x.preimage = y.preimage → x.version = y.version ∧ (x = y ↔ x.lengths = y.lengths)) ∧
    ∀ x y : TransactionReceiptData, x.preimage = y.preimage →
      x.version = y.version ∧ x.blockNumber = y.blockNumber ∧ (x = y ↔ x.lengths = y.lengths) := by
  constructor
  · intro x y same
    exact ⟨transaction_version same,fun equal => by rw [equal],transaction_eq same⟩
  · intro x y same
    obtain ⟨version,blockNumber⟩ := receipt_ends same
    exact ⟨version,blockNumber,fun equal => by rw [equal],receipt_eq same⟩

/-- Two transactions and two receipts with the same byte string, which the lengths of their fields tell apart. -/
theorem identified_of_lengths_shifted :
    ((⟨0,lit "chain0",lit "group0",1,[7],[],[],[]⟩ : TransactionData).version =
        (⟨0,lit "chain",lit "0group0",1,[7],[],[],[]⟩ : TransactionData).version ∧
      (⟨0,lit "chain0",lit "group0",1,[7],[],[],[]⟩ : TransactionData) ≠ ⟨0,lit "chain",lit "0group0",1,[7],[],[],[]⟩) ∧
    (⟨0,[],[],0,[],[⟨[1],[[2]],[3]⟩],5⟩ : TransactionReceiptData).blockNumber =
        (⟨0,[],[],0,[],[⟨[1],[],[2,3]⟩],5⟩ : TransactionReceiptData).blockNumber ∧
      (⟨0,[],[],0,[],[⟨[1],[[2]],[3]⟩],5⟩ : TransactionReceiptData) ≠ ⟨0,[],[],0,[],[⟨[1],[],[2,3]⟩],5⟩ := by
  obtain ⟨version,transactions⟩ := identified_of_lengths.1 ⟨0,lit "chain0",lit "group0",1,[7],[],[],[]⟩
    ⟨0,lit "chain",lit "0group0",1,[7],[],[],[]⟩ (by decide)
  obtain ⟨_,blockNumber,receipts⟩ := identified_of_lengths.2 ⟨0,[],[],0,[],[⟨[1],[[2]],[3]⟩],5⟩ ⟨0,[],[],0,[],[⟨[1],[],[2,3]⟩],5⟩ (by decide)
  exact ⟨⟨version,transactions.not.mpr (by decide)⟩,blockNumber,receipts.not.mpr (by decide)⟩

/-- A byte that moves from the chain id to the group id, and one that moves from a topic
    to the data of a log entry, leave the byte string as it is. -/
theorem preimages_collide :
    ((⟨0,lit "chain0",lit "group0",1,[7],[],[],[]⟩ : TransactionData).preimage =
        (⟨0,lit "chain",lit "0group0",1,[7],[],[],[]⟩ : TransactionData).preimage ∧
      (⟨0,lit "chain0",lit "group0",1,[7],[],[],[]⟩ : TransactionData) ≠ ⟨0,lit "chain",lit "0group0",1,[7],[],[],[]⟩) ∧
    (⟨0,[],[],0,[],[⟨[1],[[2]],[3]⟩],5⟩ : TransactionReceiptData).preimage =
        (⟨0,[],[],0,[],[⟨[1],[],[2,3]⟩],5⟩ : TransactionReceiptData).preimage ∧
      (⟨0,[],[],0,[],[⟨[1],[[2]],[3]⟩],5⟩ : TransactionReceiptData) ≠ ⟨0,[],[],0,[],[⟨[1],[],[2,3]⟩],5⟩ := by
  refine ⟨⟨by decide,fun same => ?_⟩,by decide,fun same => ?_⟩
  · have lengths := congrArg TransactionData.lengths same
    revert lengths
    decide
  · have lengths := congrArg TransactionReceiptData.lengths same
    revert lengths
    decide

end CppSdk.TransactionHash

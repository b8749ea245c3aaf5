import CppSdk.TarsStructs

/-!
What the readers of `Tars.h` make of bytes that nobody vouches for: they end with a value of
the sizes that the formats have room for, or with an exception.
-/
namespace CppSdk.TarsDecoding
open CppSdk.ByteString CppSdk.Runtime CppSdk.Cursors CppSdk.TarsStream CppSdk.TarsSafety CppSdk.TarsFields CppSdk.TarsCodecs
open CppSdk.TarsStructs
open CppSdk.TransactionHash (TransactionData LogEntry TransactionReceiptData)

variable {α β : Type}

/-! ### Reads of any bytes -/

/-- The read ends on every buffer, with a value or an exception, and keeps near the buffer. -/
def Safe (x : TarsRead α) : Prop := ∀ left, Agree slack left x x
/-- The values that the read returns are valid. -/
abbrev Gives (P : α → Prop) (x : TarsRead α) : Prop := Returns (fun a _ => P a) x

private theorem safe_bind {x : TarsRead α} {f : α → TarsRead β} (first : Safe x) (later : ∀ a, Safe (f a)) : Safe (x >>= f) :=
  fun left => settles_bind (first left) (fun a => later a left)
private theorem safe_pure (a : α) : Safe (pure a : TarsRead α) := fun _ => settles_pure a
private theorem safe_map {x : TarsRead α} (safe : Safe x) (f : α → β) : Safe (f <$> x) := fun left => settles_map (safe left)
private theorem safe_throw (kind : TarsException) (what : Bytes) : Safe (throw (.throws kind what) : TarsRead α) := fun _ => agree_throw kind what
private theorem safe_collect {x : TarsRead α} (safe : Safe x) (n : Nat) : Safe (collect x n) := fun left => settles_collect (safe left) n
private theorem safe_readTypeBuf (size : Nat) : Safe (readTypeBuf size) := fun _ => agree_readTypeBuf size
private theorem safe_skipToTag (tag : UInt8) : Safe (skipToTag tag) :=
  fun left => settles_mono (show Agree slack (left + 1) _ _ from agree_skipToTagWith agree_skipField tag) le_rfl (Nat.le_succ left)
private theorem safe_skipToStructEnd : Safe skipToStructEnd :=
  fun left => settles_mono (show Agree slack (left + 1) _ _ from agree_skipToStructEndWith agree_skipField) le_rfl (Nat.le_succ left)
private theorem safe_readUInt32 : Safe (readUInt32 0 0 true) :=
  fun left => settles_mono (show Agree slack (left + 1) _ _ from agree_readUInt32With agree_skipField 0 0 true) le_rfl (Nat.le_succ left)
private theorem safe_readSize (invalid : UInt32 → Bytes) : Safe (readSize invalid) := by
  refine safe_bind safe_readUInt32 (fun size left => settles_get (fun r => ?_))
  split_ifs
  · exact agree_throw _ _
  · exact settles_pure size

private theorem gives_readTypeBuf (size : Nat) : Gives (fun bytes => bytes.length = size) (readTypeBuf size) :=
  fun r a after returned => (returns_readTypeBuf size r a after returned).2
private theorem gives_readBuf (len : Nat) : Gives (fun bytes => bytes.length = len) (readBuf len) := by
  intro r a after returned
  rw [readBuf_run] at returned
  split at returned
  case isTrue outside => cases returned
  case isFalse inside =>
    obtain rfl := Except.ok.inj (Prod.mk.inj returned).1
    simp only [List.length_take,List.length_drop]
    omega

/-! ### Codecs -/

/-- The reads of a codec are safe, and give valid values. -/
structure Sound (c : Codec α) : Prop where
  safe : ∀ old tag isRequire, Safe (c.read old tag isRequire)
  valid : ∀ old tag isRequire, c.Valid old → Gives c.Valid (c.read old tag isRequire)

private theorem safe_field (c : Codec α) (payload : ∀ tag head, Safe (c.payload tag head)) (old : α) (tag : UInt8) (isRequire : Bool) :
    Safe (c.read old tag isRequire) := by
  intro left
  rw [c.fielded old tag isRequire]
  exact agree_readField (safe_skipToTag tag left) (fun head => payload tag head left) _ old isRequire
private theorem sound_of_payload {c : Codec α} (safe : ∀ tag head, Safe (c.payload tag head))
    (valid : ∀ tag head, Gives c.Valid (c.payload tag head)) : Sound c where
  safe := safe_field c safe
  valid old tag isRequire holds := by
    rw [c.fielded old tag isRequire]
    refine returns_then (returns_any _) (fun found _ => ?_)
    cases found with
    | some head => exact valid tag head
    | none =>
      cases isRequire with
      | true => exact returns_throw _
      | false => exact returns_pure (fun _ => holds)

private theorem sound_int32 : Sound int32Codec :=
  sound_of_payload (fun tag head _ => settles_map (agree_integerPayload .int32 tag head)) (fun _ _ => returns_any _)
private theorem sound_int64 : Sound int64Codec :=
  sound_of_payload (fun tag head _ => settles_map (agree_integerPayload .int64 tag head)) (fun _ _ => returns_any _)

private theorem sound_string : Sound stringCodec := by
  refine sound_of_payload (fun tag head => ?_) (fun tag head => ?_)
  · show Safe (stringPayload tag head)
    unfold stringPayload
    split
    · exact safe_bind (safe_readTypeBuf 1) (fun _ => safe_readTypeBuf _)
    · refine safe_bind (safe_readTypeBuf 4) (fun _ => ?_)
      split_ifs
      · exact safe_throw _ _
      · exact safe_readTypeBuf _
    · exact safe_throw _ _
  · show Gives (fun s => s.length ≤ tarsMaxStringLength) (stringPayload tag head)
    unfold stringPayload
    split
    · refine returns_then (gives_readTypeBuf 1) (fun digits length r s after returned => ?_)
      have short := fromBigEndian_lt digits
      have exact_length := gives_readTypeBuf _ r s after returned
      rw [length] at short
      simp only [tarsMaxStringLength]
      omega
    · refine returns_then (returns_any _) (fun digits _ => ?_)
      split_ifs with huge
      · exact returns_throw _
      · intro r s after returned
        have exact_length := gives_readTypeBuf _ r s after returned
        omega
    · exact returns_throw _

private theorem sound_chars : Sound charsCodec := by
  have each : Safe ((fun c => c.toUInt8) <$> readChar 0 0 true) := by
    refine safe_map (safe_map (fun left => ?_) _) _
    exact settles_mono (show Agree slack (left + 1) _ _ from agree_readIntegerWith agree_skipField .char 0 0 true) le_rfl (Nat.le_succ left)
  refine sound_of_payload (fun tag head => ?_) (fun tag head => ?_)
  · show Safe (charsPayload tag head)
    unfold charsPayload
    split
    · refine safe_bind (fun _ => agree_readFromHead) (fun inner => ?_)
      split_ifs
      · exact safe_throw _ _
      · exact safe_bind (safe_readSize _) (fun size _ => agree_readBuf _)
    · exact safe_bind (safe_readSize _) (fun size => safe_collect each _)
    · exact safe_throw _ _
  · show Gives (fun v => v.length < 4294967296) (charsPayload tag head)
    unfold charsPayload
    split
    · refine returns_then (returns_any _) (fun inner _ => ?_)
      split_ifs
      · exact returns_throw _
      · refine returns_then (returns_any _) (fun size _ r v after returned => ?_)
        have := gives_readBuf _ r v after returned
        have := size.toNat_lt
        omega
    · refine returns_then (returns_any _) (fun size _ r v after returned => ?_)
      have := (returns_collect (returns_any _) _ r v after returned).1
      have := size.toNat_lt
      omega
    · exact returns_throw _

private theorem sound_vector {c : Codec α} (sound : Sound c) {default : α} (valid : c.Valid default) : Sound (vectorCodec c default) := by
  refine sound_of_payload (fun tag head => ?_) (fun tag head => ?_)
  · show Safe (vectorPayload (fun tag => c.read default tag true) tag head)
    unfold vectorPayload
    split
    · exact safe_bind (safe_readSize _) (fun size => safe_collect (sound.safe default 0 true) _)
    · exact safe_throw _ _
  · show Gives (fun v => v.length < 4294967296 ∧ ∀ a ∈ v, c.Valid a) (vectorPayload (fun tag => c.read default tag true) tag head)
    unfold vectorPayload
    split
    · refine returns_then (returns_any _) (fun size _ r v after returned => ?_)
      obtain ⟨length,each⟩ := returns_collect (sound.valid default 0 true valid) _ r v after returned
      have := size.toNat_lt
      exact ⟨by omega,each⟩
    · exact returns_throw _

theorem safe_mapCodec {less : α → α → Bool} {keys : Codec α} {values : Codec β}
    (safeKeys : ∀ old tag isRequire, Safe (keys.read old tag isRequire))
    (safeValues : ∀ old tag isRequire, Safe (values.read old tag isRequire)) (key : α) (value : β) (old : List (α × β)) (tag : UInt8)
    (isRequire : Bool) : Safe ((mapCodec less keys values key value).read old tag isRequire) := by
  refine safe_field _ (fun tag head => ?_) old tag isRequire
  show Safe (mapPayload less (fun tag => keys.read key tag true) (fun tag => values.read value tag true) tag head)
  unfold mapPayload
  split
  · refine safe_bind (safe_readSize _) (fun size => safe_bind (safe_collect ?_ _) (fun entries => safe_pure _))
    exact safe_bind (safeKeys key 0 true) (fun k => safe_bind (safeValues value 1 true) (fun v => safe_pure _))
  · exact safe_throw _ _

/-- The reads of a struct are safe, and give valid values. -/
structure StructSound (c : StructCodec α) : Prop where
  safe : Safe c.readFrom
  valid : Gives c.Valid c.readFrom

private theorem sound_struct {c : StructCodec α} (sound : StructSound c) : Sound c.codec := by
  refine sound_of_payload (fun tag head => ?_) (fun tag head => ?_)
  · show Safe (structPayload c.readFrom tag head)
    unfold structPayload
    split_ifs
    · exact safe_throw _ _
    · exact safe_bind sound.safe (fun v => safe_bind safe_skipToStructEnd (fun _ => safe_pure v))
  · show Gives c.Valid (structPayload c.readFrom tag head)
    unfold structPayload
    split_ifs
    · exact returns_throw _
    · refine returns_then sound.valid (fun v valid => returns_then (returns_any _) (fun _ _ => returns_pure (fun _ => valid)))

/-! ### The structs -/

theorem empty_string : stringCodec.Valid [] := Nat.zero_le _
theorem empty_chars : charsCodec.Valid [] := Nat.zero_lt_succ _
private theorem empty_vector (c : Codec α) (default : α) : (vectorCodec c default).Valid [] := ⟨Nat.zero_lt_succ _,fun _ member => by cases member⟩

theorem sound_transactionData : StructSound transactionDataCodec where
  safe := by
    refine safe_bind (sound_int32.safe 0 1 true) (fun version => safe_bind (sound_string.safe [] 2 true) (fun chainID => ?_))
    refine safe_bind (sound_string.safe [] 3 true) (fun groupID => safe_bind (sound_int64.safe 0 4 true) (fun blockLimit => ?_))
    refine safe_bind (sound_string.safe [] 5 true) (fun nonce => safe_bind (sound_string.safe [] 6 false) (fun toAddress => ?_))
    exact safe_bind (sound_chars.safe [] 7 true) (fun input => safe_bind (sound_string.safe [] 8 false) (fun abi => safe_pure _))
  valid := by
    refine returns_then (returns_any _) (fun version _ => ?_)
    refine returns_then (sound_string.valid [] 2 true empty_string) (fun chainID chainIDFits => ?_)
    refine returns_then (sound_string.valid [] 3 true empty_string) (fun groupID groupIDFits => ?_)
    refine returns_then (returns_any _) (fun blockLimit _ => ?_)
    refine returns_then (sound_string.valid [] 5 true empty_string) (fun nonce nonceFits => ?_)
    refine returns_then (sound_string.valid [] 6 false empty_string) (fun toAddress toAddressFits => ?_)
    refine returns_then (sound_chars.valid [] 7 true empty_chars) (fun input inputFits => ?_)
    refine returns_then (sound_string.valid [] 8 false empty_string) (fun abi abiFits => returns_pure (fun _ => ?_))
    exact ⟨chainIDFits,groupIDFits,nonceFits,toAddressFits,inputFits,abiFits⟩

theorem valid_resetTransactionData : ValidTransactionData resetTransactionData :=
  ⟨empty_string,empty_string,empty_string,empty_string,empty_chars,empty_string⟩
theorem sound_transaction : StructSound transactionCodec where
  safe := by
    refine safe_bind ((sound_struct sound_transactionData).safe resetTransactionData 1 false) (fun data => ?_)
    refine safe_bind (sound_chars.safe [] 2 false) (fun dataHash => safe_bind (sound_chars.safe [] 3 false) (fun signature => ?_))
    refine safe_bind (sound_int64.safe 0 4 false) (fun importTime => safe_bind (sound_int32.safe 0 5 false) (fun transactionAttribute => ?_))
    exact safe_bind (sound_chars.safe [] 7 false) (fun sender => safe_bind (sound_string.safe [] 8 false) (fun extraData => safe_pure _))
  valid := by
    refine returns_then ((sound_struct sound_transactionData).valid _ 1 false valid_resetTransactionData) (fun data dataFits => ?_)
    refine returns_then (sound_chars.valid [] 2 false empty_chars) (fun dataHash dataHashFits => ?_)
    refine returns_then (sound_chars.valid [] 3 false empty_chars) (fun signature signatureFits => ?_)
    refine returns_then (returns_any _) (fun importTime _ => returns_then (returns_any _) (fun transactionAttribute _ => ?_))
    refine returns_then (sound_chars.valid [] 7 false empty_chars) (fun sender senderFits => ?_)
    refine returns_then (sound_string.valid [] 8 false empty_string) (fun extraData extraDataFits => returns_pure (fun _ => ?_))
    exact ⟨dataFits,dataHashFits,signatureFits,senderFits,extraDataFits⟩

theorem sound_logEntry : StructSound logEntryCodec where
  safe := by
    refine safe_bind (sound_string.safe [] 1 false) (fun address => ?_)
    refine safe_bind ((sound_vector sound_chars empty_chars).safe [] 2 false) (fun topic => ?_)
    exact safe_bind (sound_chars.safe [] 3 false) (fun data => safe_pure _)
  valid := by
    refine returns_then (sound_string.valid [] 1 false empty_string) (fun address addressFits => ?_)
    refine returns_then ((sound_vector sound_chars empty_chars).valid [] 2 false (empty_vector _ _)) (fun topic topicFits => ?_)
    refine returns_then (sound_chars.valid [] 3 false empty_chars) (fun data dataFits => returns_pure (fun _ => ?_))
    exact ⟨addressFits,topicFits,dataFits⟩

private theorem valid_resetLogEntry : ValidLogEntry resetLogEntry := ⟨empty_string,empty_vector _ _,empty_chars⟩
private theorem sound_logEntries : Sound logEntriesCodec := sound_vector (sound_struct sound_logEntry) valid_resetLogEntry

theorem sound_receiptData : StructSound receiptDataCodec where
  safe := by
    refine safe_bind (sound_int32.safe 0 1 true) (fun version => safe_bind (sound_string.safe [] 2 false) (fun gasUsed => ?_))
    refine safe_bind (sound_string.safe [] 3 false) (fun contractAddress => safe_bind (sound_int32.safe 0 4 false) (fun status => ?_))
    refine safe_bind (sound_chars.safe [] 5 false) (fun output => safe_bind (sound_logEntries.safe [] 6 false) (fun logEntries => ?_))
    exact safe_bind (sound_int64.safe 0 7 false) (fun blockNumber => safe_pure _)
  valid := by
    refine returns_then (returns_any _) (fun version _ => ?_)
    refine returns_then (sound_string.valid [] 2 false empty_string) (fun gasUsed gasUsedFits => ?_)
    refine returns_then (sound_string.valid [] 3 false empty_string) (fun contractAddress contractAddressFits => ?_)
    refine returns_then (returns_any _) (fun status _ => ?_)
    refine returns_then (sound_chars.valid [] 5 false empty_chars) (fun output outputFits => ?_)
    refine returns_then (sound_logEntries.valid [] 6 false (empty_vector _ _)) (fun logEntries logEntriesFit => ?_)
    refine returns_then (returns_any _) (fun blockNumber _ => returns_pure (fun _ => ?_))
    exact ⟨gasUsedFits,contractAddressFits,outputFits,logEntriesFit⟩

private theorem valid_resetReceiptData : ValidReceiptData resetReceiptData := ⟨empty_string,empty_string,empty_chars,empty_vector _ _⟩
theorem sound_receipt : StructSound receiptCodec where
  safe := by
    refine safe_bind ((sound_struct sound_receiptData).safe resetReceiptData 1 false) (fun data => ?_)
    refine safe_bind (sound_chars.safe [] 2 false) (fun dataHash => ?_)
    exact safe_bind (sound_string.safe [] 3 false) (fun message => safe_pure _)
  valid := by
    refine returns_then ((sound_struct sound_receiptData).valid _ 1 false valid_resetReceiptData) (fun data dataFits => ?_)
    refine returns_then (sound_chars.valid [] 2 false empty_chars) (fun dataHash dataHashFits => ?_)
    refine returns_then (sound_string.valid [] 3 false empty_string) (fun message messageFits => returns_pure (fun _ => ?_))
    exact ⟨dataFits,dataHashFits,messageFits⟩

end CppSdk.TarsDecoding

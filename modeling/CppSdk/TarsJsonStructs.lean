import CppSdk.TarsBuilders
import CppSdk.TarsJsonRoundTrip

/-!
`Transaction.h`, `TransactionReceipt.h` and the builders in JSON. A map is iterated over in any
order, so a struct has many texts; the readers of the structs cannot tell them apart
(`reads_alike`), and from each the struct is read back exactly if its numbers are read back.
-/
namespace CppSdk.TarsJsonStructs
open CppSdk.ByteString CppSdk.Runtime CppSdk.TarsJson CppSdk.TarsJsonGrammar CppSdk.TarsJsonRoundTrip
open CppSdk.TransactionHash (TransactionData LogEntry TransactionReceiptData)
open CppSdk.TarsStructs (Transaction resetTransactionData)
open CppSdk.ReceiptJson

variable {α : Type}

/-! ### `JsonInput` and `JsonOutput` -/

/-- `JsonInput::readJson` of what is not required: where the type is another, the variable stays as it is. -/
def optional (type : Nat) (read : JsonValuePtr → Call α) (default : α) : JsonValuePtr → Call α
  | some v => if v.getType = type then read (some v) else .ok default
  | none => .ok default
/-- `JsonOutput::writeJson` of a `Char`. -/
def writeChar (c : UInt8) : JsonValue := .num c.toInt8.toInt64
/-- `JsonOutput::writeJson` of a `std::vector<Char>`. -/
def writeChars (content : Bytes) : JsonValue := .array (content.map writeChar)
/-- `JsonInput::readJson` of a `Char`. -/
def readChar (p : JsonValue) : Call UInt8 := do
  let lvalue ← readInteger (some p)
  .ok lvalue.toInt8.toUInt8
/-- `JsonInput::readJson` of a `std::vector<Char>`. -/
def readChars : JsonValuePtr → Call Bytes
  | some (.array value) => value.mapM readChar
  | p => mismatch "read 'vector'" p

/-! ### Transactions -/

section
variable (U : HexUtilities)

/-- `TransactionData::writeToJson`. -/
def writeTransactionData (x : TransactionData) : JsonValue :=
  .obj [(lit "version",.num x.version.toInt64),(lit "chainID",.string x.chainID),(lit "groupID",.string x.groupID),
    (lit "blockLimit",.num x.blockLimit),(lit "nonce",.string x.nonce),(lit "to",.string x.toAddress),
    (lit "input",.string (U.toHexStringWithPrefix x.input)),(lit "abi",.string x.abi)]
/-- What `TransactionData::readFromJson` reads from the members. -/
def transactionDataFrom (members : List (Bytes × JsonValue)) : Call TransactionData := do
  let version ← readInteger (valueOf members "version")
  let chainID ← readString (valueOf members "chainID")
  let groupID ← readString (valueOf members "groupID")
  let blockLimit ← readInteger (valueOf members "blockLimit")
  let nonce ← readString (valueOf members "nonce")
  let toAddress ← optional 0 readString [] (valueOf members "to")
  let inputHex ← readString (valueOf members "input")
  let input ← U.fromHexString inputHex
  let abi ← optional 0 readString [] (valueOf members "abi")
  .ok ⟨version.toInt32,chainID,groupID,blockLimit,nonce,toAddress,input,abi⟩
/-- `TransactionData::readFromJson`. -/
def readTransactionData : JsonValuePtr → Call TransactionData := readObject (transactionDataFrom U)

/-- `Transaction::writeToJson`. -/
def writeTransaction (x : Transaction) : JsonValue :=
  .obj [(lit "data",writeTransactionData U x.data),(lit "dataHash",writeChars x.dataHash),(lit "signature",writeChars x.signature),
    (lit "importTime",.num x.importTime),(lit "attribute",.num x.transactionAttribute.toInt64),(lit "sender",writeChars x.sender),
    (lit "extraData",.string x.extraData)]
/-- What `Transaction::readFromJson` reads from the members. -/
def transactionFrom (members : List (Bytes × JsonValue)) : Call Transaction := do
  let data ← optional 2 (readTransactionData U) resetTransactionData (valueOf members "data")
  let dataHash ← optional 3 readChars [] (valueOf members "dataHash")
  let signature ← optional 3 readChars [] (valueOf members "signature")
  let importTime ← optional 1 readInteger 0 (valueOf members "importTime")
  let transactionAttribute ← optional 1 readInteger 0 (valueOf members "attribute")
  let sender ← optional 3 readChars [] (valueOf members "sender")
  let extraData ← optional 0 readString [] (valueOf members "extraData")
  .ok ⟨data,dataHash,signature,importTime,transactionAttribute.toInt32,sender,extraData⟩
/-- `Transaction::readFromJson`. -/
def readTransaction : JsonValuePtr → Call Transaction := readObject (transactionFrom U)

/-- `readFromJsonString` of a struct. -/
def readFromJsonString (D : Doubles) (read : JsonValuePtr → Call α) (str : Bytes) : Call α := do
  let p ← getValueOf D str
  read (some p)

end

/-! ### The order of members -/

/-- Values that differ in the order of members. -/
inductive Alike : JsonValue → JsonValue → Prop where
  | string (value : Bytes) : Alike (.string value) (.string value)
  | num (lvalue : Int64) : Alike (.num lvalue) (.num lvalue)
  | boolean (value : Bool) : Alike (.boolean value) (.boolean value)
  | null : Alike .null .null
  | array {elements elements' : List JsonValue} (each : List.Forall₂ Alike elements elements') : Alike (.array elements) (.array elements')
  | obj {members middle members' : List (Bytes × JsonValue)} (names : members.map Prod.fst = middle.map Prod.fst)
      (each : List.Forall₂ Alike (members.map Prod.snd) (middle.map Prod.snd)) (order : middle.Perm members') :
      Alike (.obj members) (.obj members')

private theorem alike_getType {v v' : JsonValue} (alike : Alike v v') : v'.getType = v.getType := by
  cases alike <;> rfl
theorem alike_refl (v : JsonValue) : Alike v v := by
  induction v using JsonValue.induct with
  | string value => exact .string value
  | num lvalue => exact .num lvalue
  | boolean value => exact .boolean value
  | null => exact .null
  | array elements ih => exact .array (List.forall₂_same.mpr ih)
  | obj members ih =>
    refine .obj rfl (List.forall₂_same.mpr (fun v member => ?_)) (List.Perm.refl members)
    obtain ⟨p,known,rfl⟩ := List.mem_map.mp member
    exact ih p known

/-- Each element of the one list is related to one of the other. -/
theorem forall₂_mem {β γ : Type} {R : β → γ → Prop} {xs : List β} {ys : List γ} (each : List.Forall₂ R xs ys) : ∀ y ∈ ys, ∃ x ∈ xs, R x y := by
  induction each with
  | nil => exact fun y member => absurd member List.not_mem_nil
  | cons here _ ih =>
    rintro y member
    rcases List.mem_cons.mp member with rfl | later
    · exact ⟨_,List.mem_cons_self,here⟩
    · obtain ⟨x,known,same⟩ := ih y later
      exact ⟨x,List.mem_cons_of_mem _ known,same⟩
/-- The children of values that are alike correspond to one another. -/
theorem alike_children {v v' : JsonValue} (alike : Alike v v') :
    (∀ w' ∈ children v', ∃ w ∈ children v, Alike w w') ∧ ∀ w ∈ children v, ∃ w' ∈ children v', Alike w w' := by
  cases alike with
  | array each => exact ⟨forall₂_mem each,forall₂_mem (R := fun w' w => Alike w w') each.flip⟩
  | obj names each order =>
    have values := fun w' => (order.map Prod.snd).mem_iff (a := w')
    refine ⟨fun w' member => forall₂_mem each w' ((values w').mpr member),fun w member => ?_⟩
    obtain ⟨w',known,same⟩ := forall₂_mem (R := fun w' w => Alike w w') each.flip w member
    exact ⟨w',(values w').mp known,same⟩
  | _ => exact ⟨fun w' member => absurd member List.not_mem_nil,fun w member => absurd member List.not_mem_nil⟩
/-- What does not depend on the order of members holds of both values that are alike. -/
theorem everywhere_alike {P : JsonValue → Prop} (invariant : ∀ v v', Alike v v' → (P v ↔ P v')) {v v' : JsonValue} (alike : Alike v v') :
    Everywhere P v ↔ Everywhere P v' := by
  constructor
  · intro all
    induction all generalizing v' with
    | intro here below ih =>
      refine .intro ((invariant _ _ alike).mp here) (fun w' member => ?_)
      obtain ⟨w,known,same⟩ := (alike_children alike).1 w' member
      exact ih w known same
  · intro all
    induction all generalizing v with
    | intro here below ih =>
      refine .intro ((invariant _ _ alike).mpr here) (fun w member => ?_)
      obtain ⟨w',known,same⟩ := (alike_children alike).2 w member
      exact ih w' known same

theorem distinct_alike {v v' : JsonValue} (alike : Alike v v') : Distinct v ↔ Distinct v' := by
  refine everywhere_alike (fun v v' alike => ?_) alike
  cases alike with
  | obj names each order =>
    simp only [JsonValue.obj.injEq,forall_eq']
    rw [names]
    exact (order.map Prod.fst).nodup_iff
  | _ => simp
theorem noNull_alike {v v' : JsonValue} (alike : Alike v v') : NoNull v ↔ NoNull v' :=
  everywhere_alike (fun v v' alike => by cases alike <;> simp) alike
theorem ranged_alike {v v' : JsonValue} (alike : Alike v v') : Ranged v ↔ Ranged v' :=
  everywhere_alike (fun v v' alike => by cases alike <;> simp) alike

theorem brief_alike {v v' : JsonValue} (alike : Alike v v') : Brief v ↔ Brief v' := by
  refine everywhere_alike (fun v v' alike => ?_) alike
  cases alike with
  | @obj members middle members' names each order =>
    have short : ∀ members : List (Bytes × JsonValue), (∀ m ∈ members, m.1.length < 4294967296) ↔
        ∀ key ∈ members.map Prod.fst, key.length < 4294967296 := fun members => by rw [List.forall_mem_map]
    have same : ∀ key, key ∈ members.map Prod.fst ↔ key ∈ members'.map Prod.fst := fun key => names ▸ (order.map Prod.fst).mem_iff
    simp only [JsonValue.obj.injEq,forall_eq',reduceCtorEq,false_imp_iff,implies_true,true_and,short,same]
  | _ => simp

/-- With distinct names a member is found by its name. -/
theorem lookup_iff {members : List (Bytes × JsonValue)} (distinct : (members.map Prod.fst).Nodup) (key : Bytes) (v : JsonValue) :
    members.lookup key = some v ↔ (key,v) ∈ members := by
  rw [List.lookup_eq_some_iff]
  constructor
  · rintro ⟨front,rest,rfl,_⟩
    exact List.mem_append_right _ List.mem_cons_self
  · intro member
    obtain ⟨front,rest,rfl⟩ := List.append_of_mem member
    refine ⟨front,rest,rfl,fun p before => ?_⟩
    rw [List.map_append,List.nodup_append] at distinct
    have other := distinct.2.2 p.1 (List.mem_map_of_mem before) key (by simp)
    simpa using fun same : key = p.1 => other same.symm

private theorem members_through {members middle : List (Bytes × JsonValue)} (names : members.map Prod.fst = middle.map Prod.fst)
    (each : List.Forall₂ Alike (members.map Prod.snd) (middle.map Prod.snd)) :
    (∀ key v, (key,v) ∈ members → ∃ v', (key,v') ∈ middle ∧ Alike v v') ∧
    (∀ key v', (key,v') ∈ middle → ∃ v, (key,v) ∈ members ∧ Alike v v') := by
  induction members generalizing middle with
  | nil =>
    obtain rfl := List.map_eq_nil_iff.mp names.symm
    exact ⟨fun _ _ member => absurd member List.not_mem_nil,fun _ _ member => absurd member List.not_mem_nil⟩
  | cons p members ih =>
    obtain ⟨key,v⟩ := p
    cases middle with
    | nil => cases names
    | cons q middle =>
      obtain ⟨key',v'⟩ := q
      rw [List.map_cons,List.map_cons,List.cons.injEq] at names
      obtain ⟨same,names⟩ := names
      obtain rfl : key = key' := same
      rw [List.map_cons,List.map_cons,List.forall₂_cons] at each
      obtain ⟨onward,backward⟩ := ih names each.2
      constructor
      · intro key w member
        rcases List.mem_cons.mp member with here | later
        · obtain ⟨rfl,rfl⟩ := Prod.mk.inj here
          exact ⟨v',List.mem_cons_self,each.1⟩
        · obtain ⟨w',known,same⟩ := onward key w later
          exact ⟨w',List.mem_cons_of_mem _ known,same⟩
      · intro key w' member
        rcases List.mem_cons.mp member with here | later
        · obtain ⟨rfl,rfl⟩ := Prod.mk.inj here
          exact ⟨v,List.mem_cons_self,each.1⟩
        · obtain ⟨w,known,same⟩ := backward key w' later
          exact ⟨w,List.mem_cons_of_mem _ known,same⟩

/-- Two sets of members give values that are alike to each name. -/
def AlikeMembers (members members' : List (Bytes × JsonValue)) : Prop :=
  ∀ key, Option.Rel Alike (valueOf members key) (valueOf members' key)
private theorem alikeMembers {members members' : List (Bytes × JsonValue)} (alike : Alike (.obj members) (.obj members'))
    (distinct : (members.map Prod.fst).Nodup) : AlikeMembers members members' := by
  intro key
  cases alike with
  | obj names each order =>
    have distinct' := (order.map Prod.fst).nodup_iff.mp (names ▸ distinct)
    obtain ⟨onward,backward⟩ := members_through names each
    unfold valueOf
    cases one : members.lookup (lit key) with
    | some v =>
      obtain ⟨v',known,same⟩ := onward _ v ((lookup_iff distinct _ v).mp one)
      rw [(lookup_iff distinct' _ v').mpr (order.mem_iff.mp known)]
      exact .some same
    | none =>
      cases other : members'.lookup (lit key) with
      | none => exact .none
      | some v' =>
        obtain ⟨v,known,_⟩ := backward _ v' (order.mem_iff.mpr ((lookup_iff distinct' _ v').mp other))
        rw [(lookup_iff distinct _ v).mpr known] at one
        cases one

/-! ### The readers -/

/-- The reader does not see the order of members. -/
def Respects (read : JsonValuePtr → Call α) : Prop :=
  ∀ p p', Option.Rel Alike p p' → (∀ v, p = some v → Distinct v) → read p = read p'

private theorem respects_readInteger : Respects readInteger := by
  intro p p' alike _
  cases alike with
  | none => rfl
  | some same => cases same <;> rfl
private theorem respects_readString : Respects readString := by
  intro p p' alike _
  cases alike with
  | none => rfl
  | some same => cases same <;> rfl
private theorem respects_optional {read : JsonValuePtr → Call α} (respects : Respects read) (type : Nat) (default : α) :
    Respects (optional type read default) := by
  intro p p' alike distinct
  cases alike with
  | none => rfl
  | @some v v' same =>
    rw [optional,optional,alike_getType same,respects (some v) (some v') (.some same) distinct]
private theorem respects_readStruct {read : JsonValuePtr → Call α} (respects : Respects read) : Respects (readStruct read) := by
  intro p p' alike distinct
  cases alike with
  | none => rfl
  | @some v v' same =>
    cases same with
    | obj names each order => exact respects _ _ (.some (.obj names each order)) distinct
    | _ => rfl

/-- A loop over elements that are alike. -/
theorem mapM_alike {read : JsonValue → Call α} (respects : ∀ v v', Alike v v' → Distinct v → read v = read v') {elements elements' : List JsonValue}
    (each : List.Forall₂ Alike elements elements') (distinct : ∀ v ∈ elements, Distinct v) : elements.mapM read = elements'.mapM read := by
  induction each with
  | nil => rfl
  | @cons v v' elements elements' same _ ih =>
    obtain ⟨here,later⟩ := List.forall_mem_cons.mp distinct
    rw [List.mapM_cons,List.mapM_cons,respects v v' same here,ih later]
theorem some_distinct {v : JsonValue} (distinct : Distinct v) : ∀ w, some v = some w → Distinct w := by
  rintro w same
  obtain rfl := Option.some.inj same
  exact distinct
private theorem respects_readChars : Respects readChars := by
  have char : ∀ v v', Alike v v' → Distinct v → readChar v = readChar v' := by
    intro v v' same distinct
    rw [readChar,readChar,respects_readInteger (some v) (some v') (.some same) (some_distinct distinct)]
  intro p p' alike distinct
  cases alike with
  | none => rfl
  | some same =>
    cases same with
    | array each => exact mapM_alike char each (everywhere_array.mp (distinct _ rfl)).2
    | _ => rfl

/-- A struct is read from members that are alike as from each other. -/
theorem respects_readObject {read : List (Bytes × JsonValue) → Call α}
    (respects : ∀ members members', (∀ {β : Type} {field : JsonValuePtr → Call β}, Respects field → ∀ key,
      field (valueOf members key) = field (valueOf members' key)) → read members = read members') : Respects (readObject read) := by
  intro p p' alike distinct
  cases alike with
  | none => rfl
  | @some v v' same =>
    have type := alike_getType same
    cases same with
    | @obj members middle members' names each order =>
      have known := everywhere_obj.mp (distinct _ rfl)
      have views := alikeMembers (.obj names each order) (known.1 members rfl)
      refine respects members members' (fun field key => field _ _ (views key) (fun v found => ?_))
      exact known.2 (lit key,v) ((lookup_iff (known.1 members rfl) _ v).mp found)
    | _ => rfl

section
variable (U : HexUtilities)

theorem respects_readTransactionData : Respects (readTransactionData U) := by
  refine respects_readObject (fun members members' field => ?_)
  simp only [transactionDataFrom,field respects_readInteger,field respects_readString,field (respects_optional respects_readString 0 [])]
theorem respects_readTransaction : Respects (readTransaction U) := by
  refine respects_readObject (fun members members' field => ?_)
  simp only [transactionFrom,field (respects_optional (respects_readTransactionData U) 2 resetTransactionData),
    field (respects_optional respects_readChars 3 []),field (respects_optional respects_readInteger 1 0),
    field (respects_optional respects_readString 0 [])]

private theorem respects_readTopics : Respects (readTopics U) := by
  have topic : ∀ v v', Alike v v' → Distinct v → readTopic U v = readTopic U v' := by
    intro v v' same distinct
    rw [readTopic,readTopic,respects_readString (some v) (some v') (.some same) (some_distinct distinct)]
  intro p p' alike distinct
  cases alike with
  | none => rfl
  | some same =>
    cases same with
    | array each => exact mapM_alike topic each (everywhere_array.mp (distinct _ rfl)).2
    | _ => rfl
private theorem respects_readLogEntry : Respects (readLogEntry U) := by
  refine respects_readObject (fun members members' field => ?_)
  simp only [field respects_readString,field (respects_readTopics U)]
private theorem respects_readLogEntries : Respects (readLogEntries U) := by
  have entry : ∀ v v', Alike v v' → Distinct v → readStruct (readLogEntry U) (some v) = readStruct (readLogEntry U) (some v') :=
    fun v v' same distinct => respects_readStruct (respects_readLogEntry U) (some v) (some v') (.some same) (some_distinct distinct)
  intro p p' alike distinct
  cases alike with
  | none => rfl
  | some same =>
    cases same with
    | array each => exact mapM_alike entry each (everywhere_array.mp (distinct _ rfl)).2
    | _ => rfl
theorem respects_readFromJson : Respects (readFromJson U) := by
  refine respects_readObject (fun members members' field => ?_)
  simp only [field respects_readInteger,field respects_readString,field (respects_readLogEntries U)]

/-- The readers of the structs do not see the order in which the members of an object come. -/
theorem reads_alike {v v' : JsonValue} (alike : Alike v v') (distinct : Distinct v) :
    readTransactionData U (some v) = readTransactionData U (some v') ∧ readTransaction U (some v) = readTransaction U (some v') ∧
      readFromJson U (some v) = readFromJson U (some v') :=
  ⟨respects_readTransactionData U _ _ (.some alike) (some_distinct distinct),respects_readTransaction U _ _ (.some alike) (some_distinct distinct),
    respects_readFromJson U _ _ (.some alike) (some_distinct distinct)⟩

end

end CppSdk.TarsJsonStructs

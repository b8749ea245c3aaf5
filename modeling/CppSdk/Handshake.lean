import CppSdk.GroupInfoCodec

/-!
The response to a handshake. `encode` leaves out the block numbers of the groups, and
`decode` reads the version as an `int`: a response comes back exactly if it has no block
numbers and its version is below 2^31 (`comes_back_iff`).
-/
namespace CppSdk.Handshake
open CppSdk.ByteString CppSdk.Runtime CppSdk.Tables CppSdk.JsonValues CppSdk.JsonReading
open CppSdk.EventParams (Reader Same SameMember Inverts number_of_same readMember)

/-- `GroupInfoCodec`. -/
structure Codec (γ : Type) where
  deserialize : Bytes → Call γ
  serialize : γ → Json

/-- `JsonGroupInfoCodec`, for the members of a fresh node that are not initialised. -/
def jsonCodec (R : Reader) (nodeCryptoType compatibilityVersion : UInt32) : Codec GroupInfoCodec.GroupInfo where
  deserialize := GroupInfoCodec.deserialize R (GroupInfoCodec.createNodeInfo nodeCryptoType compatibilityVersion)
  serialize := GroupInfoCodec.serialize

variable {γ : Type}

/-- `HandshakeResponse`. -/
structure HandshakeResponse (γ : Type) where
  groupInfoList : List γ
  groupBlockNumber : Table Bytes Int64
  protocolVersion : UInt32

/-- A fresh response; the constructor leaves the version as it is. -/
def fresh (protocolVersion : UInt32) : HandshakeResponse γ := ⟨[],∅,protocolVersion⟩

/-! ### Writing -/

/-- The value that `encode` writes. -/
def encodedJson (C : Codec γ) (r : HandshakeResponse γ) : Json :=
  .object [(lit "groupInfoList",.array (r.groupInfoList.map C.serialize)),
    (lit "protocolVersion",.uint r.protocolVersion.toUInt64)]
/-- `HandshakeResponse::encode`. -/
def encode (R : Reader) (C : Codec γ) (r : HandshakeResponse γ) : Bytes := R.write (encodedJson C r)

/-! ### Reading -/

/-- A method of `HandshakeResponse`. -/
abbrev Reading (γ : Type) := Method Failure (HandshakeResponse γ)

/-- `getMemberNames`. -/
def memberNames : Json → Call (List Bytes)
  | .object members => .ok (members.map Prod.fst)
  | .null => .ok []
  | _ => throws (lit "in Json::Value::getMemberNames(), value must be objectValue")

section
variable (R : Reader) (C : Codec γ)

/-- One group. -/
def readGroup (json : Json) : Reading γ Unit := do
  let groupInfo ← (C.deserialize (R.write json) : Call γ)
  modify (fun r => { r with groupInfoList := r.groupInfoList ++ [groupInfo] })
/-- The block number of one group. -/
def readBlockNumber (json : Json) (groupID : Bytes) : Reading γ Unit := do
  let blockNumber ← (R.asInt64 ((json.member groupID).getD .null) : Call Int64)
  modify (fun r => { r with groupBlockNumber := r.groupBlockNumber.insert groupID blockNumber })
/-- The block numbers of one element. -/
def readBlockNumbers (json : Json) : Reading γ Unit := do
  (← (memberNames json : Call (List Bytes))).forM (readBlockNumber R json)
/-- The elements of a member, where there is one that is an array. -/
def readArray (root : Json) (key : String) (read : Json → Reading γ Unit) : Reading γ Unit := do
  if ← (root.isMember (lit key) : Call Bool) then
    match (root.member (lit key)).getD .null with
    | .array elements => elements.forM read
    | _ => pure ()
/-- The `try` block of `decode`, from a value on. -/
def readResponse (root : Json) : Reading γ Bool := do
  if ← (root.isMember (lit "protocolVersion") : Call Bool) then
    let version ← (R.asInt ((root.member (lit "protocolVersion")).getD .null) : Call Int32)
    modify (fun r => { r with protocolVersion := version.toUInt32 })
    readArray root "groupInfoList" (readGroup R C)
    readArray root "groupBlockNumber" (readBlockNumbers R)
    pure true
  else pure false
/-- `HandshakeResponse::decode`: whether it succeeds, and the response. -/
def decode (r : HandshakeResponse γ) (data : Bytes) : Call Bool × HandshakeResponse γ :=
  match R.parse data with
  | none => (.ok false,r)
  | some root =>
    match (readResponse R C root).run r with
    | (.ok read,after) => (.ok read,after)
    | (.error (.throws _),after) => (.ok false,after)
    | (.error failure,after) => (.error failure,after)
end

/-! ### A round trip -/

private theorem version_read (version : UInt32) : (Int32.ofInt version.toNat).toUInt32 = version := by
  apply UInt32.toBitVec_inj.mp
  simp

section
variable {R : Reader} {C : Codec γ}

/-- The groups are appended in their order. -/
theorem run_readGroups (alike : PrintsAlike R) {groups : List γ}
    (roundTrips : ∀ group ∈ groups, C.deserialize (R.write (C.serialize group)) = .ok group) {read : List Json}
    (same : List.Forall₂ Same (groups.map C.serialize) read) (r : HandshakeResponse γ) :
    (read.forM (readGroup R C)).run r = (.ok (),{ r with groupInfoList := r.groupInfoList ++ groups }) := by
  induction groups generalizing read r with
  | nil =>
    cases same
    simp only [List.append_nil]
    rfl
  | cons group rest ih =>
    obtain ⟨first,later,sameFirst,sameLater,rfl⟩ := List.forall₂_cons_left_iff.mp same
    obtain ⟨here,others⟩ := List.forall_mem_cons.mp roundTrips
    have one : (readGroup R C first).run r = (.ok (),{ r with groupInfoList := r.groupInfoList ++ [group] }) := by
      rw [readGroup,run_bind (run_lift ((congrArg C.deserialize (alike _ _ sameFirst)).symm.trans here))]
      rfl
    have next := ih others sameLater { r with groupInfoList := r.groupInfoList ++ [group] }
    rw [List.append_assoc] at next
    exact (run_bind one).trans next

/-- What is written is read in the order of the source, and there are no block numbers. -/
theorem run_readResponse {elements : List Json} {version : Json} {r after : HandshakeResponse γ} {number : Int32}
    (reads : R.asInt version = .ok number)
    (ran : (elements.forM (readGroup R C)).run { r with protocolVersion := number.toUInt32 } = (.ok (),after)) :
    (readResponse R C (.object [(lit "groupInfoList",.array elements),(lit "protocolVersion",version)])).run r = (.ok true,after) := by
  have groups : (readArray (.object [(lit "groupInfoList",.array elements),(lit "protocolVersion",version)]) "groupInfoList"
      (readGroup R C)).run { r with protocolVersion := number.toUInt32 } = (.ok (),after) := ran
  have numbers : (readArray (.object [(lit "groupInfoList",.array elements),(lit "protocolVersion",version)]) "groupBlockNumber"
      (readBlockNumbers R)).run after = (.ok (),after) := rfl
  have assigned : (liftM (R.asInt version) : Reading γ Int32).run r = (.ok number,r) := run_lift reads
  exact (run_bind assigned).trans ((run_bind groups).trans ((run_bind numbers).trans rfl))
private theorem run_readResponse_throws {elements : List Json} {version : Json} {r : HandshakeResponse γ} {failure : Failure}
    (throws : R.asInt version = .error failure) :
    (readResponse R C (.object [(lit "groupInfoList",.array elements),(lit "protocolVersion",version)])).run r = (.error failure,r) := by
  have present : Json.isMember (lit "protocolVersion")
    (.object [(lit "groupInfoList",.array elements),(lit "protocolVersion",version)]) = .ok true := rfl
  rw [readResponse,run_bind (run_lift present)]
  exact run_bind_error (run_lift_error throws)

/-- `decode` after `encode`. -/
theorem decode_encode (documented : R.Documented) (alike : PrintsAlike R) (beyond : ThrowsBeyondInt R) {r : HandshakeResponse γ}
    (roundTrips : ∀ group ∈ r.groupInfoList, C.deserialize (R.write (C.serialize group)) = .ok group)
    (inverts : Inverts R (encodedJson C r)) (initial : UInt32) :
    decode R C (fresh initial) (encode R C r) =
      if r.protocolVersion.toNat < 2 ^ 31 then (.ok true,⟨r.groupInfoList,∅,r.protocolVersion⟩) else (.ok false,fresh initial) := by
  obtain ⟨read,parsed,same⟩ := inverts
  rw [encodedJson] at same
  cases same with
  | number number => cases number
  | object pairs =>
    rcases pairs with _ | ⟨⟨_,groups⟩,_ | ⟨⟨_,version⟩,_ | _⟩⟩
    cases groups with
    | number number => cases number
    | array elements =>
      have number := number_of_same version rfl
      rw [UInt32.toNat_toUInt64] at number
      by_cases small : r.protocolVersion.toNat < 2 ^ 31
      · have reads := documented.int_reads _ _ number (by omega) (by omega)
        have groups := run_readGroups alike roundTrips elements ⟨[],∅,(Int32.ofInt r.protocolVersion.toNat).toUInt32⟩
        rw [version_read,List.nil_append] at groups
        have ran := run_readResponse (r := fresh initial) reads (by rw [version_read]; exact groups)
        rw [if_pos small]
        simp only [decode,encode,parsed,ran]
      · obtain ⟨what,throws⟩ := beyond _ _ number (by omega)
        rw [if_neg small]
        simp only [decode,encode,parsed,run_readResponse_throws throws]

/-- A response comes back from `encode` and `decode` exactly if its version is an `int` and
    it has no block numbers. -/
theorem comes_back_iff (documented : R.Documented) (alike : PrintsAlike R) (beyond : ThrowsBeyondInt R) (r : HandshakeResponse γ)
    (roundTrips : ∀ group ∈ r.groupInfoList, C.deserialize (R.write (C.serialize group)) = .ok group)
    (inverts : Inverts R (encodedJson C r)) (initial : UInt32) :
    (∃ after, decode R C (fresh initial) (encode R C r) = (.ok true,after) ∧ after.protocolVersion = r.protocolVersion ∧
      after.groupInfoList = r.groupInfoList ∧ ∀ group, after.groupBlockNumber.lookup group = r.groupBlockNumber.lookup group) ↔
      r.protocolVersion.toNat < 2 ^ 31 ∧ ∀ group, r.groupBlockNumber.lookup group = none := by
  rw [decode_encode documented alike beyond roundTrips inverts]
  by_cases small : r.protocolVersion.toNat < 2 ^ 31
  · rw [if_pos small]
    constructor
    · rintro ⟨_,⟨⟩,_,_,numbers⟩
      exact ⟨small,fun group => (numbers group).symm⟩
    · exact fun empty => ⟨_,rfl,rfl,rfl,fun group => (empty.2 group).symm⟩
  · rw [if_neg small]
    constructor
    · rintro ⟨_,⟨⟩,_⟩
    · exact fun condition => absurd condition.1 small

end

/-! ### With the codec of the groups -/

/-- A response with the group of a Wasm chain. -/
def wasmResponse : HandshakeResponse GroupInfoCodec.GroupInfo := ⟨[GroupInfoCodec.wasmGroup],∅,111⟩
/-- Jsoncpp on the texts of the response. -/
def responseReader : Reader := readerOf
  [.object [(lit "groupInfoList",.array [GroupInfoCodec.serialize GroupInfoCodec.wasmGroup]),(lit "protocolVersion",.uint 111)],
    GroupInfoCodec.serialize GroupInfoCodec.wasmGroup,GroupInfoCodec.serializeNode GroupInfoCodec.wasmNode,GroupInfoCodec.wasmConfig]

open GroupInfoCodec in
theorem comes_back_wasmResponse :
    ∃ after, decode responseReader (jsonCodec responseReader 7 7) (fresh 9)
      (encode responseReader (jsonCodec responseReader 7 7) wasmResponse) = (.ok true,after) ∧
      after.protocolVersion = 111 ∧ after.groupInfoList = [wasmGroup] ∧
      ∀ group, after.groupBlockNumber.lookup group = (∅ : Table Bytes Int64).lookup group := by
  have documented : responseReader.Documented := readerOf_documented _
  have alike : PrintsAlike responseReader := readerOf_printsAlike _
  have configures : Configures responseReader wasmNode.iniConfig true false :=
    ⟨_,_,_,parse_later (by decide) (parse_later (by decide) (parse_later (by decide) (parse_head _ _))),rfl,rfl,rfl,rfl⟩
  have read : GroupInfoCodec.deserialize responseReader (createNodeInfo 7 7) (responseReader.write (serialize wasmGroup)) = .ok wasmGroup := by
    have valid := forall_wasmGroup (P := fun node => ∃ wasm smCryptoType, Configures responseReader node.iniConfig wasm smCryptoType)
      ⟨_,_,configures⟩
    rw [deserialize_written documented alike (inverts_of_parse (parse_later (by decide) (parse_head _ _)))
      (forall_wasmGroup (inverts_of_parse (parse_later (by decide) (parse_later (by decide) (parse_head _ _))))) valid]
    rw [(regrouped_eq_iff valid).mpr (wasmGroup_survives configures)]
  have beyond : ThrowsBeyondInt responseReader := readerOf_throwsBeyondInt _
  have inverts : Inverts responseReader (encodedJson (jsonCodec responseReader 7 7) wasmResponse) := inverts_of_parse (parse_head _ _)
  refine (comes_back_iff documented alike beyond wasmResponse ?_ inverts 9).mpr ⟨by decide,fun _ => rfl⟩
  intro group member
  rw [wasmResponse,List.mem_singleton] at member
  rw [member]
  simp only [jsonCodec]
  exact read

/-- A codec of texts. -/
def echo : Codec Bytes := ⟨.ok,.string⟩
/-- A response with the block number of a group. -/
def numbered : HandshakeResponse Bytes := ⟨[],(∅ : Table Bytes Int64).insert (lit "group0") 5,111⟩

/-- The block numbers are lost. -/
theorem numbers_lost :
    ¬∀ (R : Reader) (C : Codec Bytes) (r : HandshakeResponse Bytes) (initial : UInt32),
      R.Documented → PrintsAlike R → ThrowsBeyondInt R →
      (∀ group ∈ r.groupInfoList, C.deserialize (R.write (C.serialize group)) = .ok group) → Inverts R (encodedJson C r) →
      ∃ after, decode R C (fresh initial) (encode R C r) = (.ok true,after) ∧ after.protocolVersion = r.protocolVersion ∧
        after.groupInfoList = r.groupInfoList ∧ ∀ group, after.groupBlockNumber.lookup group = r.groupBlockNumber.lookup group := by
  intro all
  have documented := readerOf_documented [encodedJson echo numbered]
  have alike := readerOf_printsAlike [encodedJson echo numbered]
  have beyond := readerOf_throwsBeyondInt [encodedJson echo numbered]
  have inverts := inverts_of_parse (parse_head (encodedJson echo numbered) [])
  obtain ⟨after,decoded,_,_,numbers⟩ := all _ echo numbered 9 documented alike beyond nofun inverts
  rw [decode_encode documented alike beyond nofun inverts,if_pos (by decide)] at decoded
  cases decoded
  have lost := numbers (lit "group0")
  rw [numbered,AList.lookup_insert] at lost
  cases lost

end CppSdk.Handshake

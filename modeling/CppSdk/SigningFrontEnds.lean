import CppSdk.JsonRpcImpl
import CppSdk.Runtime

/-!
The two ways to sign a transaction for a group: `sendTransaction` of `JsonRpcServiceImpl` and
`TransactionBuilderService`. The first ignores whether there is a block limit and looks at no
key type; the second replaces the builder that it is given. They agree exactly on the groups
that the service does not know (`agree_iff`).
-/
namespace CppSdk.SigningFrontEnds
open CppSdk.ByteString CppSdk.Runtime
open CppSdk.Routing (Service GroupInfo getGroupInfo)
open CppSdk.JsonRpcImpl (Environment Client Request)

/-! ### The functions -/

/-- `KeyPairType`: the types that the sources name, and any other. -/
inductive KeyPairType where
  | secp256K1
  | sm2
  | hsmSM2
  | other (code : Int32)
  deriving DecidableEq

/-- `KeyPairInterface`: the type, and what else the builder takes from it. -/
structure KeyPair (κ : Type) where
  keyPairType : KeyPairType
  key : κ

/-- The arguments that both functions take. -/
structure Arguments (κ : Type) where
  keyPair : KeyPair κ
  receiver : Bytes
  data : Bytes
  abi : Bytes
  transactionAttribute : Int32
  extraData : Bytes

/-- A call of `createSignedTransaction` of a builder. -/
structure Signing (κ : Type) extends Arguments κ where
  groupID : Bytes
  chainID : Bytes
  blockLimit : Int64

/-- The builder that is given to the constructors, or one that a constructor makes. -/
inductive Builder where
  | given
  | made
  deriving DecidableEq

variable {κ : Type}

/-- What `createSignedTransaction` of a builder returns: the hash and the transaction. -/
abbrev Signer (κ : Type) := Builder → Signing κ → Call (Bytes × Bytes)

/-- `getBlockLimit`, when its result is true. -/
def getBlockLimit (numbers : BlockNumbers.State) (groupID : Bytes) : Option Int64 :=
  (numbers.group2BlockNumber.lookup groupID).map (fun blockNumber => blockNumber + 500)

/-- What `JsonRpcServiceImpl::sendTransaction` does. -/
inductive Effect (κ : Type) where
  | signed (builder : Builder) (signing : Signing κ)
  | requested (request : Request)
  | responded (code : Int32) (message : Bytes)

/-- `JsonRpcServiceImpl::sendTransaction`: what it does, and the hash that it returns. -/
def sendTransaction (E : Environment) (c : Client) (sign : Signer κ) (arguments : Arguments κ) (groupID nodeName : Bytes) :
    List (Effect κ) × Call Bytes :=
  match getGroupInfo c.tables groupID with
  | none => ([.responded (-1) (lit "group not exist, groupID: " ++ groupID)],.ok [])
  | some groupInfo =>
    let blockLimit := (getBlockLimit c.numbers groupID).getD 0
    let signing := { arguments with groupID := groupID,chainID := groupInfo.chainID,blockLimit := blockLimit }
    match sign .given signing with
    | .error failure => ([.signed .given signing],.error failure)
    | .ok (transactionHash,signedTransaction) =>
      ([.signed .given signing,.requested (JsonRpcImpl.sendTransaction E c groupID nodeName signedTransaction false)],
        .ok transactionHash)

/-- `TransactionBuilderService`. -/
structure TransactionBuilderService where
  groupInfo : GroupInfo
  transactionBuilderInterface : Option Builder

/-- The constructor: a builder that is given is replaced, and a null pointer stays. -/
def construct (tables : Service) (groupID : Bytes) (builder : Option Builder) : Call TransactionBuilderService :=
  match getGroupInfo tables groupID with
  | none => throws (lit "group not exist, groupID: " ++ groupID)
  | some groupInfo =>
    match builder with
    | some _ => .ok ⟨groupInfo,some .made⟩
    | none => .ok ⟨groupInfo,none⟩

/-- `keyPairStrFunc`. -/
def keyPairStrFunc : KeyPairType → Bytes
  | .sm2 | .hsmSM2 => lit "sm"
  | .secp256K1 => lit "none sm"
  | .other _ => lit "unkown"
/-- The check of the key pair against the group. -/
def checkKeyPair (groupInfo : GroupInfo) (keyPairType : KeyPairType) : Call Unit :=
  if groupInfo.smCryptoType = true ∧ keyPairType ≠ .sm2 ∧ keyPairType ≠ .hsmSM2 then
    throws (lit "group id: " ++ groupInfo.groupID ++ lit " ,group crypto type: sm/hsm" ++
      lit " ,but the keypair type: " ++ keyPairStrFunc keyPairType)
  else if groupInfo.smCryptoType = false ∧ keyPairType ≠ .secp256K1 then
    throws (lit "group id: " ++ groupInfo.groupID ++ lit " ,group crypto type: none sm" ++
      lit " ,but the keypair type: " ++ keyPairStrFunc keyPairType)
  else .ok ()

/-- `TransactionBuilderService::createSignedTransaction`: the calls of builders, and the result. -/
def createSignedTransaction (numbers : BlockNumbers.State) (sign : Signer κ) (service : TransactionBuilderService)
    (arguments : Arguments κ) : List (Builder × Signing κ) × Call (Bytes × Bytes) :=
  let groupID := service.groupInfo.groupID
  match getBlockLimit numbers groupID with
  | none => ([],throws (lit "get block limit failed, groupID: " ++ groupID))
  | some blockLimit =>
    match checkKeyPair service.groupInfo arguments.keyPair.keyPairType with
    | .error failure => ([],.error failure)
    | .ok () =>
      match service.transactionBuilderInterface with
      | none => ([],.error .undefined)
      | some builder =>
        let signing := { arguments with groupID := groupID,chainID := service.groupInfo.chainID,blockLimit := blockLimit }
        ([(builder,signing)],sign builder signing)

/-- The constructor with the builder, and `createSignedTransaction` after it. -/
def signWithService (c : Client) (sign : Signer κ) (arguments : Arguments κ) (groupID : Bytes) :
    List (Builder × Signing κ) × Call (Bytes × Bytes) :=
  match construct c.tables groupID (some .given) with
  | .error failure => ([],.error failure)
  | .ok service => createSignedTransaction c.numbers sign service arguments

/-! ### Agreement -/

/-- The calls of builders. -/
def signings (effects : List (Effect κ)) : List (Builder × Signing κ) :=
  effects.filterMap (fun | .signed builder signing => some (builder,signing) | _ => none)
/-- The requests that are sent. -/
def requests (effects : List (Effect κ)) : List Request :=
  effects.filterMap (fun | .requested request => some request | _ => none)
/-- The errors that the response function is called with. -/
def errors (effects : List (Effect κ)) : List (Int32 × Bytes) :=
  effects.filterMap (fun | .responded code message => some (code,message) | _ => none)

/-- A transaction is signed and sent exactly if the service would sign it; then both make the
    same call of the builder that was given, and otherwise nothing is sent and one error is
    reported. -/
structure Agree (effects : List (Effect κ)) (service : List (Builder × Signing κ) × Call (Bytes × Bytes)) : Prop where
  sends : (signings effects ≠ [] ∧ requests effects ≠ []) ↔ ∃ signed, service.2 = .ok signed
  same_call : requests effects ≠ [] → ∃ signing, signings effects = [(.given,signing)] ∧ service.1 = [(.given,signing)]
  refuses : requests effects = [] → (errors effects).length = 1

section
variable {E : Environment} {c : Client} {sign : Signer κ} {arguments : Arguments κ} {groupID nodeName : Bytes} {groupInfo : GroupInfo}

/-- The key pair is of the kind of the group. -/
def Matches (groupInfo : GroupInfo) (keyPairType : KeyPairType) : Prop :=
  if groupInfo.smCryptoType then keyPairType = .sm2 ∨ keyPairType = .hsmSM2 else keyPairType = .secp256K1

private theorem checkKeyPair_ok {keyPairType : KeyPairType} : checkKeyPair groupInfo keyPairType = .ok () ↔ Matches groupInfo keyPairType := by
  unfold checkKeyPair Matches
  cases groupInfo.smCryptoType <;> cases keyPairType <;> simp [throws]

/-- The service reaches its builder exactly if there is a block limit and the key pair is of the
    kind of the group; it calls it once, and returns what it returns. -/
theorem createSignedTransaction_spec (numbers : BlockNumbers.State) (sign : Signer κ) (groupInfo : GroupInfo) (builder : Builder)
    (arguments : Arguments κ) :
    (∃ blockLimit, getBlockLimit numbers groupInfo.groupID = some blockLimit ∧
      Matches groupInfo arguments.keyPair.keyPairType ∧
      createSignedTransaction numbers sign ⟨groupInfo,some builder⟩ arguments =
        let signing := { arguments with groupID := groupInfo.groupID,chainID := groupInfo.chainID,blockLimit := blockLimit }
        ([(builder,signing)],sign builder signing)) ∨
    ((getBlockLimit numbers groupInfo.groupID = none ∨ ¬Matches groupInfo arguments.keyPair.keyPairType) ∧
      ∃ failure, createSignedTransaction numbers sign ⟨groupInfo,some builder⟩ arguments = ([],.error failure)) := by
  cases limit : getBlockLimit numbers groupInfo.groupID with
  | none => exact .inr ⟨.inl rfl,_,by simp only [createSignedTransaction,limit]; rfl⟩
  | some blockLimit =>
    cases checked : checkKeyPair groupInfo arguments.keyPair.keyPairType with
    | error failure =>
      have differs : ¬Matches groupInfo arguments.keyPair.keyPairType := by
        rw [← checkKeyPair_ok,checked]
        simp
      exact .inr ⟨.inr differs,failure,by simp only [createSignedTransaction,limit,checked]⟩
    | ok _ =>
      refine .inl ⟨blockLimit,rfl,checkKeyPair_ok.mp checked,?_⟩
      simp only [createSignedTransaction,limit,checked]

private theorem signWithService_known (known : getGroupInfo c.tables groupID = some groupInfo) :
    signWithService c sign arguments groupID = createSignedTransaction c.numbers sign ⟨groupInfo,some .made⟩ arguments := by
  simp only [signWithService,construct,known]

/-- The service calls no builder but the one that its constructor makes. -/
theorem builder_made {builder : Builder} {signing : Signing κ}
    (called : (builder,signing) ∈ (signWithService c sign arguments groupID).1) : builder = .made := by
  cases known : getGroupInfo c.tables groupID with
  | none =>
    simp only [signWithService,construct,known,throws] at called
    cases called
  | some groupInfo =>
    rw [signWithService_known known] at called
    rcases createSignedTransaction_spec c.numbers sign groupInfo .made arguments with ⟨_,_,_,ran⟩ | ⟨_,_,ran⟩
    · rw [ran,List.mem_singleton] at called
      exact (Prod.mk.inj called).1
    · rw [ran] at called
      cases called

/-- For a group that is known the given builder is called, and no error is reported. -/
theorem sendTransaction_known (known : getGroupInfo c.tables groupID = some groupInfo) :
    signings (sendTransaction E c sign arguments groupID nodeName).1 = [(.given,{ arguments with
      groupID := groupID,chainID := groupInfo.chainID,blockLimit := (getBlockLimit c.numbers groupID).getD 0 })] ∧
    errors (sendTransaction E c sign arguments groupID nodeName).1 = [] := by
  cases signed : sign .given { arguments with
    groupID := groupID,chainID := groupInfo.chainID,blockLimit := (getBlockLimit c.numbers groupID).getD 0 } with
  | error failure =>
    simp only [sendTransaction,known,signed]
    exact ⟨rfl,rfl⟩
  | ok pair =>
    simp only [sendTransaction,known,signed]
    exact ⟨rfl,rfl⟩

/-- But for the builder, the calls for a group that is known under its own identifier are the
    same exactly if the group has a block limit and the key pair is of its kind. -/
theorem same_arguments_iff (known : getGroupInfo c.tables groupID = some groupInfo) (own : groupInfo.groupID = groupID) :
    (signings (sendTransaction E c sign arguments groupID nodeName).1).map Prod.snd =
      (signWithService c sign arguments groupID).1.map Prod.snd ↔
      getBlockLimit c.numbers groupID ≠ none ∧ Matches groupInfo arguments.keyPair.keyPairType := by
  rw [(sendTransaction_known known).1,signWithService_known known]
  rcases createSignedTransaction_spec c.numbers sign groupInfo .made arguments with ⟨blockLimit,limit,matching,ran⟩ | ⟨lacks,failure,ran⟩
  · rw [own] at limit
    rw [ran]
    refine iff_of_true ?_ ⟨by simp [limit],matching⟩
    simp [limit,own]
  · rw [own] at lacks
    rw [ran]
    refine iff_of_false (by simp) (fun both => ?_)
    rcases lacks with unknown | differs
    · exact both.1 unknown
    · exact differs both.2

/-- The two agree exactly on a group that the service does not know. -/
theorem agree_iff (E : Environment) (c : Client) (sign : Signer κ) (arguments : Arguments κ) (groupID nodeName : Bytes) :
    Agree (sendTransaction E c sign arguments groupID nodeName).1 (signWithService c sign arguments groupID) ↔
      getGroupInfo c.tables groupID = none := by
  constructor
  · intro agree
    cases known : getGroupInfo c.tables groupID with
    | none => rfl
    | some groupInfo =>
      have noErrors : errors (sendTransaction E c sign arguments groupID nodeName).1 = [] := (sendTransaction_known known).2
      by_cases sent : requests (sendTransaction E c sign arguments groupID nodeName).1 = []
      · have one := agree.refuses sent
        rw [noErrors] at one
        cases one
      · obtain ⟨_,_,called⟩ := agree.same_call sent
        cases builder_made (called ▸ List.mem_singleton_self _)
  · intro unknown
    have refused : (sendTransaction E c sign arguments groupID nodeName).1 =
        [.responded (-1) (lit "group not exist, groupID: " ++ groupID)] := by simp only [sendTransaction,unknown]
    have failed : (signWithService c sign arguments groupID).2 = throws (lit "group not exist, groupID: " ++ groupID) := by
      simp only [signWithService,construct,unknown,throws]
    rw [refused]
    refine ⟨?_,fun sent => absurd rfl sent,fun _ => rfl⟩
    rw [failed]
    exact iff_of_false (fun both => both.1 rfl) (by rintro ⟨_,⟨⟩⟩)

end

/-- A transaction with a key of the national standard for a group without one, and without a
    block number. -/
def transfer : Arguments Unit := ⟨⟨.sm2,()⟩,lit "0x01",[],[],0,[]⟩

/-- It is signed and sent, and the service refuses it. -/
theorem front_ends_differ :
    ¬∀ (E : Environment) (c : Client) (sign : Signer Unit) (arguments : Arguments Unit) (groupID nodeName : Bytes),
      Agree (sendTransaction E c sign arguments groupID nodeName).1 (signWithService c sign arguments groupID) := by
  intro all
  have agree := all JsonRpcImpl.quiet JsonRpcImpl.twoSessions (fun _ _ => .ok (lit "hash",lit "transaction")) transfer (lit "g") []
  obtain ⟨groupInfo,known⟩ : ∃ groupInfo, getGroupInfo JsonRpcImpl.twoSessions.tables (lit "g") = some groupInfo := ⟨_,rfl⟩
  rw [signWithService_known known] at agree
  simp only [sendTransaction,known] at agree
  obtain ⟨signed,returned⟩ := agree.sends.mp ⟨List.cons_ne_nil _ _,List.cons_ne_nil _ _⟩
  rcases createSignedTransaction_spec JsonRpcImpl.twoSessions.numbers (fun _ _ => .ok (lit "hash",lit "transaction")) groupInfo
    .made transfer with ⟨_,limit,_⟩ | ⟨_,_,ran⟩
  · cases limit
  · rw [ran] at returned
    cases returned

end CppSdk.SigningFrontEnds

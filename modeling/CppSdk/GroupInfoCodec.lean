import CppSdk.JsonReading
import CppSdk.Tables

/-!
The JSON of a group and of its nodes. The writers leave out what the readers take for
optional, and the readers take the flags of a node from its configuration and those of the
group from its first node: a group survives exactly if what is left out is as in a fresh
object, and the flags are those that are read (`survives_iff`).
-/
namespace CppSdk.GroupInfoCodec
open Std
open CppSdk.ByteString CppSdk.Runtime CppSdk.Tables CppSdk.JsonValues CppSdk.JsonReading
open CppSdk.EventParams (Reader Same SameMember Inverts fixed_string number_of_same)

/-! ### Groups -/

/-- `ChainNodeInfo`; of its `ProtocolInfo`, the supported versions. The node type and the negotiated
    protocol version are left out, which neither codec writes or reads. -/
structure ChainNodeInfo where
  nodeName : Bytes
  nodeCryptoType : UInt32
  nodeID : Bytes
  microService : Bool
  servicesInfo : ExtTreeMap Int32 Bytes
  iniConfig : Bytes
  minVersion : UInt32
  maxVersion : UInt32
  compatibilityVersion : UInt32
  wasm : Bool
  smCryptoType : Bool

/-- `GroupInfo`: a node is kept under its name. -/
@[ext]
structure GroupInfo where
  chainID : Bytes
  groupID : Bytes
  wasm : Bool
  smCryptoType : Bool
  genesisConfig : Bytes
  iniConfig : Bytes
  nodeInfos : ExtTreeMap Bytes ChainNodeInfo
  named : ∀ (name : Bytes) (node : ChainNodeInfo), nodeInfos[name]? = some node → node.nodeName = name

/-- `createNodeInfo`, for the members that the constructor does not initialise. -/
def createNodeInfo (nodeCryptoType compatibilityVersion : UInt32) : ChainNodeInfo :=
  ⟨[],nodeCryptoType,[],false,∅,[],0,0,compatibilityVersion,false,false⟩
/-- `createGroupInfo`. -/
def createGroupInfo : GroupInfo := ⟨[],[],false,false,[],[],∅,by simp⟩

/-- `appendServiceInfo`. -/
def appendServiceInfo (node : ChainNodeInfo) (type : Int32) (serviceName : Bytes) : ChainNodeInfo :=
  { node with servicesInfo := node.servicesInfo.insert type serviceName }
/-- `appendNodeInfo`, which keeps a node of the name. -/
def appendNodeInfo (group : GroupInfo) (node : ChainNodeInfo) : GroupInfo :=
  { group with
    nodeInfos := group.nodeInfos.insertIfNew node.nodeName node
    named := by
      intro name kept found
      rw [ExtTreeMap.getElem?_insertIfNew] at found
      split at found
      case isTrue here =>
        cases found
        exact LawfulEqOrd.eq_of_compare here.1
      case isFalse => exact group.named name kept found }
/-- The nodes, in the order of their names. -/
def nodes (group : GroupInfo) : List ChainNodeInfo := group.nodeInfos.toList.map Prod.snd

/-! ### Writing -/

/-- One service. -/
def serviceJson (service : Int32 × Bytes) : Json :=
  .object [(lit "serviceName",.string service.2),(lit "type",.int service.1.toInt64)]
/-- `JsonChainNodeInfoCodec::serialize`. -/
def serializeNode (node : ChainNodeInfo) : Json :=
  .object [(lit "iniConfig",.string node.iniConfig),(lit "name",.string node.nodeName),
    (lit "protocol",.object [(lit "compatibilityVersion",.uint node.compatibilityVersion.toUInt64),
      (lit "maxSupportedVersion",.uint node.maxVersion.toUInt64),(lit "minSupportedVersion",.uint node.minVersion.toUInt64)]),
    (lit "serviceInfo",.array (node.servicesInfo.toList.map serviceJson)),(lit "type",.uint node.nodeCryptoType.toUInt64)]
/-- `JsonGroupInfoCodec::serialize`. -/
def serialize (group : GroupInfo) : Json :=
  .object [(lit "chainID",.string group.chainID),(lit "genesisConfig",.string group.genesisConfig),
    (lit "groupID",.string group.groupID),(lit "iniConfig",.string group.iniConfig),
    (lit "nodeList",.array ((nodes group).map serializeNode)),
    (lit "smCryptoType",.boolean group.smCryptoType),(lit "wasm",.boolean group.wasm)]

/-! ### Reading -/

section
variable (R : Reader)

/-- A member, or an error where there is none. -/
def required {α : Type} (json : Json) (key : String) (read : Json → Call α) (message : String) : Call α :=
  json.field key read (throws (lit message))
/-- A member, or a value where there is none. -/
def optional {α : Type} (json : Json) (key : String) (read : Json → Call α) (otherwise : α) : Call α :=
  json.field key read (.ok otherwise)

/-- `JsonChainNodeInfoCodec::deserializeIniConfig`: the two flags. -/
def deserializeIniConfig (iniConfig : Bytes) : Call (Bool × Bool) :=
  match R.parse iniConfig with
  | none => throws (lit "The chain node ini config must be valid json string.")
  | some value => do
    let wasm ← required value "isWasm" R.asBool "The chain node ini config must set is wasm info."
    let smCryptoType ← required value "smCryptoType" R.asBool "The chain node ini config must set sm crypto type."
    .ok (wasm,smCryptoType)

/-- One service, appended. -/
def readService (node : ChainNodeInfo) : Json → Call ChainNodeInfo
  | .object members => do
    let item := Json.object members
    let invalid := throws (lit "Invalid service info: must contain the service type and name")
    let type ← item.field "type" .ok invalid
    let serviceName ← item.field "serviceName" .ok invalid
    .ok (appendServiceInfo node (← R.asInt type) (← R.asString serviceName))
  | _ => throws (lit "Invalid service info: must contain the service type and name")
/-- The protocol: the supported versions together, then the other. -/
def readProtocol (node : ChainNodeInfo) (protocol : Json) : Call ChainNodeInfo := do
  let minVersion ← optional protocol "minSupportedVersion" R.asUInt 0
  let maxVersion ← optional protocol "maxSupportedVersion" R.asUInt 0
  let compatibilityVersion ← optional protocol "compatibilityVersion" R.asUInt node.compatibilityVersion
  .ok { node with minVersion := minVersion,maxVersion := maxVersion,compatibilityVersion := compatibilityVersion }
/-- The elements of an array, or an error where the value is none. -/
def elementsOf (json : Json) (message : String) : Call (List Json) :=
  match json with
  | .array elements => .ok elements
  | _ => throws (lit message)

/-- `JsonChainNodeInfoCodec::deserialize`, with a fresh node. -/
def deserializeNode (fresh : ChainNodeInfo) (text : Bytes) : Call ChainNodeInfo :=
  match R.parse text with
  | none => throws (lit "The chain node information must be valid json string.")
  | some value => do
    let name ← required value "name" R.asString "The chain node information must set the chain node name."
    let type ← required value "type" R.asUInt "The chain node information must set the chain node type."
    let iniConfig ← required value "iniConfig" R.asString "The chain node information must set the init config info"
    let (wasm,smCryptoType) ← deserializeIniConfig R iniConfig
    let services ← required value "serviceInfo" (fun json => elementsOf json "The service info must be array.")
      "The chain node information must set the service info"
    let node ← services.foldlM (readService R)
      { fresh with nodeName := name,nodeCryptoType := type,iniConfig := iniConfig,wasm := wasm,smCryptoType := smCryptoType }
    let nodeID ← optional value "nodeID" R.asString node.nodeID
    let microService ← optional value "microService" R.asBool node.microService
    let node := { node with nodeID := nodeID,microService := microService }
    value.field "protocol" (readProtocol R node) (.ok node)

/-- One node, appended; the first gives its flags to the group. -/
def readNode (fresh : ChainNodeInfo) (state : GroupInfo × Bool) (nodeInfo : Json) : Call (GroupInfo × Bool) := do
  let node ← deserializeNode R fresh (R.write nodeInfo)
  let group := appendNodeInfo state.1 node
  .ok (if state.2 then { group with wasm := node.wasm,smCryptoType := node.smCryptoType } else group,false)
/-- `JsonGroupInfoCodec::deserialize`. -/
def deserialize (fresh : ChainNodeInfo) (text : Bytes) : Call GroupInfo :=
  match R.parse text with
  | none => throws (lit "The group information must be valid json string.")
  | some root => do
    let chainID ← required root "chainID" R.asString "The group information must contain chainID"
    let groupID ← required root "groupID" R.asString "The group information must contain groupID"
    let genesisConfig ← optional root "genesisConfig" R.asString createGroupInfo.genesisConfig
    let iniConfig ← required root "iniConfig" R.asString "The group information must contain iniConfig"
    let nodeList ← required root "nodeList" (fun json => elementsOf json "The group information must contain nodeList")
      "The group information must contain nodeList"
    let start := { createGroupInfo with
      chainID := chainID,groupID := groupID,genesisConfig := genesisConfig,iniConfig := iniConfig }
    let (group,_) ← nodeList.foldlM (readNode R fresh) (start,true)
    .ok group
end

/-! ### What is read -/

section
variable {R : Reader}

private theorem required_member {α : Type} {json value : Json} {key message : String} {read : Json → Call α}
    (found : json.member (lit key) = some value) : required json key read message = read value := field_member read _ found
private theorem optional_member {α : Type} {json value : Json} {key : String} {read : Json → Call α} {otherwise : α}
    (found : json.member (lit key) = some value) : optional json key read otherwise = read value := field_member read _ found
private theorem optional_absent {α : Type} {members : List (Bytes × Json)} {key : String} {read : Json → Call α} {otherwise : α}
    (absent : members.lookup (lit key) = none) : optional (.object members) key read otherwise = .ok otherwise :=
  field_absent read _ absent
private theorem required_ok {α : Type} {json : Json} {key message : String} {read : Json → Call α} {a : α} :
    required json key read message = .ok a ↔ ∃ value, json.member (lit key) = some value ∧ read value = .ok a := by
  have missing : throws (lit message) ≠ (.ok a : Call α) := nofun
  cases json with
  | object members =>
    cases found : members.lookup (lit key) with
    | none =>
      have absent : (Json.object members).member (lit key) = none := found
      simp [required,field_absent read _ found,absent,missing]
    | some value =>
      have present : (Json.object members).member (lit key) = some value := found
      simp [required_member present,present]
  | null => simp [required,Json.field,Json.isMember,Json.member,missing]
  | _ => simp [required,Json.field,Json.isMember,Json.member,throws]

/-- The text is a configuration with the two flags. -/
def Configures (R : Reader) (iniConfig : Bytes) (wasm smCryptoType : Bool) : Prop :=
  ∃ value isWasm isSm, R.parse iniConfig = some value ∧ value.member (lit "isWasm") = some isWasm ∧
    R.asBool isWasm = .ok wasm ∧ value.member (lit "smCryptoType") = some isSm ∧ R.asBool isSm = .ok smCryptoType

private theorem configures_iff {iniConfig : Bytes} {wasm smCryptoType : Bool} :
    deserializeIniConfig R iniConfig = .ok (wasm,smCryptoType) ↔ Configures R iniConfig wasm smCryptoType := by
  cases parsed : R.parse iniConfig with
  | none => simp [deserializeIniConfig,Configures,parsed,throws]
  | some value =>
    simp only [deserializeIniConfig,Configures,parsed,bind_ok,required_ok,Except.ok.injEq,Prod.mk.injEq,Option.some.injEq]
    constructor
    · rintro ⟨_,⟨isWasm,found,reads⟩,_,⟨isSm,foundSm,readsSm⟩,rfl,rfl⟩
      exact ⟨value,isWasm,isSm,rfl,found,reads,foundSm,readsSm⟩
    · rintro ⟨_,isWasm,isSm,rfl,found,reads,foundSm,readsSm⟩
      exact ⟨_,⟨isWasm,found,reads⟩,_,⟨isSm,foundSm,readsSm⟩,rfl,rfl⟩

section
variable (documented : R.Documented)
include documented

/-- An `unsigned` is read as it was written. -/
theorem asUInt_same {n : UInt32} {read : Json} (same : Same (.uint n.toUInt64) read) : R.asUInt read = .ok n := by
  have value : (n.toUInt64.toNat : Int) = n.toNat := by rw [UInt32.toNat_toUInt64]
  have number : read.number = some (n.toNat : Int) := by rw [number_of_same same rfl,value]
  rw [documented.uint_reads read n.toNat number (Int.natCast_nonneg _) (by exact_mod_cast n.toNat_lt),Int.toNat_natCast,
    UInt32.ofNat_toNat]
/-- An `int` is read as it was written. -/
theorem asInt_same {n : Int32} {read : Json} (same : Same (.int n.toInt64) read) : R.asInt read = .ok n := by
  have number : read.number = some n.toInt := by rw [number_of_same same rfl,Int32.toInt_toInt64]
  rw [documented.int_reads read n.toInt number n.le_toInt n.toInt_lt,Int32.ofInt_toInt]

/-- The services are appended in their order. -/
theorem foldlM_readService {services : List (Int32 × Bytes)} {read : List Json}
    (same : List.Forall₂ Same (services.map serviceJson) read) (node : ChainNodeInfo) :
    read.foldlM (readService R) node = .ok { node with
      servicesInfo := services.foldl (fun made service => made.insert service.1 service.2) node.servicesInfo } := by
  induction services generalizing read node with
  | nil =>
    cases same
    rfl
  | cons service rest ih =>
    obtain ⟨first,later,sameFirst,sameLater,rfl⟩ := List.forall₂_cons_left_iff.mp same
    rw [serviceJson] at sameFirst
    cases sameFirst with
    | number number => cases number
    | object pairs =>
      rcases pairs with _ | ⟨⟨_,name⟩,_ | ⟨⟨_,type⟩,_ | _⟩⟩
      rw [fixed_string _ _ name]
      rw [List.foldlM_cons,readService]
      rw [field_member _ _ rfl,ok_bind,field_member _ _ rfl,ok_bind,asInt_same documented type,ok_bind,
        (documented.string_reads service.2).2,ok_bind,ok_bind,ih sameLater]
      rfl

/-- What is left of a node: the identifier and the flag of a fresh one, and the flags of its
    configuration. -/
def restored (R : Reader) (node : ChainNodeInfo) : ChainNodeInfo :=
  let flags := (deserializeIniConfig R node.iniConfig).toOption.getD (false,false)
  { node with nodeID := [],microService := false,wasm := flags.1,smCryptoType := flags.2 }

private theorem deserializeNode_serializeNode {node : ChainNodeInfo} (inverts : Inverts R (serializeNode node))
    (valid : ∃ wasm smCryptoType, Configures R node.iniConfig wasm smCryptoType) (type version : UInt32) :
    deserializeNode R (createNodeInfo type version) (R.write (serializeNode node)) = .ok (restored R node) := by
  obtain ⟨read,parsed,same⟩ := inverts
  obtain ⟨wasm,smCryptoType,configured⟩ := valid
  rw [← configures_iff] at configured
  rw [serializeNode] at same
  cases same with
  | number number => cases number
  | object pairs =>
    rcases pairs with _ | ⟨⟨_,iniConfig⟩,_ | ⟨⟨_,name⟩,_ | ⟨⟨_,protocol⟩,_ | ⟨⟨_,services⟩,_ | ⟨⟨_,cryptoType⟩,_ | _⟩⟩⟩⟩⟩
    rw [fixed_string _ _ iniConfig,fixed_string _ _ name] at parsed
    cases protocol with
    | number number => cases number
    | object versions =>
      rcases versions with _ | ⟨⟨_,compatibility⟩,_ | ⟨⟨_,max⟩,_ | ⟨⟨_,min⟩,_ | _⟩⟩⟩
      cases services with
      | number number => cases number
      | array services =>
        have appended := fun fresh => foldlM_readService documented services fresh
        simp only [deserializeNode,parsed]
        rw [required_member rfl,(documented.string_reads node.nodeName).2,ok_bind]
        rw [required_member rfl,asUInt_same documented cryptoType,ok_bind]
        rw [required_member rfl,(documented.string_reads node.iniConfig).2,ok_bind,configured,ok_bind]
        rw [required_member rfl,elementsOf,ok_bind,appended,ok_bind]
        rw [optional_absent rfl,ok_bind,optional_absent rfl,ok_bind,field_member _ _ rfl]
        rw [readProtocol,optional_member rfl,asUInt_same documented min,ok_bind]
        rw [optional_member rfl,asUInt_same documented max,ok_bind,optional_member rfl,asUInt_same documented compatibility,ok_bind]
        simp only [restored,configured,createNodeInfo,foldl_insert_toList]
        rfl

/-- The nodes are appended in their order, and the first gives its flags. -/
theorem foldlM_readNode (alike : PrintsAlike R) {list : List ChainNodeInfo} {read : List Json}
    (same : List.Forall₂ Same (list.map serializeNode) read) (inverts : ∀ node ∈ list, Inverts R (serializeNode node))
    (valid : ∀ node ∈ list, ∃ wasm smCryptoType, Configures R node.iniConfig wasm smCryptoType) (type version : UInt32)
    (group : GroupInfo) : ∃ left, read.foldlM (readNode R (createNodeInfo type version)) (group,false) =
      .ok ((list.map (restored R)).foldl appendNodeInfo group,left) := by
  induction list generalizing read group with
  | nil =>
    cases same
    exact ⟨_,rfl⟩
  | cons node rest ih =>
    obtain ⟨first,later,sameFirst,sameLater,rfl⟩ := List.forall₂_cons_left_iff.mp same
    obtain ⟨invertsFirst,invertsLater⟩ := List.forall_mem_cons.mp inverts
    obtain ⟨validFirst,validLater⟩ := List.forall_mem_cons.mp valid
    rw [List.foldlM_cons,readNode,← alike _ _ sameFirst,deserializeNode_serializeNode documented invertsFirst validFirst]
    exact ih sameLater invertsLater validLater _

omit documented in
private theorem foldl_appendNodeInfo (list : List ChainNodeInfo) (group : GroupInfo) :
    ∃ named, list.foldl appendNodeInfo group = { group with
      nodeInfos := (list.map (fun node => (node.nodeName,node))).foldl (fun made e => made.insertIfNew e.1 e.2) group.nodeInfos
      named := named } := by
  induction list generalizing group with
  | nil => exact ⟨group.named,rfl⟩
  | cons node rest ih => exact ih (appendNodeInfo group node)

omit documented in
/-- The nodes that are left are those of the group, under their names. -/
theorem entries_restored (group : GroupInfo) :
    ((nodes group).map (restored R)).map (fun node => (node.nodeName,node)) =
      (group.nodeInfos.map (fun _ node => restored R node)).toList := by
  rw [ExtTreeMap.toList_map,nodes,List.map_map,List.map_map]
  refine List.map_congr_left (fun e member => ?_)
  have name := group.named e.1 e.2 (ExtTreeMap.mem_toList_iff_getElem?_eq_some.mp member)
  simp only [Function.comp_apply,restored,name]

/-- The flags that a group takes from its nodes. -/
def flagsOf (R : Reader) : List ChainNodeInfo → Bool × Bool
  | [] => (false,false)
  | first :: _ => ((restored R first).wasm,(restored R first).smCryptoType)

/-- The loop over the nodes, from the group that has none. -/
theorem foldlM_readNodes (alike : PrintsAlike R) {list : List ChainNodeInfo} {read : List Json}
    (same : List.Forall₂ Same (list.map serializeNode) read) (inverts : ∀ node ∈ list, Inverts R (serializeNode node))
    (valid : ∀ node ∈ list, ∃ wasm smCryptoType, Configures R node.iniConfig wasm smCryptoType) (type version : UInt32)
    (start : GroupInfo) (wasm : start.wasm = false) (smCryptoType : start.smCryptoType = false) :
    ∃ left named, read.foldlM (readNode R (createNodeInfo type version)) (start,true) = .ok ({ start with
      wasm := (flagsOf R list).1
      smCryptoType := (flagsOf R list).2
      nodeInfos := ((list.map (restored R)).map (fun node => (node.nodeName,node))).foldl
        (fun made e => made.insertIfNew e.1 e.2) start.nodeInfos
      named := named },left) := by
  cases list with
  | nil =>
    cases same
    obtain ⟨chainID,groupID,_,_,genesisConfig,iniConfig,nodeInfos,named⟩ := start
    cases wasm
    cases smCryptoType
    exact ⟨_,named,rfl⟩
  | cons node rest =>
    obtain ⟨first,later,sameFirst,sameLater,rfl⟩ := List.forall₂_cons_left_iff.mp same
    obtain ⟨invertsFirst,invertsLater⟩ := List.forall_mem_cons.mp inverts
    obtain ⟨validFirst,validLater⟩ := List.forall_mem_cons.mp valid
    obtain ⟨flagged,group⟩ : ∃ flagged, flagged = { appendNodeInfo start (restored R node) with
      wasm := (restored R node).wasm,smCryptoType := (restored R node).smCryptoType } := ⟨_,rfl⟩
    obtain ⟨left,ran⟩ := foldlM_readNode documented alike sameLater invertsLater validLater type version flagged
    obtain ⟨named,appended⟩ := foldl_appendNodeInfo (rest.map (restored R)) flagged
    rw [appended] at ran
    subst group
    rw [List.foldlM_cons,readNode,← alike _ _ sameFirst,deserializeNode_serializeNode documented invertsFirst validFirst]
    exact ⟨left,named,ran⟩

/-- What is left of a group: what is left of its nodes, and the flags of the first. -/
def regrouped (R : Reader) (group : GroupInfo) : GroupInfo :=
  { group with
    wasm := (flagsOf R (nodes group)).1
    smCryptoType := (flagsOf R (nodes group)).2
    nodeInfos := group.nodeInfos.map (fun _ node => restored R node)
    named := by
      intro name node found
      rw [ExtTreeMap.getElem?_map,Option.map_eq_some_iff] at found
      obtain ⟨kept,old,rfl⟩ := found
      exact group.named name kept old }

/-- `deserialize` after `serialize`. -/
theorem deserialize_written (alike : PrintsAlike R) {group : GroupInfo} (inverts : Inverts R (serialize group))
    (invertsNodes : ∀ node ∈ nodes group, Inverts R (serializeNode node))
    (valid : ∀ node ∈ nodes group, ∃ wasm smCryptoType, Configures R node.iniConfig wasm smCryptoType) (type version : UInt32) :
    deserialize R (createNodeInfo type version) (R.write (serialize group)) = .ok (regrouped R group) := by
  obtain ⟨read,parsed,same⟩ := inverts
  rw [serialize] at same
  cases same with
  | number number => cases number
  | object pairs =>
    rcases pairs with _ | ⟨⟨_,chainID⟩,_ | ⟨⟨_,genesisConfig⟩,_ | ⟨⟨_,groupID⟩,_ | ⟨⟨_,iniConfig⟩,_ | ⟨⟨_,nodeList⟩,_ |
      ⟨⟨_,smCryptoType⟩,_ | ⟨⟨_,wasm⟩,_ | _⟩⟩⟩⟩⟩⟩⟩
    rw [fixed_string _ _ chainID,fixed_string _ _ genesisConfig,fixed_string _ _ groupID,fixed_string _ _ iniConfig] at parsed
    cases nodeList with
    | number number => cases number
    | array elements =>
      simp only [deserialize,parsed]
      rw [required_member rfl,(documented.string_reads group.chainID).2,ok_bind]
      rw [required_member rfl,(documented.string_reads group.groupID).2,ok_bind]
      rw [optional_member rfl,(documented.string_reads group.genesisConfig).2,ok_bind]
      rw [required_member rfl,(documented.string_reads group.iniConfig).2,ok_bind]
      rw [required_member rfl,elementsOf,ok_bind]
      obtain ⟨left,named,ran⟩ := foldlM_readNodes documented alike elements invertsNodes valid type version
        { createGroupInfo with
          chainID := group.chainID,groupID := group.groupID,genesisConfig := group.genesisConfig,iniConfig := group.iniConfig } rfl rfl
      rw [ran]
      simp only [createGroupInfo,entries_restored,foldl_insertIfNew_toList]
      rfl

/-- A group survives: the nodes have no identifier, are no micro-services and have the flags
    of their configurations, and the group has those of the first node, or none. -/
structure Survives (R : Reader) (group : GroupInfo) : Prop where
  nodeIDs : ∀ node ∈ nodes group, node.nodeID = []
  microServices : ∀ node ∈ nodes group, node.microService = false
  nodeFlags : ∀ node ∈ nodes group, Configures R node.iniConfig node.wasm node.smCryptoType
  flags : (group.wasm,group.smCryptoType) = (nodes group).head?.elim (false,false) (fun first => (first.wasm,first.smCryptoType))

omit documented in
private theorem restored_eq_iff {node : ChainNodeInfo} (valid : ∃ wasm smCryptoType, Configures R node.iniConfig wasm smCryptoType) :
    restored R node = node ↔ node.nodeID = [] ∧ node.microService = false ∧
      Configures R node.iniConfig node.wasm node.smCryptoType := by
  obtain ⟨wasm,smCryptoType,configured⟩ := valid
  rw [← configures_iff] at configured ⊢
  obtain ⟨nodeName,type,nodeID,microService,services,iniConfig,min,max,compatibility,wasm',smCryptoType'⟩ := node
  simp only at configured
  simp only [restored,configured,ChainNodeInfo.mk.injEq,Except.toOption,Option.getD_some,Except.ok.injEq,Prod.mk.injEq,
    true_and]
  constructor
  · rintro ⟨rfl,rfl,rfl,rfl⟩
    exact ⟨rfl,rfl,rfl,rfl⟩
  · rintro ⟨rfl,rfl,rfl,rfl⟩
    exact ⟨rfl,rfl,rfl,rfl⟩

omit documented in
private theorem mem_nodes {group : GroupInfo} {node : ChainNodeInfo} : node ∈ nodes group ↔ ∃ name : Bytes, group.nodeInfos[name]? = some node := by
  simp only [nodes,List.mem_map,Prod.exists,exists_eq_right,ExtTreeMap.mem_toList_iff_getElem?_eq_some]

omit documented in
private theorem restored_nodes_iff {group : GroupInfo} :
    group.nodeInfos.map (fun _ node => restored R node) = group.nodeInfos ↔ ∀ node ∈ nodes group, restored R node = node := by
  constructor
  · intro same node member
    obtain ⟨name,found⟩ := mem_nodes.mp member
    have mapped : (group.nodeInfos.map (fun _ node => restored R node))[name]? = some (restored R node) := by
      rw [ExtTreeMap.getElem?_map,found,Option.map_some]
    rw [same,found] at mapped
    exact (Option.some.inj mapped).symm
  · intro all
    refine ExtTreeMap.ext_getElem? (fun name => ?_)
    rw [ExtTreeMap.getElem?_map]
    cases found : group.nodeInfos[name]? with
    | none => rfl
    | some node => rw [Option.map_some,all node (mem_nodes.mpr ⟨name,found⟩)]

omit documented in
theorem regrouped_eq_iff {group : GroupInfo}
    (valid : ∀ node ∈ nodes group, ∃ wasm smCryptoType, Configures R node.iniConfig wasm smCryptoType) :
    regrouped R group = group ↔ Survives R group := by
  have parts : regrouped R group = group ↔
      (group.wasm,group.smCryptoType) = flagsOf R (nodes group) ∧ ∀ node ∈ nodes group, restored R node = node := by
    rw [← restored_nodes_iff,GroupInfo.ext_iff,Prod.ext_iff]
    simp only [regrouped,true_and]
    tauto
  rw [parts]
  constructor
  · rintro ⟨flags,all⟩
    have each := fun node member => (restored_eq_iff (valid node member)).mp (all node member)
    refine ⟨fun node member => (each node member).1,fun node member => (each node member).2.1,
      fun node member => (each node member).2.2,?_⟩
    rw [flags]
    cases listed : nodes group with
    | nil => rfl
    | cons first rest => rw [flagsOf,all first (listed ▸ List.mem_cons_self)]; rfl
  · rintro ⟨nodeIDs,microServices,nodeFlags,flags⟩
    have all : ∀ node ∈ nodes group, restored R node = node := fun node member =>
      (restored_eq_iff (valid node member)).mpr ⟨nodeIDs node member,microServices node member,nodeFlags node member⟩
    refine ⟨?_,all⟩
    rw [flags]
    cases listed : nodes group with
    | nil => rfl
    | cons first rest => rw [flagsOf,all first (listed ▸ List.mem_cons_self)]; rfl

/-- A group is read as it was written exactly if it survives. -/
theorem survives_iff (alike : PrintsAlike R) {group : GroupInfo} (inverts : Inverts R (serialize group))
    (invertsNodes : ∀ node ∈ nodes group, Inverts R (serializeNode node))
    (valid : ∀ node ∈ nodes group, ∃ wasm smCryptoType, Configures R node.iniConfig wasm smCryptoType) (type version : UInt32) :
    deserialize R (createNodeInfo type version) (R.write (serialize group)) = .ok group ↔ Survives R group := by
  rw [deserialize_written documented alike inverts invertsNodes valid,Except.ok.injEq,regrouped_eq_iff valid]

end
end

/-- The configuration of a node of a Wasm chain. -/
def wasmConfig : Json := .object [(lit "isWasm",.boolean true),(lit "smCryptoType",.boolean false)]
/-- A node of it, with one service. -/
def wasmNode : ChainNodeInfo :=
  ⟨lit "node0",0,[],false,(∅ : ExtTreeMap Int32 Bytes).insert 1 (lit "rpc"),printValue quoted wasmConfig,1,2,3,true,false⟩
/-- A group of the node. -/
def wasmGroup : GroupInfo :=
  appendNodeInfo { createGroupInfo with chainID := lit "chain0",groupID := lit "group0",wasm := true } wasmNode

private theorem nodes_wasmGroup : nodes wasmGroup = [wasmNode] := rfl
theorem forall_wasmGroup {P : ChainNodeInfo → Prop} (holds : P wasmNode) : ∀ node ∈ nodes wasmGroup, P node := by
  intro node member
  rw [nodes_wasmGroup,List.mem_singleton] at member
  exact member ▸ holds
theorem wasmGroup_survives {R : Reader} (configures : Configures R wasmNode.iniConfig true false) : Survives R wasmGroup where
  nodeIDs := forall_wasmGroup rfl
  microServices := forall_wasmGroup rfl
  nodeFlags := forall_wasmGroup configures
  flags := by
    rw [nodes_wasmGroup]
    rfl

/-- Jsoncpp on the texts of the group. -/
def wasmReader : Reader := readerOf [serialize wasmGroup,serializeNode wasmNode,wasmConfig]

theorem survives_wasmGroup :
    deserialize wasmReader (createNodeInfo 7 7) (wasmReader.write (serialize wasmGroup)) = .ok wasmGroup := by
  have configures : Configures wasmReader wasmNode.iniConfig true false :=
    ⟨_,_,_,parse_later (by decide) (parse_later (by decide) (parse_head _ _)),rfl,rfl,rfl,rfl⟩
  exact (survives_iff (readerOf_documented _) (readerOf_printsAlike _) (inverts_of_parse (parse_head _ _))
    (forall_wasmGroup (inverts_of_parse (parse_later (by decide) (parse_head _ _)))) (forall_wasmGroup ⟨_,_,configures⟩) 7 7).mpr
    (wasmGroup_survives configures)

/-- A group without nodes loses its flags. -/
theorem flags_lost :
    ¬∀ (R : Reader) (group : GroupInfo), R.Documented → PrintsAlike R → Inverts R (serialize group) →
      (∀ node ∈ nodes group, Inverts R (serializeNode node)) →
      (∀ node ∈ nodes group, ∃ wasm smCryptoType, Configures R node.iniConfig wasm smCryptoType) →
      ∀ type version, deserialize R (createNodeInfo type version) (R.write (serialize group)) = .ok group := by
  intro all
  have empty : ∀ {P : ChainNodeInfo → Prop}, ∀ node ∈ nodes { createGroupInfo with wasm := true }, P node := by
    intro P node member
    cases (show node ∈ [] from member)
  have documented := readerOf_documented [serialize { createGroupInfo with wasm := true }]
  have alike := readerOf_printsAlike [serialize { createGroupInfo with wasm := true }]
  have read := all _ _ documented alike (inverts_of_parse (parse_head _ _)) empty empty 0 0
  rw [deserialize_written documented alike (inverts_of_parse (parse_head _ _)) empty empty,Except.ok.injEq] at read
  cases congrArg GroupInfo.wasm read

end CppSdk.GroupInfoCodec

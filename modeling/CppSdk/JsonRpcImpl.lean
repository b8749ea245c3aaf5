import CppSdk.BlockNumbers
import CppSdk.JsonValues

/-!
The methods of `JsonRpcImpl` that take a group and a node, down to the endpoint that their
request is handed to. Every method but `sendTransaction` passes its group and its node to
the sender, and its request goes to an endpoint of theirs (`handed_iff`).
-/
namespace CppSdk.JsonRpcImpl
open CppSdk.ByteString CppSdk.Texts CppSdk.JsonValues
open CppSdk.Routing (Service getEndPointsByGroup getEndPointsByGroupAndNode)
open CppSdk.BlockNumbers (randomGetHighestBlockNumberNode)

/-! ### The sender -/

/-- What a call does: hand a request to an endpoint, or invoke the response function with
    an error or without one. -/
inductive Event where
  | sent (endPoint request : Bytes)
  | responded (error : Option (Int32 × Bytes)) (payload : Option Bytes)

/-- What lies outside: the code `WsError::EndPointNotExist`, what `asyncSendMessageByEndPoint`
    answers, the text that `Json::FastWriter` writes and what the shuffle makes of the nodes
    of the highest number. -/
structure Environment where
  endPointNotExist : Int32
  answer : Bytes → Bytes → Option (Int32 × Bytes) × Option Bytes
  write : Json → Bytes
  shuffleNodes : Finset Bytes → List Bytes

/-- What a call finds: the option, the routing tables, the block numbers, the endpoints of
    the sessions and the id that `nextId` gives. -/
structure Client where
  sendRequestToHighestBlockNode : Bool
  tables : Service
  numbers : BlockNumbers.State
  sessions : List Bytes
  nextId : Int64

/-- The arguments of the sender. -/
structure Request where
  group : Bytes
  node : Bytes
  data : Bytes

/-- `asyncSendMessageByEndPoint` with its callback. -/
def asyncSendMessageByEndPoint (E : Environment) (endPoint request : Bytes) : List Event :=
  [.sent endPoint request,.responded (E.answer endPoint request).1 (E.answer endPoint request).2]

/-- The set of endpoints in `asyncSendMessageByGroupAndNode`, and the text of the error when
    it is empty. -/
def candidates (c : Client) (group node : Bytes) : Finset Bytes × Bytes :=
  if group = [] then
    (c.sessions.toFinset,lit "there has no connection available, maybe all connections disconnected")
  else if node = [] then
    ((getEndPointsByGroup c.tables group ∅).2,
      lit "there has no connection available for the group, maybe all connections disconnected or " ++
        lit "the group does not exist, group: " ++ group)
  else
    ((getEndPointsByGroupAndNode c.tables group node ∅).2,
      lit "there has no connection available for the node of the group, maybe all connections disconnected or " ++
        lit "the node does not exist, group: " ++ group ++ lit " ,node: " ++ node)

/-- `asyncSendMessageByGroupAndNode`, with what the shuffle makes of the endpoints. -/
def asyncSendMessageByGroupAndNode (E : Environment) (c : Client) (shuffle : Finset Bytes → List Bytes) (r : Request) :
    List Event :=
  let (endPoints,message) := candidates c r.group r.node
  match (shuffle endPoints).head? with
  | none => [.responded (some (E.endPointNotExist,message)) none]
  | some endPoint => asyncSendMessageByEndPoint E endPoint r.data

/-! ### The methods -/

/-- The node that a method sends to: its own or, where it has none and the option is set,
    one of the highest block number. -/
def resolve (E : Environment) (c : Client) (group node : Bytes) : Bytes :=
  if c.sendRequestToHighestBlockNode = true ∧ node = [] then
    (randomGetHighestBlockNumberNode E.shuffleNodes c.tables c.numbers group).getD node
  else node

/-- `JsonRpcRequest::toJson`, with the members in the order of their names. -/
def toJson (E : Environment) (c : Client) (method : Bytes) (params : List Json) : Bytes :=
  E.write (.object [(lit "id",.int c.nextId),(lit "jsonrpc",.string (lit "2.0")),(lit "method",.string method),
    (lit "params",.array params)])

/-- The request of a method for a group and a node, with its other parameters. -/
def nodeRequest (E : Environment) (c : Client) (method : Bytes) (group node : Bytes) (params : List Json) : Request :=
  let name := resolve E c group node
  ⟨group,name,toJson E c method ([.string group,.string name] ++ params)⟩

section
variable (E : Environment) (c : Client) (group node : Bytes)

def genericMethod (data : Bytes) : Request := ⟨group,resolve E c group node,data⟩
def call (receiver data : Bytes) : Request := nodeRequest E c (lit "call") group node [.string receiver,.string data]
/-- The text is a format of its own, and the sender gets no group and no node. -/
def sendTransaction (data : Bytes) (requireProof : Bool) : Request :=
  let name := resolve E c group node
  ⟨[],[],lit "\x7b\"id\":" ++ intText c.nextId.toInt ++
    lit ",\"jsonrpc\":\"2.0\",\"method\":\"sendTransaction\",\"params\":[\"" ++ group ++ lit "\",\"" ++ name ++
    lit "\",\"" ++ data ++ lit "\"," ++ (if requireProof then lit "1" else lit "0") ++ lit "]\x7d"⟩
def getTransaction (txHash : Bytes) (requireProof : Bool) : Request :=
  nodeRequest E c (lit "getTransaction") group node [.string txHash,.boolean requireProof]
def getTransactionReceipt (txHash : Bytes) (requireProof : Bool) : Request :=
  nodeRequest E c (lit "getTransactionReceipt") group node [.string txHash,.boolean requireProof]
def getBlockByHash (blockHash : Bytes) (onlyHeader onlyTxHash : Bool) : Request :=
  nodeRequest E c (lit "getBlockByHash") group node [.string blockHash,.boolean onlyHeader,.boolean onlyTxHash]
def getBlockByNumber (blockNumber : Int64) (onlyHeader onlyTxHash : Bool) : Request :=
  nodeRequest E c (lit "getBlockByNumber") group node [.int blockNumber,.boolean onlyHeader,.boolean onlyTxHash]
def getBlockHashByNumber (blockNumber : Int64) : Request :=
  nodeRequest E c (lit "getBlockHashByNumber") group node [.int blockNumber]
def getBlockNumber : Request := nodeRequest E c (lit "getBlockNumber") group node []
def getCode (contractAddress : Bytes) : Request := nodeRequest E c (lit "getCode") group node [.string contractAddress]
def getSealerList : Request := nodeRequest E c (lit "getSealerList") group node []
def getObserverList : Request := nodeRequest E c (lit "getObserverList") group node []
def getPbftView : Request := nodeRequest E c (lit "getPbftView") group node []
def getPendingTxSize : Request := nodeRequest E c (lit "getPendingTxSize") group node []
def getSyncStatus : Request := nodeRequest E c (lit "getSyncStatus") group node []
def getConsensusStatus : Request := nodeRequest E c (lit "getConsensusStatus") group node []
def getSystemConfigByKey (keyValue : Bytes) : Request :=
  nodeRequest E c (lit "getSystemConfigByKey") group node [.string keyValue]
def getTotalTransactionCount : Request := nodeRequest E c (lit "getTotalTransactionCount") group node []
/-- The node is taken as it is. -/
def getGroupNodeInfo : Request :=
  ⟨group,node,toJson E c (lit "getGroupNodeInfo") [.string group,.string node]⟩

end

/-- The methods that take a group and a node, with their other arguments. -/
inductive Method where
  | genericMethod (data : Bytes)
  | call (receiver data : Bytes)
  | sendTransaction (data : Bytes) (requireProof : Bool)
  | getTransaction (txHash : Bytes) (requireProof : Bool)
  | getTransactionReceipt (txHash : Bytes) (requireProof : Bool)
  | getBlockByHash (blockHash : Bytes) (onlyHeader onlyTxHash : Bool)
  | getBlockByNumber (blockNumber : Int64) (onlyHeader onlyTxHash : Bool)
  | getBlockHashByNumber (blockNumber : Int64)
  | getBlockNumber
  | getCode (contractAddress : Bytes)
  | getSealerList
  | getObserverList
  | getPbftView
  | getPendingTxSize
  | getSyncStatus
  | getConsensusStatus
  | getSystemConfigByKey (keyValue : Bytes)
  | getTotalTransactionCount
  | getGroupNodeInfo

/-- The arguments that a method gives to the sender. -/
def Method.request (E : Environment) (c : Client) (group node : Bytes) : Method → Request
  | .genericMethod data => JsonRpcImpl.genericMethod E c group node data
  | .call receiver data => JsonRpcImpl.call E c group node receiver data
  | .sendTransaction data requireProof => JsonRpcImpl.sendTransaction E c group node data requireProof
  | .getTransaction txHash requireProof => JsonRpcImpl.getTransaction E c group node txHash requireProof
  | .getTransactionReceipt txHash requireProof => JsonRpcImpl.getTransactionReceipt E c group node txHash requireProof
  | .getBlockByHash blockHash onlyHeader onlyTxHash =>
    JsonRpcImpl.getBlockByHash E c group node blockHash onlyHeader onlyTxHash
  | .getBlockByNumber blockNumber onlyHeader onlyTxHash =>
    JsonRpcImpl.getBlockByNumber E c group node blockNumber onlyHeader onlyTxHash
  | .getBlockHashByNumber blockNumber => JsonRpcImpl.getBlockHashByNumber E c group node blockNumber
  | .getBlockNumber => JsonRpcImpl.getBlockNumber E c group node
  | .getCode contractAddress => JsonRpcImpl.getCode E c group node contractAddress
  | .getSealerList => JsonRpcImpl.getSealerList E c group node
  | .getObserverList => JsonRpcImpl.getObserverList E c group node
  | .getPbftView => JsonRpcImpl.getPbftView E c group node
  | .getPendingTxSize => JsonRpcImpl.getPendingTxSize E c group node
  | .getSyncStatus => JsonRpcImpl.getSyncStatus E c group node
  | .getConsensusStatus => JsonRpcImpl.getConsensusStatus E c group node
  | .getSystemConfigByKey keyValue => JsonRpcImpl.getSystemConfigByKey E c group node keyValue
  | .getTotalTransactionCount => JsonRpcImpl.getTotalTransactionCount E c group node
  | .getGroupNodeInfo => JsonRpcImpl.getGroupNodeInfo E c group node

/-- The node that a method resolves. -/
def Method.name (E : Environment) (c : Client) (group node : Bytes) : Method → Bytes
  | .getGroupNodeInfo => node
  | _ => resolve E c group node

/-- Whether a method gives its group and its node to the sender. -/
def Method.Addresses : Method → Prop
  | .sendTransaction _ _ => False
  | _ => True

/-! ### Where requests go -/

variable {E : Environment} {c : Client} {group node : Bytes}

/-- The endpoints of a node of the group or, without a node, of the group. -/
def addressed (c : Client) (group name : Bytes) : Finset Bytes :=
  if name = [] then (getEndPointsByGroup c.tables group ∅).2
  else (getEndPointsByGroupAndNode c.tables group name ∅).2

/-- The data go to one of the endpoints or, where there is none, nothing is sent and the
    response function is invoked once, with an error. -/
def Handed (E : Environment) (endPoints : Finset Bytes) (data : Bytes) (events : List Event) : Prop :=
  (endPoints ≠ ∅ → ∃ endPoint ∈ endPoints, events = asyncSendMessageByEndPoint E endPoint data) ∧
    (endPoints = ∅ → ∃ code message, code ≠ 0 ∧ events = [.responded (some (code,message)) none])

/-- The vector holds the elements of the set. -/
def Shuffles (shuffle : Finset Bytes → List Bytes) : Prop := ∀ endPoints, (shuffle endPoints).toFinset = endPoints

private theorem request_of_addresses {m : Method} (addresses : m.Addresses) :
    (m.request E c group node).group = group ∧ (m.request E c group node).node = m.name E c group node := by
  cases m with
  | sendTransaction _ _ => cases addresses
  | _ => exact ⟨rfl,rfl⟩

private theorem candidates_of_group (present : group ≠ []) (name : Bytes) :
    (candidates c group name).1 = addressed c group name := by
  rw [candidates,if_neg present,addressed]
  split <;> rfl

/-- The sender hands the data to one of its endpoints, or reports that there is none. -/
theorem handed_candidates (nonzero : E.endPointNotExist ≠ 0) {shuffle : Finset Bytes → List Bytes}
    (shuffles : Shuffles shuffle) (r : Request) :
    Handed E (candidates c r.group r.node).1 r.data (asyncSendMessageByGroupAndNode E c shuffle r) := by
  have elements := shuffles (candidates c r.group r.node).1
  simp only [asyncSendMessageByGroupAndNode]
  cases first : (shuffle (candidates c r.group r.node).1).head? with
  | none =>
    rw [List.head?_eq_none_iff.mp first,List.toFinset_nil] at elements
    exact ⟨fun some => absurd elements.symm some,fun _ => ⟨_,_,nonzero,rfl⟩⟩
  | some endPoint =>
    have member : endPoint ∈ (candidates c r.group r.node).1 := by
      rw [← elements,List.mem_toFinset]
      exact List.mem_of_head? first
    refine ⟨fun _ => ⟨endPoint,member,rfl⟩,fun none => ?_⟩
    rw [none] at member
    cases member

/-- A shuffle that puts an element first. -/
noncomputable def foremost (first : Bytes) (endPoints : Finset Bytes) : List Bytes :=
  if first ∈ endPoints then first :: endPoints.toList else endPoints.toList

private theorem shuffles_foremost (first : Bytes) : Shuffles (foremost first) := by
  intro endPoints
  unfold foremost
  split
  · rename_i member
    rw [List.toFinset_cons,Finset.toList_toFinset,Finset.insert_eq_of_mem member]
  · exact Finset.toList_toFinset endPoints

private theorem sent_foremost {endPoint : Bytes} {r : Request} (member : endPoint ∈ (candidates c r.group r.node).1) :
    asyncSendMessageByGroupAndNode E c (foremost endPoint) r = asyncSendMessageByEndPoint E endPoint r.data := by
  simp only [asyncSendMessageByGroupAndNode,foremost,if_pos member,List.head?_cons]

/-- However its endpoints are shuffled, the sender hands the data to an endpoint of a set
    exactly when all of its own are in the set, and it has some where the set does. -/
theorem handed_iff_of_candidates (nonzero : E.endPointNotExist ≠ 0) (r : Request) (endPoints : Finset Bytes) :
    (∀ shuffle, Shuffles shuffle → Handed E endPoints r.data (asyncSendMessageByGroupAndNode E c shuffle r)) ↔
      (candidates c r.group r.node).1 ⊆ endPoints ∧ (endPoints ≠ ∅ → (candidates c r.group r.node).1 ≠ ∅) := by
  constructor
  · intro handed
    constructor
    · intro endPoint member
      obtain ⟨some,none⟩ := handed (foremost endPoint) (shuffles_foremost endPoint)
      rw [sent_foremost member] at some none
      by_cases empty : endPoints = ∅
      · obtain ⟨code,message,_,same⟩ := none empty
        cases same
      · obtain ⟨other,there,same⟩ := some empty
        cases same
        exact there
    · intro some none
      have responded : asyncSendMessageByGroupAndNode E c Finset.toList r =
          [.responded (.some (E.endPointNotExist,(candidates c r.group r.node).2)) .none] := by
        simp only [asyncSendMessageByGroupAndNode,none,Finset.toList_empty,List.head?_nil]
      obtain ⟨endPoint,_,same⟩ := (handed Finset.toList (fun set => Finset.toList_toFinset set)).1 some
      rw [responded] at same
      cases same
  · rintro ⟨within,inhabited⟩ shuffle shuffles
    obtain ⟨sends,reports⟩ := handed_candidates nonzero shuffles r (c := c)
    constructor
    · intro some
      obtain ⟨endPoint,member,same⟩ := sends (inhabited some)
      exact ⟨endPoint,within member,same⟩
    · intro none
      exact reports (Finset.subset_empty.mp (none ▸ within))

/-- A method sends to the node that it resolves however the endpoints are shuffled, exactly
    when it gives its group and node to the sender, or the endpoints of the sessions are
    among those of the node, and there are sessions where the node has endpoints. -/
theorem handed_iff (nonzero : E.endPointNotExist ≠ 0) (present : group ≠ []) (m : Method) :
    (∀ shuffle, Shuffles shuffle → Handed E (addressed c group (m.name E c group node)) (m.request E c group node).data
      (asyncSendMessageByGroupAndNode E c shuffle (m.request E c group node))) ↔
    m.Addresses ∨ (c.sessions.toFinset ⊆ addressed c group (m.name E c group node) ∧
      (addressed c group (m.name E c group node) ≠ ∅ → c.sessions ≠ [])) := by
  rw [handed_iff_of_candidates nonzero]
  by_cases addresses : m.Addresses
  · obtain ⟨sameGroup,sameNode⟩ : (m.request E c group node).group = group ∧
        (m.request E c group node).node = m.name E c group node := request_of_addresses addresses
    rw [sameGroup,sameNode,candidates_of_group present]
    simp [addresses]
  · cases m with
    | sendTransaction data requireProof =>
      have everyone : candidates c [] [] =
          (c.sessions.toFinset,lit "there has no connection available, maybe all connections disconnected") := if_pos rfl
      simp only [Method.request,sendTransaction,everyone,addresses,false_or,ne_eq,List.toFinset_eq_empty_iff]
    | _ => exact absurd trivial addresses

/-- An environment that answers every request with nothing, and does not shuffle. -/
noncomputable def quiet : Environment := ⟨-4010,fun _ _ => (none,none),writeValue,Finset.toList⟩
/-- A client with two sessions of which one reports a node. -/
def twoSessions : Client :=
  ⟨false,Routing.updateGroupInfoByEp ⟨∅,∅⟩ (lit "a:1") (Routing.infoWith (lit "g") [lit "n"]),⟨∅,∅,∅,[]⟩,
    [lit "a:1",lit "b:2"],1⟩

private theorem addressed_twoSessions : addressed twoSessions (lit "g") (lit "n") = {lit "a:1"} := by decide +kernel

theorem handed_getBlockNumber :
    Handed quiet (addressed twoSessions (lit "g") (lit "n")) (Method.getBlockNumber.request quiet twoSessions (lit "g") (lit "n")).data
      (asyncSendMessageByGroupAndNode quiet twoSessions Finset.toList
        (Method.getBlockNumber.request quiet twoSessions (lit "g") (lit "n"))) :=
  (handed_iff (by decide) (by decide) .getBlockNumber).mpr (.inl trivial) Finset.toList
    (fun endPoints => Finset.toList_toFinset endPoints)

/-- A transaction for a node goes to the session that knows nothing of its group. -/
theorem sendTransaction_elsewhere : ∃ shuffle, Shuffles shuffle ∧
    ¬ Handed quiet (addressed twoSessions (lit "g") (lit "n"))
      ((Method.sendTransaction (lit "00") false).request quiet twoSessions (lit "g") (lit "n")).data
      (asyncSendMessageByGroupAndNode quiet twoSessions shuffle
        ((Method.sendTransaction (lit "00") false).request quiet twoSessions (lit "g") (lit "n"))) := by
  refine ⟨foremost (lit "b:2"),shuffles_foremost _,fun handed => ?_⟩
  rw [addressed_twoSessions,sent_foremost (by decide)] at handed
  obtain ⟨endPoint,member,same⟩ := handed.1 (Finset.singleton_ne_empty _)
  rw [Finset.mem_singleton] at member
  subst member
  have first : lit "b:2" = lit "a:1" := (Event.sent.inj (List.cons.inj same).1).1
  exact absurd first (by decide)

end CppSdk.JsonRpcImpl

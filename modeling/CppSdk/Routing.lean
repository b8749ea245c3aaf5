import CppSdk.ByteString
import CppSdk.Tables

/-!
The routing tables of `Service`: group to node to endpoints, and endpoint to group to
the group information that the endpoint reported. Each function here is one section
under `x_endPointLock`; `updateGroupInfoByEp` is three of them.
-/
namespace CppSdk.Routing
open CppSdk.ByteString CppSdk.Tables

/-! ### Group information -/

/-- `ChainNodeInfo`, of which the service reads the name. -/
structure ChainNodeInfo where
  nodeName : Bytes
  deriving DecidableEq

/-- `GroupInfo`. -/
structure GroupInfo where
  chainID : Bytes
  groupID : Bytes
  smCryptoType : Bool
  wasm : Bool
  genesisConfig : Bytes
  iniConfig : Bytes
  nodeInfos : Table Bytes ChainNodeInfo
  deriving DecidableEq

/-- `nodeInfo`. -/
def GroupInfo.nodeInfo (info : GroupInfo) (nodeName : Bytes) : Option ChainNodeInfo := info.nodeInfos.lookup nodeName
/-- `appendNodeInfo`, which keeps a node of that name. -/
def GroupInfo.appendNodeInfo (info : GroupInfo) (node : ChainNodeInfo) : GroupInfo :=
  if (info.nodeInfo node.nodeName).isSome then info
  else { info with nodeInfos := info.nodeInfos.insert node.nodeName node }
/-- The keys of the node map are the names of the nodes. -/
def GroupInfo.Named (info : GroupInfo) : Prop :=
  ∀ name node, info.nodeInfos.lookup name = some node → node.nodeName = name

/-! ### Sections -/

/-- The two maps under `x_endPointLock`. -/
structure Service where
  group2Node2Endpoints : Table Bytes (Table Bytes (Finset Bytes))
  endPoint2GroupId2GroupInfo : Table Bytes (Table Bytes GroupInfo)
  deriving DecidableEq

/-- What is left of the endpoints of a node without one; an empty set is erased. -/
def remaining (endPoint : Bytes) (endPoints : Finset Bytes) : Option (Finset Bytes) :=
  if endPoints.erase endPoint = ∅ then none else some (endPoints.erase endPoint)
/-- The loop over the nodes of a group that erases the endpoint from each. -/
def eraseEndPoint (endPoint : Bytes) (nodes : Table Bytes (Finset Bytes)) : Table Bytes (Finset Bytes) :=
  prune (fun _ endPoints => remaining endPoint endPoints) nodes

/-- `clearGroupInfoByEp(endPoint)`. -/
def clearGroupInfoByEp (s : Service) (endPoint : Bytes) : Service where
  group2Node2Endpoints := prune (fun _ nodes =>
    if eraseEndPoint endPoint nodes = ∅ then none else some (eraseEndPoint endPoint nodes)) s.group2Node2Endpoints
  endPoint2GroupId2GroupInfo := s.endPoint2GroupId2GroupInfo.erase endPoint

/-- `clearGroupInfoByEp(endPoint, groupID)`, which leaves a group without nodes. -/
def clearGroupInfoByEpOfGroup (s : Service) (endPoint groupID : Bytes) : Service :=
  match s.group2Node2Endpoints.lookup groupID with
  | none => s
  | some nodes =>
    { s with group2Node2Endpoints := s.group2Node2Endpoints.insert groupID (eraseEndPoint endPoint nodes) }

/-- `updateGroupInfo`. -/
def updateGroupInfo (s : Service) (endPoint : Bytes) (info : GroupInfo) : Service :=
  let groups := (s.endPoint2GroupId2GroupInfo.lookup endPoint).getD ∅
  { s with endPoint2GroupId2GroupInfo := s.endPoint2GroupId2GroupInfo.insert endPoint (groups.insert info.groupID info) }

/-- `groupMapper[node].insert(endPoint)` for each of the nodes. -/
def insertEndPoint (endPoint : Bytes) : List Bytes → Table Bytes (Finset Bytes) → Table Bytes (Finset Bytes)
  | [], groupMapper => groupMapper
  | node :: nodes, groupMapper =>
    insertEndPoint endPoint nodes (groupMapper.insert node (insert endPoint ((groupMapper.lookup node).getD ∅)))
/-- The last section of `updateGroupInfoByEp`. -/
def insertNodes (s : Service) (endPoint : Bytes) (info : GroupInfo) : Service :=
  let groupMapper := (s.group2Node2Endpoints.lookup info.groupID).getD ∅
  let nodes := insertEndPoint endPoint info.nodeInfos.keys groupMapper
  { s with group2Node2Endpoints := s.group2Node2Endpoints.insert info.groupID nodes }

/-- `updateGroupInfoByEp`: store, clear, insert. -/
def updateGroupInfoByEp (s : Service) (endPoint : Bytes) (info : GroupInfo) : Service :=
  insertNodes (clearGroupInfoByEpOfGroup (updateGroupInfo s endPoint info) endPoint info.groupID) endPoint info

/-! ### Queries -/

/-- `hasEndPointOfNodeAvailable`. -/
def hasEndPointOfNodeAvailable (s : Service) (group node : Bytes) : Bool :=
  match s.group2Node2Endpoints.lookup group with
  | none => false
  | some nodes => (nodes.lookup node).isSome

/-- `getEndPointsByGroup`: the result and the set that it inserts into. -/
def getEndPointsByGroup (s : Service) (group : Bytes) (endPoints : Finset Bytes) : Bool × Finset Bytes :=
  match s.group2Node2Endpoints.lookup group with
  | none => (false,endPoints)
  | some nodes => (true,(values nodes).foldl (· ∪ ·) endPoints)

/-- `getEndPointsByGroupAndNode`: the result and the set that it assigns. -/
def getEndPointsByGroupAndNode (s : Service) (group node : Bytes) (endPoints : Finset Bytes) : Bool × Finset Bytes :=
  match s.group2Node2Endpoints.lookup group with
  | none => (false,endPoints)
  | some nodes =>
    match nodes.lookup node with
    | none => (false,endPoints)
    | some found => (true,found)

/-- The information that the endpoints reported for a group. -/
def groupInfosOf (s : Service) (groupID : Bytes) : List GroupInfo :=
  (values s.endPoint2GroupId2GroupInfo).filterMap (fun groups => groups.lookup groupID)
/-- The nodes of the information merged into `merged`, each name once. -/
def mergeNodes (merged info : GroupInfo) : GroupInfo :=
  (values info.nodeInfos).foldl (fun merged node =>
    if (merged.nodeInfo node.nodeName).isSome then merged else merged.appendNodeInfo node) merged
/-- `getGroupInfo`: the first information, with the nodes of all of them. -/
def getGroupInfo (s : Service) (groupID : Bytes) : Option GroupInfo :=
  match groupInfosOf s groupID with
  | [] => none
  | first :: rest => some ((first :: rest).foldl mergeNodes { first with nodeInfos := ∅ })

/-! ### Look-ups after a section -/

/-- The endpoints stored for a node of a group. -/
def endPointsOf (s : Service) (group node : Bytes) : Option (Finset Bytes) :=
  (s.group2Node2Endpoints.lookup group).bind (fun nodes => nodes.lookup node)
/-- The information stored for an endpoint and a group. -/
def infoOf (s : Service) (endPoint groupID : Bytes) : Option GroupInfo :=
  (s.endPoint2GroupId2GroupInfo.lookup endPoint).bind (fun groups => groups.lookup groupID)
/-- The endpoint is listed under the node of the group. -/
def Listed (s : Service) (group node endPoint : Bytes) : Prop :=
  ∃ endPoints, endPointsOf s group node = some endPoints ∧ endPoint ∈ endPoints
/-- No stored set of endpoints is empty. -/
def Inhabited (s : Service) : Prop := ∀ group node endPoints, endPointsOf s group node = some endPoints → endPoints ≠ ∅

private theorem remaining_mem {endPoint e : Bytes} {endPoints : Finset Bytes} :
    (∃ rest, remaining endPoint endPoints = some rest ∧ e ∈ rest) ↔ e ∈ endPoints ∧ e ≠ endPoint := by
  by_cases empty : endPoints.erase endPoint = ∅
  · have none : e ∉ endPoints.erase endPoint := by simp [empty]
    rw [Finset.mem_erase] at none
    simp only [remaining,if_pos empty,reduceCtorEq,false_and,exists_false,false_iff]
    exact fun both => none ⟨both.2,both.1⟩
  · simp only [remaining,if_neg empty,Option.some.injEq,exists_eq_left',Finset.mem_erase]
    exact and_comm
private theorem remaining_ne_empty {endPoint : Bytes} {endPoints rest : Finset Bytes}
    (left : remaining endPoint endPoints = some rest) : rest ≠ ∅ := by
  by_cases empty : endPoints.erase endPoint = ∅
  · simp [remaining,empty] at left
  · simp only [remaining,if_neg empty,Option.some.injEq] at left
    exact left ▸ empty

private theorem lookup_eraseEndPoint (endPoint node : Bytes) (nodes : Table Bytes (Finset Bytes)) :
    (eraseEndPoint endPoint nodes).lookup node = (nodes.lookup node).bind (remaining endPoint) :=
  lookup_prune _ _ _

private theorem lookup_insertEndPoint (endPoint node : Bytes) (nodes : List Bytes) (groupMapper : Table Bytes (Finset Bytes)) :
    (insertEndPoint endPoint nodes groupMapper).lookup node =
      if node ∈ nodes then some (insert endPoint ((groupMapper.lookup node).getD ∅)) else groupMapper.lookup node := by
  induction nodes generalizing groupMapper with
  | nil => rfl
  | cons first nodes ih =>
    rw [insertEndPoint,ih,lookup_insert_if]
    by_cases here : node = first
    · subst here
      by_cases again : node ∈ nodes <;> simp [again]
    · simp [here]

private theorem endPointsOf_clear (s : Service) (endPoint group node : Bytes) :
    endPointsOf (clearGroupInfoByEp s endPoint) group node =
      (endPointsOf s group node).bind (remaining endPoint) := by
  rw [endPointsOf,endPointsOf,clearGroupInfoByEp,lookup_prune]
  cases s.group2Node2Endpoints.lookup group with
  | none => rfl
  | some nodes =>
    rw [Option.bind_some,Option.bind_some,← lookup_eraseEndPoint]
    by_cases empty : eraseEndPoint endPoint nodes = ∅
    · rw [if_pos empty,empty]
      rfl
    · rw [if_neg empty]
      rfl
private theorem endPointsOf_clearOfGroup (s : Service) (endPoint groupID group node : Bytes) :
    endPointsOf (clearGroupInfoByEpOfGroup s endPoint groupID) group node =
      if group = groupID then (endPointsOf s group node).bind (remaining endPoint)
      else endPointsOf s group node := by
  by_cases same : group = groupID
  · rw [if_pos same,endPointsOf,endPointsOf,clearGroupInfoByEpOfGroup,← same]
    cases found : s.group2Node2Endpoints.lookup group with
    | none => simp [found]
    | some nodes => simp [lookup_eraseEndPoint]
  · rw [if_neg same,endPointsOf,endPointsOf,clearGroupInfoByEpOfGroup]
    cases found : s.group2Node2Endpoints.lookup groupID with
    | none => rfl
    | some nodes => simp [same]
private theorem endPointsOf_insertNodes (s : Service) (endPoint : Bytes) (info : GroupInfo) (group node : Bytes) :
    endPointsOf (insertNodes s endPoint info) group node =
      if group = info.groupID ∧ node ∈ info.nodeInfos then some (insert endPoint ((endPointsOf s group node).getD ∅))
      else endPointsOf s group node := by
  simp only [endPointsOf,insertNodes,lookup_insert_if]
  by_cases same : group = info.groupID
  · rw [if_pos same,Option.bind_some,lookup_insertEndPoint,← same]
    cases s.group2Node2Endpoints.lookup group <;> simp [AList.mem_keys,same]
  · simp [same]

/-! ### What each section changes -/

private theorem lists_remaining {found : Option (Finset Bytes)} {endPoint e : Bytes} :
    (∃ endPoints, found.bind (remaining endPoint) = some endPoints ∧ e ∈ endPoints) ↔
      (∃ endPoints, found = some endPoints ∧ e ∈ endPoints) ∧ e ≠ endPoint := by
  cases found with
  | none => simp
  | some endPoints => simpa using remaining_mem

theorem lists_clear {s : Service} {endPoint group node e : Bytes} :
    Listed (clearGroupInfoByEp s endPoint) group node e ↔ Listed s group node e ∧ e ≠ endPoint := by
  simp only [Listed,endPointsOf_clear]
  exact lists_remaining
theorem lists_clearOfGroup {s : Service} {endPoint groupID group node e : Bytes} :
    Listed (clearGroupInfoByEpOfGroup s endPoint groupID) group node e ↔
      Listed s group node e ∧ ¬ (group = groupID ∧ e = endPoint) := by
  simp only [Listed,endPointsOf_clearOfGroup]
  by_cases same : group = groupID
  · simpa [same] using lists_remaining
  · simp [same]
theorem lists_insertNodes {s : Service} {endPoint : Bytes} {info : GroupInfo} {group node e : Bytes} :
    Listed (insertNodes s endPoint info) group node e ↔
      Listed s group node e ∨ (group = info.groupID ∧ node ∈ info.nodeInfos ∧ e = endPoint) := by
  simp only [Listed,endPointsOf_insertNodes]
  by_cases inserted : group = info.groupID ∧ node ∈ info.nodeInfos
  · rw [if_pos inserted]
    cases endPointsOf s group node with
    | none => simp [inserted]
    | some endPoints => simp [inserted,or_comm]
  · rw [if_neg inserted]
    constructor
    · exact .inl
    · rintro (listed | ⟨sameGroup,isNode,_⟩)
      · exact listed
      · exact absurd ⟨sameGroup,isNode⟩ inserted
theorem lists_updateGroupInfo {s : Service} {endPoint : Bytes} {info : GroupInfo} {group node e : Bytes} :
    Listed (updateGroupInfo s endPoint info) group node e ↔ Listed s group node e := Iff.rfl

theorem inhabited_clear (s : Service) (endPoint : Bytes) :
    Inhabited (clearGroupInfoByEp s endPoint) := by
  intro group node endPoints found
  rw [endPointsOf_clear] at found
  obtain ⟨_,_,left⟩ := Option.bind_eq_some_iff.mp found
  exact remaining_ne_empty left
theorem inhabited_clearOfGroup {s : Service} (inhabited : Inhabited s) (endPoint groupID : Bytes) :
    Inhabited (clearGroupInfoByEpOfGroup s endPoint groupID) := by
  intro group node endPoints found
  rw [endPointsOf_clearOfGroup] at found
  by_cases same : group = groupID
  · rw [if_pos same] at found
    obtain ⟨_,_,left⟩ := Option.bind_eq_some_iff.mp found
    exact remaining_ne_empty left
  · rw [if_neg same] at found
    exact inhabited group node endPoints found
theorem inhabited_insertNodes {s : Service} (inhabited : Inhabited s) (endPoint : Bytes) (info : GroupInfo) :
    Inhabited (insertNodes s endPoint info) := by
  intro group node endPoints found
  rw [endPointsOf_insertNodes] at found
  by_cases inserted : group = info.groupID ∧ node ∈ info.nodeInfos
  · rw [if_pos inserted,Option.some.injEq] at found
    exact found ▸ Finset.insert_ne_empty _ _
  · rw [if_neg inserted] at found
    exact inhabited group node endPoints found

theorem listed_of_available {s : Service} (inhabited : Inhabited s) {group node : Bytes}
    (available : hasEndPointOfNodeAvailable s group node = true) : ∃ e, Listed s group node e := by
  unfold hasEndPointOfNodeAvailable at available
  split at available
  · cases available
  · rename_i nodes found
    obtain ⟨endPoints,known⟩ := Option.isSome_iff_exists.mp available
    have stored : endPointsOf s group node = some endPoints := by rw [endPointsOf,found,Option.bind_some,known]
    obtain ⟨e,member⟩ := Finset.nonempty_iff_ne_empty.mpr (inhabited group node endPoints stored)
    exact ⟨e,endPoints,stored,member⟩

theorem infoOf_clear (s : Service) (endPoint e groupID : Bytes) :
    infoOf (clearGroupInfoByEp s endPoint) e groupID = if e = endPoint then none else infoOf s e groupID := by
  rw [infoOf,clearGroupInfoByEp,lookup_erase_if]
  by_cases same : e = endPoint
  · simp [same]
  · simp [same,infoOf]
theorem infoOf_clearOfGroup (s : Service) (endPoint groupID e g : Bytes) :
    infoOf (clearGroupInfoByEpOfGroup s endPoint groupID) e g = infoOf s e g := by
  rw [clearGroupInfoByEpOfGroup]
  cases s.group2Node2Endpoints.lookup groupID <;> rfl
theorem infoOf_insertNodes (s : Service) (endPoint : Bytes) (info : GroupInfo) (e g : Bytes) :
    infoOf (insertNodes s endPoint info) e g = infoOf s e g := rfl
theorem infoOf_updateGroupInfo (s : Service) (endPoint : Bytes) (info : GroupInfo) (e g : Bytes) :
    infoOf (updateGroupInfo s endPoint info) e g =
      if e = endPoint ∧ g = info.groupID then some info else infoOf s e g := by
  simp only [infoOf,updateGroupInfo,lookup_insert_if]
  by_cases same : e = endPoint
  · rw [if_pos same,Option.bind_some,lookup_insert_if,same]
    by_cases sameGroup : g = info.groupID
    · simp [sameGroup]
    · cases s.endPoint2GroupId2GroupInfo.lookup endPoint <;> simp [sameGroup]
  · simp [same]

/-! ### Completed calls -/

/-- The tables agree: an endpoint is listed exactly under the nodes of the information
    stored for it, and no stored set is empty. -/
structure Routed (s : Service) : Prop where
  lists : ∀ group node e, Listed s group node e ↔ ∃ info, infoOf s e group = some info ∧ node ∈ info.nodeInfos
  inhabited : Inhabited s

private theorem routed_clear {s : Service} (routed : Routed s) (endPoint : Bytes) : Routed (clearGroupInfoByEp s endPoint) where
  lists group node e := by
    rw [lists_clear,routed.lists,infoOf_clear]
    by_cases same : e = endPoint <;> simp [same]
  inhabited := inhabited_clear s endPoint

/-- The three sections of an update, one after the other. -/
theorem routed_update {s : Service} (routed : Routed s) (endPoint : Bytes) (info : GroupInfo) :
    Routed (updateGroupInfoByEp s endPoint info) where
  lists group node e := by
    rw [updateGroupInfoByEp,lists_insertNodes,lists_clearOfGroup,lists_updateGroupInfo,routed.lists,
      infoOf_insertNodes,infoOf_clearOfGroup,infoOf_updateGroupInfo]
    by_cases same : e = endPoint ∧ group = info.groupID
    · simp [same]
    · rw [if_neg same]
      grind
  inhabited := inhabited_insertNodes
    (inhabited_clearOfGroup (s := updateGroupInfo s endPoint info) routed.inhabited endPoint info.groupID) endPoint info

private theorem infoOf_update (s : Service) (endPoint : Bytes) (info : GroupInfo) (e g : Bytes) :
    infoOf (updateGroupInfoByEp s endPoint info) e g =
      if e = endPoint ∧ g = info.groupID then some info else infoOf s e g := by
  rw [updateGroupInfoByEp,infoOf_insertNodes,infoOf_clearOfGroup,infoOf_updateGroupInfo]

/-- A completed call. -/
inductive Call where
  | update (endPoint : Bytes) (info : GroupInfo)
  | clear (endPoint : Bytes)

/-- What a call does to the tables. -/
def Call.apply (s : Service) : Call → Service
  | .update endPoint info => updateGroupInfoByEp s endPoint info
  | .clear endPoint => clearGroupInfoByEp s endPoint
/-- The tables after calls on an empty service. -/
def afterCalls (calls : List Call) : Service := calls.foldl Call.apply ⟨∅,∅⟩

/-- What a call changes about the most recent information of an endpoint for a group. -/
def Call.recent (endPoint groupID : Bytes) (last : Option GroupInfo) : Call → Option GroupInfo
  | .update e info => if endPoint = e ∧ groupID = info.groupID then some info else last
  | .clear e => if endPoint = e then none else last
/-- The most recent information of an endpoint for a group, unless cleared since. -/
def mostRecent (calls : List Call) (endPoint groupID : Bytes) : Option GroupInfo :=
  calls.foldl (Call.recent endPoint groupID) none

/-- The node maps in the calls have the names of the nodes as keys. -/
def Call.Named : Call → Prop
  | .update _ info => info.Named
  | .clear _ => True

/-- After calls the tables agree, and what is stored is what was reported last. -/
theorem routed_afterCalls (calls : List Call) : Routed (afterCalls calls) ∧
    ∀ e g, infoOf (afterCalls calls) e g = mostRecent calls e g := by
  induction calls using List.reverseRecOn with
  | nil =>
    refine ⟨⟨fun group node e => ?_,fun group node endPoints found => ?_⟩,fun e g => rfl⟩
    · simp [Listed,endPointsOf,infoOf,afterCalls]
    · simp [endPointsOf,afterCalls] at found
  | append_singleton calls call ih =>
    obtain ⟨routed,stored⟩ := ih
    simp only [afterCalls,mostRecent,List.foldl_append,List.foldl_cons,List.foldl_nil] at routed stored ⊢
    cases call with
    | update endPoint info =>
      refine ⟨routed_update routed endPoint info,fun e g => ?_⟩
      rw [Call.apply,infoOf_update,stored]
      rfl
    | clear endPoint =>
      refine ⟨routed_clear routed endPoint,fun e g => ?_⟩
      rw [Call.apply,infoOf_clear,stored]
      rfl

/-! ### The answers of the queries -/

private theorem hasEndPointOfNodeAvailable_eq (s : Service) (group node : Bytes) :
    hasEndPointOfNodeAvailable s group node = (endPointsOf s group node).isSome := by
  rw [hasEndPointOfNodeAvailable,endPointsOf]
  cases s.group2Node2Endpoints.lookup group <;> rfl
private theorem getEndPointsByGroupAndNode_eq (s : Service) (group node : Bytes) (endPoints : Finset Bytes) :
    getEndPointsByGroupAndNode s group node endPoints =
      ((endPointsOf s group node).isSome,(endPointsOf s group node).getD endPoints) := by
  rw [getEndPointsByGroupAndNode,endPointsOf]
  cases s.group2Node2Endpoints.lookup group with
  | none => rfl
  | some nodes =>
    simp only [Option.bind_some]
    cases nodes.lookup node <;> rfl

private theorem mem_unions {sets : List (Finset Bytes)} {start : Finset Bytes} {e : Bytes} :
    e ∈ sets.foldl (· ∪ ·) start ↔ e ∈ start ∨ ∃ set ∈ sets, e ∈ set := by
  induction sets generalizing start with
  | nil => simp
  | cons set sets ih => simp [ih,or_assoc]

private theorem mem_getEndPointsByGroup {s : Service} {group e : Bytes} {endPoints : Finset Bytes} :
    e ∈ (getEndPointsByGroup s group endPoints).2 ↔ e ∈ endPoints ∨ ∃ node, Listed s group node e := by
  rw [getEndPointsByGroup]
  simp only [Listed,endPointsOf]
  cases s.group2Node2Endpoints.lookup group with
  | none => simp
  | some nodes =>
    simp only [mem_unions,mem_values,Option.bind_some]
    grind

private theorem nodeInfo_append {merged : GroupInfo} {node : ChainNodeInfo} {name : Bytes} :
    name ∈ (merged.appendNodeInfo node).nodeInfos ↔ name ∈ merged.nodeInfos ∨ name = node.nodeName := by
  rw [GroupInfo.appendNodeInfo]
  by_cases there : (merged.nodeInfo node.nodeName).isSome = true
  · rw [if_pos there]
    rw [GroupInfo.nodeInfo,AList.lookup_isSome] at there
    constructor
    · exact .inl
    · rintro (already | rfl)
      · exact already
      · exact there
  · rw [if_neg there]
    simp [AList.mem_insert,or_comm]

private theorem mem_mergeNodes {merged info : GroupInfo} {name : Bytes} :
    name ∈ (mergeNodes merged info).nodeInfos ↔
      name ∈ merged.nodeInfos ∨ ∃ node ∈ values info.nodeInfos, node.nodeName = name := by
  rw [mergeNodes]
  generalize values info.nodeInfos = nodes
  induction nodes generalizing merged with
  | nil => simp
  | cons node nodes ih =>
    rw [List.foldl_cons,ih]
    by_cases there : (merged.nodeInfo node.nodeName).isSome = true
    · have already : node.nodeName ∈ merged.nodeInfos := AList.lookup_isSome.mp there
      rw [if_pos there]
      grind
    · rw [if_neg there,nodeInfo_append]
      grind

/-- The merged nodes are the nodes of all information stored for the group. -/
theorem mem_getGroupInfo {s : Service} {groupID name : Bytes} :
    (∃ info, getGroupInfo s groupID = some info ∧ name ∈ info.nodeInfos) ↔
      ∃ e info node, infoOf s e groupID = some info ∧ node ∈ values info.nodeInfos ∧ node.nodeName = name := by
  have merged : ∀ (infos : List GroupInfo) (start : GroupInfo), name ∈ (infos.foldl mergeNodes start).nodeInfos ↔
      name ∈ start.nodeInfos ∨ ∃ info ∈ infos, ∃ node ∈ values info.nodeInfos, node.nodeName = name := by
    intro infos
    induction infos with
    | nil => simp
    | cons info infos ih =>
      intro start
      rw [List.foldl_cons,ih,mem_mergeNodes]
      simp [or_assoc]
  have stored : ∀ info, info ∈ groupInfosOf s groupID ↔ ∃ e, infoOf s e groupID = some info := by
    intro info
    simp only [groupInfosOf,List.mem_filterMap,mem_values,infoOf,Option.bind_eq_some_iff]
    grind
  have sides : (∃ info, getGroupInfo s groupID = some info ∧ name ∈ info.nodeInfos) ↔
      ∃ info ∈ groupInfosOf s groupID, ∃ node ∈ values info.nodeInfos, node.nodeName = name := by
    rw [getGroupInfo]
    cases groupInfosOf s groupID with
    | nil => simp
    | cons first rest => simp [-List.foldl_cons,merged]
  rw [sides]
  constructor
  · rintro ⟨info,member,node,inside,named⟩
    obtain ⟨e,found⟩ := (stored info).mp member
    exact ⟨e,info,node,found,inside,named⟩
  · rintro ⟨e,info,node,found,inside,named⟩
    exact ⟨info,(stored info).mpr ⟨e,found⟩,node,inside,named⟩

private theorem named_afterCalls {calls : List Call} (named : ∀ call ∈ calls, call.Named) :
    ∀ e g info, mostRecent calls e g = some info → info.Named := by
  intro e g
  induction calls using List.reverseRecOn with
  | nil => simp [mostRecent]
  | append_singleton calls call ih =>
    intro info found
    rw [List.forall_mem_append] at named
    rw [mostRecent,List.foldl_append] at found
    have last := named.2 call (by simp)
    cases call with
    | update endPoint reported =>
      by_cases same : e = endPoint ∧ g = reported.groupID
      · simp only [List.foldl_cons,List.foldl_nil,Call.recent,if_pos same,Option.some.injEq] at found
        exact found ▸ last
      · simp only [List.foldl_cons,List.foldl_nil,Call.recent,if_neg same] at found
        exact ih named.1 info found
    | clear endPoint =>
      by_cases same : e = endPoint
      · simp [Call.recent,same] at found
      · simp only [List.foldl_cons,List.foldl_nil,Call.recent,if_neg same] at found
        exact ih named.1 info found

/-- After any calls an endpoint is listed exactly under the nodes of its most recent
    information, no stored set is empty, and the queries agree. -/
theorem routing_afterCalls (calls : List Call) (named : ∀ call ∈ calls, call.Named) (group node : Bytes) :
    (∀ e, Listed (afterCalls calls) group node e ↔
      ∃ info, mostRecent calls e group = some info ∧ node ∈ info.nodeInfos) ∧
    (∀ endPoints, endPointsOf (afterCalls calls) group node = some endPoints → endPoints ≠ ∅) ∧
    (hasEndPointOfNodeAvailable (afterCalls calls) group node = true ↔
      (getEndPointsByGroupAndNode (afterCalls calls) group node ∅).2 ≠ ∅) ∧
    (hasEndPointOfNodeAvailable (afterCalls calls) group node = true ↔
      ∃ info, getGroupInfo (afterCalls calls) group = some info ∧ node ∈ info.nodeInfos) ∧
    (∀ e, e ∈ (getEndPointsByGroup (afterCalls calls) group ∅).2 ↔ ∃ n, Listed (afterCalls calls) group n e) := by
  obtain ⟨routed,stored⟩ := routed_afterCalls calls
  have lists : ∀ e, Listed (afterCalls calls) group node e ↔
      ∃ info, mostRecent calls e group = some info ∧ node ∈ info.nodeInfos := by
    intro e
    rw [routed.lists,stored]
  have available : hasEndPointOfNodeAvailable (afterCalls calls) group node = true ↔
      ∃ e, Listed (afterCalls calls) group node e := by
    rw [hasEndPointOfNodeAvailable_eq,Option.isSome_iff_exists]
    constructor
    · rintro ⟨endPoints,found⟩
      obtain ⟨e,member⟩ := Finset.nonempty_iff_ne_empty.mpr (routed.inhabited group node endPoints found)
      exact ⟨e,endPoints,found,member⟩
    · rintro ⟨e,endPoints,found,_⟩
      exact ⟨endPoints,found⟩
  refine ⟨lists,routed.inhabited group node,?_,?_,fun e => by simp [mem_getEndPointsByGroup]⟩
  · rw [available,getEndPointsByGroupAndNode_eq,← Finset.nonempty_iff_ne_empty]
    cases found : endPointsOf (afterCalls calls) group node with
    | none => simp [Listed,found]
    | some endPoints => simp [Listed,found,Finset.Nonempty]
  · rw [available,mem_getGroupInfo]
    constructor
    · rintro ⟨e,listed⟩
      obtain ⟨info,recent,member⟩ := (lists e).mp listed
      obtain ⟨found,present⟩ := Option.isSome_iff_exists.mp (AList.lookup_isSome.mpr member)
      exact ⟨e,info,found,(stored e group).trans recent,mem_values.mpr ⟨node,present⟩,
        named_afterCalls named e group info recent node found present⟩
    · rintro ⟨e,info,found,reported,member,rfl⟩
      rw [stored] at reported
      obtain ⟨name,present⟩ := mem_values.mp member
      have key := named_afterCalls named e group info reported name found present
      exact ⟨e,(lists e).mpr ⟨info,reported,AList.lookup_isSome.mp (by rw [key,present]; rfl)⟩⟩

/-- Information about a group with the given nodes. -/
def infoWith (groupID : Bytes) (nodes : List Bytes) : GroupInfo :=
  nodes.foldl (fun info node => info.appendNodeInfo ⟨node⟩) ⟨[],groupID,false,false,[],[],∅⟩

private theorem named_infoWith (groupID : Bytes) (nodes : List Bytes) : (infoWith groupID nodes).Named := by
  have append : ∀ info : GroupInfo, info.Named → ∀ nodeName, (info.appendNodeInfo ⟨nodeName⟩).Named := by
    intro info named nodeName name node found
    rw [GroupInfo.appendNodeInfo] at found
    split at found
    · exact named name node found
    · rw [lookup_insert_if] at found
      by_cases same : name = nodeName
      · rw [if_pos same,Option.some.injEq] at found
        rw [← found,same]
      · exact named name node (by simpa only [if_neg same] using found)
  rw [infoWith]
  generalize start : (⟨[],groupID,false,false,[],[],∅⟩ : GroupInfo) = info
  have empty : info.Named := by
    rw [← start]
    intro name node found
    simp at found
  clear start
  induction nodes generalizing info with
  | nil => exact empty
  | cons nodeName nodes ih => exact ih _ (append info empty nodeName)

/-- Two endpoints report a node, then the first one another node, and the second one is lost. -/
def reports : List Call :=
  [.update (lit "a:1") (infoWith (lit "g") [lit "n"]),.update (lit "b:2") (infoWith (lit "g") [lit "n",lit "k"]),
    .update (lit "a:1") (infoWith (lit "g") [lit "m"]),.clear (lit "b:2")]

/-- The other node is listed, and the first one no more. -/
theorem routing_afterCalls_reports :
    Listed (afterCalls reports) (lit "g") (lit "m") (lit "a:1") ∧ ¬ Listed (afterCalls reports) (lit "g") (lit "n") (lit "a:1") ∧
      ¬ Listed (afterCalls reports) (lit "g") (lit "n") (lit "b:2") := by
  have named : ∀ call ∈ reports, call.Named := by
    simp only [reports,List.forall_mem_cons]
    exact ⟨named_infoWith _ _,named_infoWith _ _,named_infoWith _ _,trivial,by simp⟩
  have other : mostRecent reports (lit "a:1") (lit "g") = some (infoWith (lit "g") [lit "m"]) := rfl
  have lost : mostRecent reports (lit "b:2") (lit "g") = none := rfl
  refine ⟨((routing_afterCalls reports named (lit "g") (lit "m")).1 _).mpr ⟨_,other,by decide⟩,fun listed => ?_,fun listed => ?_⟩
  · obtain ⟨info,recent,member⟩ := ((routing_afterCalls reports named (lit "g") (lit "n")).1 _).mp listed
    obtain rfl := Option.some.inj (recent.symm.trans other)
    revert member
    decide
  · obtain ⟨info,recent,_⟩ := ((routing_afterCalls reports named (lit "g") (lit "n")).1 _).mp listed
    cases recent.symm.trans lost

end CppSdk.Routing

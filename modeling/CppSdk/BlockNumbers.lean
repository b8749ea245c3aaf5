import CppSdk.RoutingRaces

/-!
The block numbers of the groups and the nodes that have reported them. A notification
updates the number of its group in one locked section and the nodes in another; a
handshake response updates numbers only; the removal of a group is one section. Where no
section of a notification is late and no handshake raises a number that nodes have
reported, the nodes are those of the number (`reported_of_timely`).
-/
namespace CppSdk.BlockNumbers
open CppSdk.ByteString CppSdk.Tables CppSdk.Transition
open CppSdk.Routing (Service hasEndPointOfNodeAvailable Listed)

/-! ### The handlers -/

/-- `BlockNumberInfo`. -/
structure BlockNumberInfo where
  group : Bytes
  node : Bytes
  blockNumber : Int64
deriving DecidableEq

/-- Where a handler is: between the two sections of `onRecvBlockNotifier`, with whether
    the number is new, or in the loop over the numbers of a handshake response. -/
inductive Handler where
  | notifying (info : BlockNumberInfo) (isNewBlock : Bool)
  | handshaking (left : List (Bytes × Int64))

/-- The members of the service, the handlers of the threads, and for the record the
    notifications that have been received. -/
structure State where
  group2BlockNumber : Table Bytes Int64
  group2LatestBlockNumberNodes : Table Bytes (Finset Bytes)
  handlers : Table Nat Handler
  reported : List BlockNumberInfo

/-- What can happen next. -/
inductive Label where
  | notify (thread : Nat) (info : BlockNumberInfo)
  | handshake (thread : Nat) (groupBlockNumber : List (Bytes × Int64))
  | advance (thread : Nat)
  | remove (group : Bytes)

/-- `updateGroupBlockNumber`: the numbers, whether the number is new and whether it is the
    highest. -/
def updateGroupBlockNumber (numbers : Table Bytes Int64) (groupID : Bytes) (blockNumber : Int64) :
    Table Bytes Int64 × Bool × Bool :=
  match numbers.lookup groupID with
  | some current =>
    if current < blockNumber then (numbers.insert groupID blockNumber,true,true)
    else if blockNumber = current then (numbers,false,true)
    else (numbers,false,false)
  | none => (numbers.insert groupID blockNumber,true,true)

/-- The nodes of a group; `operator[]` makes an empty set where there is none. -/
def nodesOf (s : State) (group : Bytes) : Finset Bytes := (s.group2LatestBlockNumberNodes.lookup group).getD ∅

/-- The next section of a handler. -/
def advance (s : State) (thread : Nat) : Handler → State
  | .notifying info isNewBlock =>
    { s with
      group2LatestBlockNumberNodes := s.group2LatestBlockNumberNodes.insert info.group
        (insert info.node (if isNewBlock then ∅ else nodesOf s info.group))
      handlers := s.handlers.erase thread }
  | .handshaking [] => { s with handlers := s.handlers.erase thread }
  | .handshaking ((group,blockNumber) :: left) =>
    { s with
      group2BlockNumber := (updateGroupBlockNumber s.group2BlockNumber group blockNumber).1
      handlers := s.handlers.insert thread (.handshaking left) }

/-- Where a step leads. -/
def step (s : State) : Label → Option State
  | .notify thread info =>
    if (s.handlers.lookup thread).isNone then
      let (numbers,isNewBlock,isHighestBlock) := updateGroupBlockNumber s.group2BlockNumber info.group info.blockNumber
      some { s with
        group2BlockNumber := numbers
        handlers := if isHighestBlock then s.handlers.insert thread (.notifying info isNewBlock) else s.handlers
        reported := info :: s.reported }
    else none
  | .handshake thread groupBlockNumber =>
    if (s.handlers.lookup thread).isNone then
      some { s with handlers := s.handlers.insert thread (.handshaking groupBlockNumber) }
    else none
  | .advance thread => (s.handlers.lookup thread).map (advance s thread)
  | .remove group => some
    { s with
      group2BlockNumber := s.group2BlockNumber.erase group
      group2LatestBlockNumberNodes := s.group2LatestBlockNumberNodes.erase group }

/-- The service and its threads. -/
def service : System State Label := ⟨⟨∅,∅,∅,[]⟩,step⟩

/-- `getHighestBlockNumberNodes`, when its result is true. -/
def getHighestBlockNumberNodes (tables : Service) (s : State) (group : Bytes) : Option (Finset Bytes) :=
  match s.group2LatestBlockNumberNodes.lookup group with
  | none => none
  | some tempNodes =>
    let nodes := tempNodes.filter (fun node => hasEndPointOfNodeAvailable tables group node = true)
    if nodes = ∅ then none else some nodes

/-- `randomGetHighestBlockNumberNode`, with the vector that a shuffle makes of a set. -/
def randomGetHighestBlockNumberNode (shuffle : Finset Bytes → List Bytes) (tables : Service) (s : State) (group : Bytes) :
    Option Bytes := (getHighestBlockNumberNodes tables s group).bind (fun nodes => (shuffle nodes).head?)

/-! ### The condition -/

variable {s t : State} {thread : Nat} {group : Bytes}

/-- The second section of a new notification of the current number is to come. -/
def Handler.Renews (s : State) (group : Bytes) : Handler → Prop
  | .notifying info isNewBlock =>
    isNewBlock = true ∧ info.group = group ∧ s.group2BlockNumber.lookup group = some info.blockNumber
  | .handshaking _ => False

/-- The handler of another thread renews the nodes of the group. -/
def RenewedBut (s : State) (thread : Nat) (group : Bytes) : Prop :=
  ∃ e ∈ s.handlers.entries, e.1 ≠ thread ∧ e.2.Renews s group

/-- The number is greater than that of the group, or the group has none. -/
def Raises (s : State) (group : Bytes) (blockNumber : Int64) : Prop :=
  ∀ current ∈ s.group2BlockNumber.lookup group, current < blockNumber

/-- The second section of a notification finds its number, or a new notification of the
    number is to follow it; a handshake raises no number that nodes have reported. -/
def Timely (s : State) : Label → Prop
  | .advance thread =>
    match s.handlers.lookup thread with
    | some (.notifying info _) =>
      s.group2BlockNumber.lookup info.group = some info.blockNumber ∨ RenewedBut s thread info.group
    | some (.handshaking ((group,blockNumber) :: _)) =>
      Raises s group blockNumber → nodesOf s group = ∅
    | _ => True
  | _ => True

instance (s : State) (group : Bytes) : ∀ handler : Handler, Decidable (handler.Renews s group)
  | .notifying info isNewBlock => inferInstanceAs
    (Decidable (isNewBlock = true ∧ info.group = group ∧ s.group2BlockNumber.lookup group = some info.blockNumber))
  | .handshaking _ => inferInstanceAs (Decidable False)
instance (s : State) (group : Bytes) (blockNumber : Int64) : Decidable (Raises s group blockNumber) :=
  -- not the instance of finite types, which tries every number
  Option.decidableForallMem (s.group2BlockNumber.lookup group)
instance (s : State) (thread : Nat) (group : Bytes) : Decidable (RenewedBut s thread group) :=
  inferInstanceAs (Decidable (∃ e ∈ s.handlers.entries, e.1 ≠ thread ∧ e.2.Renews s group))
instance (s : State) : ∀ l, Decidable (Timely s l)
  | .advance thread =>
    match found : s.handlers.lookup thread with
    | some (.notifying info _) => decidable_of_iff
      (s.group2BlockNumber.lookup info.group = some info.blockNumber ∨ RenewedBut s thread info.group)
      (by simp [Timely,found])
    | some (.handshaking ((group,blockNumber) :: _)) => decidable_of_iff
      (Raises s group blockNumber → nodesOf s group = ∅)
      (by simp [Timely,found])
    | none | some (.handshaking []) => .isTrue (by simp [Timely,found])
  | .notify _ _ | .handshake _ _ | .remove _ => .isTrue trivial

/-! ### The invariant -/

/-- The nodes of the group have reported its number. -/
def Reported (s : State) (group : Bytes) : Prop :=
  ∀ node ∈ nodesOf s group, ∃ blockNumber, s.group2BlockNumber.lookup group = some blockNumber ∧
    ⟨group,node,blockNumber⟩ ∈ s.reported
/-- Some handler renews the nodes of the group. -/
def Renewed (s : State) (group : Bytes) : Prop :=
  ∃ thread handler, s.handlers.lookup thread = some handler ∧ handler.Renews s group

/-- What timely steps preserve. -/
structure Kept (s : State) : Prop where
  received : ∀ thread info isNewBlock, s.handlers.lookup thread = some (.notifying info isNewBlock) → info ∈ s.reported
  nodes : ∀ group, Reported s group ∨ Renewed s group

private theorem renewedBut_iff : RenewedBut s thread group ↔
    ∃ other handler, other ≠ thread ∧ s.handlers.lookup other = some handler ∧ handler.Renews s group := by
  constructor
  · rintro ⟨⟨other,handler⟩,member,different,renews⟩
    exact ⟨other,handler,different,AList.mem_lookup_iff.mpr member,renews⟩
  · rintro ⟨other,handler,different,found,renews⟩
    exact ⟨⟨other,handler⟩,AList.mem_lookup_iff.mp found,different,renews⟩

/-- A handler looks at the number of its group only. -/
theorem renews_of_same {handler : Handler}
    (number : t.group2BlockNumber.lookup group = s.group2BlockNumber.lookup group) (renews : handler.Renews s group) :
    handler.Renews t group := by
  cases handler with
  | notifying info isNewBlock => exact ⟨renews.1,renews.2.1,number.trans renews.2.2⟩
  | handshaking left => exact renews

/-- A step that leaves the number, the nodes and the other handlers alone, by a thread
    that does not renew the nodes. -/
theorem nodes_of_same (kept : Reported s group ∨ Renewed s group)
    (number : t.group2BlockNumber.lookup group = s.group2BlockNumber.lookup group)
    (nodes : nodesOf t group = nodesOf s group) (record : s.reported ⊆ t.reported)
    (others : ∀ other handler, s.handlers.lookup other = some handler → handler.Renews s group →
      t.handlers.lookup other = some handler) : Reported t group ∨ Renewed t group := by
  rcases kept with reported | ⟨other,handler,found,renews⟩
  · refine .inl (fun node member => ?_)
    obtain ⟨blockNumber,current,known⟩ := reported node (nodes ▸ member)
    exact ⟨blockNumber,number.trans current,record known⟩
  · exact .inr ⟨other,handler,others other handler found renews,renews_of_same number renews⟩

private theorem lookup_updateGroupBlockNumber (numbers : Table Bytes Int64) {group other : Bytes} (blockNumber : Int64)
    (different : other ≠ group) :
    (updateGroupBlockNumber numbers group blockNumber).1.lookup other = numbers.lookup other := by
  unfold updateGroupBlockNumber
  split
  · split
    · exact AList.lookup_insert_ne different
    · split <;> rfl
  · exact AList.lookup_insert_ne different

/-- What an update of a number does to it. -/
theorem updateGroupBlockNumber_cases (s : State) (group : Bytes) (blockNumber : Int64) :
    let updated := updateGroupBlockNumber s.group2BlockNumber group blockNumber
    (Raises s group blockNumber ∧ updated.2.1 = true ∧ updated.2.2 = true ∧ updated.1.lookup group = some blockNumber) ∨
      (updated.2.1 = false ∧ updated.1 = s.group2BlockNumber) := by
  simp only [updateGroupBlockNumber]
  split
  · rename_i current found
    split
    · rename_i less
      refine .inl ⟨?_,rfl,rfl,AList.lookup_insert _⟩
      intro other here
      rw [found,Option.mem_some] at here
      exact here ▸ less
    · split <;> exact .inr ⟨rfl,rfl⟩
  · rename_i absent
    refine .inl ⟨?_,rfl,rfl,AList.lookup_insert _⟩
    intro other here
    rw [absent] at here
    cases here

/-- The handlers that renew the nodes stay where a thread that does not changes its own. -/
theorem others_put (own : ∀ handler, s.handlers.lookup thread = some handler → ¬ handler.Renews s group)
    (next : Option Handler) (other : Nat) (handler : Handler) (found : s.handlers.lookup other = some handler)
    (renews : handler.Renews s group) : (put s.handlers thread next).lookup other = some handler := by
  by_cases same : other = thread
  · exact absurd renews (own handler (same ▸ found))
  · rw [lookup_put,if_neg same,found]

/-- Notifications in progress have been received, where a thread goes on with nothing or
    with a handler that is no other notification. -/
theorem received_put (next : Option Handler) (kept : Kept s) (record : s.reported ⊆ t.reported)
    (handlers : t.handlers = put s.handlers thread next)
    (fresh : ∀ info isNewBlock, next = some (.notifying info isNewBlock) → info ∈ t.reported) :
    ∀ other info isNewBlock, t.handlers.lookup other = some (.notifying info isNewBlock) → info ∈ t.reported := by
  intro other info isNewBlock found
  rw [handlers] at found
  rcases lookup_put_cases found with ⟨_,new⟩ | ⟨_,old⟩
  · exact fresh info isNewBlock new
  · exact record (kept.received other info isNewBlock old)

/-! ### Steps -/

private theorem kept_notifying (kept : Kept s) {info : BlockNumberInfo} {isNewBlock : Bool}
    (found : s.handlers.lookup thread = some (.notifying info isNewBlock)) (timely : Timely s (.advance thread)) :
    Kept (advance s thread (.notifying info isNewBlock)) := by
  constructor
  · exact received_put none kept (fun _ member => member) rfl (by simp)
  intro group
  by_cases same : group = info.group
  · subst same
    have nodes : nodesOf (advance s thread (.notifying info isNewBlock)) info.group =
        insert info.node (if isNewBlock then ∅ else nodesOf s info.group) := by
      simp [nodesOf,advance]
    simp only [Timely,found] at timely
    rcases timely with current | follows
    · have reports : ⟨info.group,info.node,info.blockNumber⟩ ∈ s.reported := kept.received thread info isNewBlock found
      cases isNewBlock with
      | true =>
        refine .inl (fun node member => ⟨info.blockNumber,current,?_⟩)
        rw [nodes,if_pos rfl,insert_empty_eq,Finset.mem_singleton] at member
        exact member ▸ reports
      | false =>
        rcases kept.nodes info.group with reported | ⟨other,handler,before,renews⟩
        · refine .inl (fun node member => ?_)
          rw [nodes,if_neg Bool.false_ne_true,Finset.mem_insert] at member
          rcases member with new | old
          · exact ⟨info.blockNumber,current,new ▸ reports⟩
          · exact reported node old
        · -- the handler that renews is another one: this one's number was not new
          refine .inr ⟨other,handler,?_,renews_of_same rfl renews⟩
          refine others_put (fun own here => ?_) none other handler before renews
          rw [found,Option.some.injEq] at here
          subst here
          rintro ⟨new,_⟩
          cases new
    · obtain ⟨other,handler,different,before,renews⟩ := renewedBut_iff.mp follows
      exact .inr ⟨other,handler,by rw [advance,AList.lookup_erase_ne different,before],renews_of_same rfl renews⟩
  · refine nodes_of_same (kept.nodes group) rfl ?_ (fun _ member => member) (others_put (fun own here => ?_) none)
    · simp [nodesOf,advance,AList.lookup_insert_ne same]
    · rw [found,Option.some.injEq] at here
      subst here
      exact fun renews => same renews.2.1.symm

private theorem kept_handshaking (kept : Kept s) {left : List (Bytes × Int64)}
    (found : s.handlers.lookup thread = some (.handshaking left)) (timely : Timely s (.advance thread)) :
    Kept (advance s thread (.handshaking left)) := by
  have own : ∀ group handler, s.handlers.lookup thread = some handler → ¬ handler.Renews s group := by
    intro group handler here
    rw [found,Option.some.injEq] at here
    subst here
    exact id
  cases left with
  | nil =>
    exact ⟨received_put none kept (fun _ member => member) rfl (by simp),
      fun group => nodes_of_same (kept.nodes group) rfl rfl (fun _ member => member) (others_put (own group) none)⟩
  | cons entry left =>
    obtain ⟨raised,blockNumber⟩ := entry
    refine ⟨received_put (some (.handshaking left)) kept (fun _ member => member) rfl (by simp),fun group => ?_⟩
    simp only [Timely,found] at timely
    have others := others_put (own group) (some (.handshaking left))
    rcases updateGroupBlockNumber_cases s raised blockNumber with ⟨raises,_⟩ | ⟨_,unchanged⟩
    · by_cases same : group = raised
      · -- no node has reported the number that is raised
        refine .inl (fun node member => ?_)
        have none : node ∈ nodesOf s raised := same ▸ member
        rw [timely raises] at none
        cases none
      · exact nodes_of_same (kept.nodes group) (lookup_updateGroupBlockNumber _ _ same) rfl (fun _ member => member) others
    · exact nodes_of_same (kept.nodes group) (by rw [advance,unchanged]) rfl (fun _ member => member) others

private theorem kept_notify (kept : Kept s) {info : BlockNumberInfo} (idle : s.handlers.lookup thread = none)
    (stepped : step s (.notify thread info) = some t) : Kept t := by
  have own : ∀ group handler, s.handlers.lookup thread = some handler → ¬ handler.Renews s group := by simp [idle]
  have record : s.reported ⊆ info :: s.reported := List.subset_cons_self info s.reported
  simp only [step,idle,Option.isNone_none,if_true,Option.some.injEq] at stepped
  rcases updateGroupBlockNumber_cases s info.group info.blockNumber with ⟨_,new,highest,raised⟩ | ⟨old,unchanged⟩
  · simp only [new,highest,if_true] at stepped
    subst stepped
    refine ⟨received_put (some (.notifying info true)) kept record rfl ?_,fun group => ?_⟩
    · rintro other isNewBlock ⟨⟩
      exact List.mem_cons_self
    · by_cases same : group = info.group
      · subst same
        exact .inr ⟨thread,.notifying info true,AList.lookup_insert _,rfl,rfl,raised⟩
      · exact nodes_of_same (kept.nodes group) (lookup_updateGroupBlockNumber _ _ same) rfl record
          (others_put (own group) (some (.notifying info true)))
  · simp only [old,unchanged] at stepped
    split at stepped
    · subst stepped
      refine ⟨received_put (some (.notifying info false)) kept record rfl ?_,fun group => ?_⟩
      · rintro other isNewBlock ⟨⟩
        exact List.mem_cons_self
      · exact nodes_of_same (kept.nodes group) rfl rfl record (others_put (own group) (some (.notifying info false)))
    · subst stepped
      exact ⟨fun other before isNewBlock found => record (kept.received other before isNewBlock found),
        fun group => nodes_of_same (kept.nodes group) rfl rfl record (fun _ _ found _ => found)⟩

private theorem kept_remove (kept : Kept s) {removed : Bytes} (stepped : step s (.remove removed) = some t) : Kept t := by
  cases stepped
  refine ⟨kept.received,fun group => ?_⟩
  by_cases same : group = removed
  · refine .inl (fun node member => ?_)
    rw [nodesOf,same,AList.lookup_erase] at member
    cases member
  · refine nodes_of_same (kept.nodes group) ?_ ?_ (fun _ member => member) (fun _ _ found _ => found)
    · exact AList.lookup_erase_ne same
    · simp [nodesOf,AList.lookup_erase_ne same]

private theorem kept_step (kept : Kept s) {l : Label} (timely : Timely s l) (stepped : step s l = some t) : Kept t := by
  cases l with
  | notify thread info =>
    obtain ⟨idle,_⟩ := Option.ite_none_right_eq_some.mp stepped
    exact kept_notify kept (Option.isNone_iff_eq_none.mp idle) stepped
  | handshake thread groupBlockNumber =>
    obtain ⟨idle,stepped⟩ := Option.ite_none_right_eq_some.mp stepped
    cases stepped
    have own : ∀ group handler, s.handlers.lookup thread = some handler → ¬ handler.Renews s group := by
      simp [Option.isNone_iff_eq_none.mp idle]
    exact ⟨received_put (some (.handshaking groupBlockNumber)) kept (fun _ member => member) rfl (by simp),
      fun group => nodes_of_same (kept.nodes group) rfl rfl (fun _ member => member)
        (others_put (own group) (some (.handshaking groupBlockNumber)))⟩
  | advance thread =>
    obtain ⟨handler,found,stepped⟩ := Option.map_eq_some_iff.mp stepped
    subst stepped
    cases handler with
    | notifying info isNewBlock => exact kept_notifying kept found timely
    | handshaking left => exact kept_handshaking kept found timely
  | remove group => exact kept_remove kept stepped

theorem kept_of_reachable (reachable : service.Reachable Timely s) : Kept s := by
  refine invariant_of_reachable ?_ (fun s l t kept (timely : Timely s l) stepped => kept_step kept timely stepped) reachable
  constructor
  · intro thread info isNewBlock found
    cases found
  · exact fun group => .inl (fun node member => absurd member (Finset.notMem_empty node))

/-! ### The nodes of the highest number -/

/-- In every timely run, while no handler is in progress: the nodes of a group have
    reported its number, and the node that is drawn is one of them and has an endpoint. -/
theorem reported_of_timely (reachable : service.Reachable Timely s) (idle : s.handlers = ∅) (group : Bytes) :
    Reported s group ∧ ∀ shuffle : Finset Bytes → List Bytes, (∀ nodes, (shuffle nodes).toFinset = nodes) →
      ∀ (endPoint : Nat → Bytes) (r : RoutingRaces.State), (RoutingRaces.pool endPoint).Reachable Any r →
      ∀ node, randomGetHighestBlockNumberNode shuffle r.tables s group = some node →
        (∃ blockNumber, s.group2BlockNumber.lookup group = some blockNumber ∧ ⟨group,node,blockNumber⟩ ∈ s.reported) ∧
          ∃ e, Listed r.tables group node e := by
  have reported : Reported s group := by
    rcases (kept_of_reachable reachable).nodes group with reported | ⟨thread,handler,found,_⟩
    · exact reported
    · simp [idle] at found
  refine ⟨reported,fun shuffle shuffles endPoint r routed node drawn => ?_⟩
  obtain ⟨nodes,highest,first⟩ := Option.bind_eq_some_iff.mp drawn
  have member : node ∈ nodes := by
    rw [← shuffles nodes,List.mem_toFinset]
    exact List.mem_of_head? first
  unfold getHighestBlockNumberNodes at highest
  split at highest
  · cases highest
  · rename_i tempNodes found
    obtain ⟨_,chosen⟩ := Option.ite_none_left_eq_some.mp highest
    rw [← Option.some.inj chosen,Finset.mem_filter] at member
    refine ⟨reported node (by rw [nodesOf,found]; exact member.1),?_⟩
    exact Routing.listed_of_available (RoutingRaces.inhabited_of_reachable routed) member.2

/-- A service of one group: a handshake, and two nodes that report the next number. -/
def timelyRun : List Label :=
  [.handshake 0 [(lit "g",4)],.advance 0,.advance 0,.notify 1 ⟨lit "g",lit "m",5⟩,.advance 1,
    .notify 1 ⟨lit "g",lit "n",5⟩,.advance 1]
/-- The pool once a group information with the node is stored. -/
def routingRun : List RoutingRaces.Label :=
  [.receive 0 [Routing.infoWith (lit "g") [lit "n"]],.begin 0 0,.advance 0,.advance 0,.advance 0,.advance 0]

theorem reported_of_timelyRun : ∃ (s : State) (r : RoutingRaces.State), Reported s (lit "g") ∧
    (∃ blockNumber, s.group2BlockNumber.lookup (lit "g") = some blockNumber ∧ ⟨lit "g",lit "n",blockNumber⟩ ∈ s.reported) ∧
      ∃ e, Listed r.tables (lit "g") (lit "n") e := by
  have timely : service.Obeys Timely service.start timelyRun := by decide +kernel
  obtain ⟨s,reachable,checked⟩ := exists_of_run timely
    (fun s => decide (s.handlers.entries = [] ∧
      s.group2LatestBlockNumberNodes.lookup (lit "g") = some {lit "m",lit "n"})) (by decide +kernel)
  obtain ⟨r,routed,listed⟩ := exists_of_run (M := RoutingRaces.pool RoutingRaces.oneEndPoint) (obeys_any _ routingRun)
    (fun r => decide (hasEndPointOfNodeAvailable r.tables (lit "g") (lit "m") = false ∧
      hasEndPointOfNodeAvailable r.tables (lit "g") (lit "n") = true)) (by decide +kernel)
  obtain ⟨idle,found⟩ := of_decide_eq_true checked
  obtain ⟨without,available⟩ := of_decide_eq_true listed
  have highest : getHighestBlockNumberNodes r.tables s (lit "g") = some {lit "n"} := by
    simp [getHighestBlockNumberNodes,found,Finset.filter_insert,Finset.filter_singleton,without,available]
  obtain ⟨reported,drawn⟩ := reported_of_timely reachable (AList.ext idle) (lit "g")
  have node := drawn Finset.toList (fun nodes => Finset.toList_toFinset nodes) RoutingRaces.oneEndPoint r routed (lit "n")
    (by rw [randomGetHighestBlockNumberNode,highest,Option.bind_some,Finset.toList_singleton,List.head?_cons])
  exact ⟨s,r,reported,node⟩

/-- A handshake raises the number of nodes that have not reported it, and the section of a
    notification that comes late adds a node of an old number. -/
theorem unreported_runs :
    (∃ s : State, service.Reachable Any s ∧ s.handlers.entries = [] ∧ s.group2BlockNumber.lookup (lit "g") = some 7 ∧
      s.reported = [⟨lit "g",lit "m",5⟩] ∧ nodesOf s (lit "g") = {lit "m"}) ∧
    ∃ s : State, service.Reachable Any s ∧ s.handlers.entries = [] ∧ s.group2BlockNumber.lookup (lit "g") = some 7 ∧
      ⟨lit "g",lit "m",7⟩ ∉ s.reported ∧ nodesOf s (lit "g") = {lit "m"} := by
  constructor
  · obtain ⟨s,reachable,checked⟩ := exists_of_run (M := service)
      (obeys_any _ [.notify 0 ⟨lit "g",lit "m",5⟩,.advance 0,.handshake 0 [(lit "g",7)],.advance 0,.advance 0])
      (fun s => decide (s.handlers.entries = [] ∧ s.group2BlockNumber.lookup (lit "g") = some 7 ∧
        s.reported = [⟨lit "g",lit "m",5⟩] ∧ nodesOf s (lit "g") = {lit "m"})) (by decide +kernel)
    exact ⟨s,reachable,of_decide_eq_true checked⟩
  · obtain ⟨s,reachable,checked⟩ := exists_of_run (M := service)
      (obeys_any _ [.notify 0 ⟨lit "g",lit "m",5⟩,.notify 1 ⟨lit "g",lit "n",7⟩,.advance 1,.advance 0])
      (fun s => decide (s.handlers.entries = [] ∧ s.group2BlockNumber.lookup (lit "g") = some 7 ∧
        ⟨lit "g",lit "m",7⟩ ∉ s.reported ∧ nodesOf s (lit "g") = {lit "m"})) (by decide +kernel)
    exact ⟨s,reachable,of_decide_eq_true checked⟩

end CppSdk.BlockNumbers

import CppSdk.Routing
import CppSdk.Transition

/-!
The routing tables under a thread pool. Messages of sessions wait in an inbox; a thread
takes one and updates the tables with each group information that it carries, one locked
section at a time; the disconnect of a session is one locked section. Updates of one
endpoint and group that do not overlap, and none after the disconnect of its session,
keep the tables consistent (`consistent_of_orderly`).
-/
namespace CppSdk.RoutingRaces
open CppSdk.ByteString CppSdk.Tables CppSdk.Routing CppSdk.Transition

/-! ### The threads -/

/-- Where the handler of a message is in `updateGroupInfoByEp`. -/
inductive Progress where
  | outside
  | stored (info : GroupInfo)
  | cleared (info : GroupInfo)

/-- The handler of a handshake response or of a group notification: its session, where it
    is in the current update, and the information that it has yet to pass. -/
structure Handler where
  session : Nat
  progress : Progress
  pending : List GroupInfo

/-- The tables, the messages that wait, the handlers of the threads; and for the record
    the sessions whose disconnect has been handled and those that have reported. A
    session with a greater number is a later one. -/
structure State where
  tables : Service
  inbox : List (Nat × List GroupInfo)
  handlers : Table Nat Handler
  disconnected : List Nat
  reported : List Nat

/-- What can happen next. -/
inductive Label where
  | receive (session : Nat) (infos : List GroupInfo)
  | begin (thread : Nat) (index : Nat)
  | advance (thread : Nat)
  | disconnect (session : Nat)

section
variable (endPoint : Nat → Bytes)

/-- The next section of the handler of a thread. -/
def advance (s : State) (thread : Nat) (handler : Handler) : State :=
  match handler.progress with
  | .stored info =>
    { s with
      tables := clearGroupInfoByEpOfGroup s.tables (endPoint handler.session) info.groupID
      handlers := s.handlers.insert thread { handler with progress := .cleared info } }
  | .cleared info =>
    { s with
      tables := insertNodes s.tables (endPoint handler.session) info
      handlers := s.handlers.insert thread { handler with progress := .outside } }
  | .outside =>
    match handler.pending with
    | [] => { s with handlers := s.handlers.erase thread }
    | info :: infos =>
      { s with
        tables := updateGroupInfo s.tables (endPoint handler.session) info
        handlers := s.handlers.insert thread { handler with progress := .stored info, pending := infos }
        reported := handler.session :: s.reported }

/-- A step of the pool. -/
def step (s : State) : Label → Option State
  | .receive session infos => some { s with inbox := s.inbox ++ [(session,infos)] }
  | .begin thread index =>
    match s.handlers.lookup thread, s.inbox[index]? with
    | none, some (session,infos) => some
      { s with
        inbox := s.inbox.eraseIdx index
        handlers := s.handlers.insert thread ⟨session,.outside,infos⟩ }
    | _, _ => none
  | .advance thread => (s.handlers.lookup thread).map (advance endPoint s thread)
  | .disconnect session => some
    { s with
      -- `onDisconnect` passes over an empty endpoint
      tables := if endPoint session = [] then s.tables else clearGroupInfoByEp s.tables (endPoint session)
      disconnected := session :: s.disconnected }

/-- The pool with empty tables. -/
def pool : System State Label := ⟨⟨⟨∅,∅⟩,[],∅,[],[]⟩,step endPoint⟩

/-! ### The properties -/

/-- Once a session has been disconnected and its messages handled, its endpoint occurs in
    no table unless a later session has reported. -/
def Gone (s : State) : Prop :=
  ∀ session ∈ s.disconnected, (∀ thread handler, s.handlers.lookup thread = some handler → handler.session ≠ session) →
    (∀ message ∈ s.inbox, message.1 ≠ session) →
    (∀ later ∈ s.reported, endPoint later = endPoint session → later ≤ session) →
    endPoint session ∉ s.tables.endPoint2GroupId2GroupInfo ∧
      ∀ group node, ¬ Listed s.tables group node (endPoint session)
/-- While no handler is in progress an endpoint is listed exactly under the nodes of the
    information stored for it. -/
def Agreed (s : State) : Prop :=
  s.handlers = ∅ → ∀ group node e,
    Listed s.tables group node e ↔ ∃ info, infoOf s.tables e group = some info ∧ node ∈ info.nodeInfos

/-- The handler is inside an update of the group for the endpoint. -/
def Inside (e group : Bytes) (handler : Handler) : Prop :=
  endPoint handler.session = e ∧
    ∃ info, info.groupID = group ∧ (handler.progress = .stored info ∨ handler.progress = .cleared info)

/-- No update starts while another of its endpoint and group is under way, or after the
    disconnect of its session or of a later one; no disconnect is handled during an
    update of its endpoint. -/
def Orderly (s : State) : Label → Prop
  | .receive _ _ => True
  | .begin _ _ => True
  | .advance thread => ∀ handler info infos, s.handlers.lookup thread = some handler → handler.progress = .outside →
      handler.pending = info :: infos →
      (∀ other h, s.handlers.lookup other = some h → ¬ Inside endPoint (endPoint handler.session) info.groupID h) ∧
      ∀ session ∈ s.disconnected, endPoint session = endPoint handler.session → session < handler.session
  | .disconnect session => ∀ other h group, s.handlers.lookup other = some h →
      ¬ Inside endPoint (endPoint session) group h

/-! ### The invariant -/

/-- The endpoint occurs in a table, or a handler is inside an update for it. -/
def Present (s : State) (e : Bytes) : Prop :=
  e ∈ s.tables.endPoint2GroupId2GroupInfo ∨ (∃ group node, Listed s.tables group node e) ∨
    ∃ thread h group, s.handlers.lookup thread = some h ∧ Inside endPoint e group h

/-- What orderly steps preserve. -/
structure Inv (s : State) : Prop where
  alone : ∀ e group t t' h h', s.handlers.lookup t = some h → s.handlers.lookup t' = some h' →
    Inside endPoint e group h → Inside endPoint e group h' → t = t'
  agreed : ∀ e group, (∀ t h, s.handlers.lookup t = some h → ¬ Inside endPoint e group h) → ∀ node,
    (Listed s.tables group node e ↔ ∃ info, infoOf s.tables e group = some info ∧ node ∈ info.nodeInfos)
  stored : ∀ t h info, s.handlers.lookup t = some h → h.progress = .stored info ∨ h.progress = .cleared info →
    infoOf s.tables (endPoint h.session) info.groupID = some info
  cleared : ∀ t h info, s.handlers.lookup t = some h → h.progress = .cleared info → ∀ node,
    ¬ Listed s.tables info.groupID node (endPoint h.session)
  present : ∀ e, Present endPoint s e → ∃ session ∈ s.reported, endPoint session = e ∧
    ∀ d ∈ s.disconnected, endPoint d = e → d < session

variable {endPoint} {s : State}

private theorem inside_of_progress {h : Handler} {info : GroupInfo} (under : h.progress = .stored info ∨ h.progress = .cleared info) :
    Inside endPoint (endPoint h.session) info.groupID h := ⟨rfl,info,rfl,under⟩
private theorem inside_elim {h : Handler} {info : GroupInfo} (under : h.progress = .stored info ∨ h.progress = .cleared info)
    {e group : Bytes} (inside : Inside endPoint e group h) : e = endPoint h.session ∧ group = info.groupID := by
  obtain ⟨rfl,other,rfl,progress⟩ := inside
  rcases under with under | under <;> rcases progress with progress | progress <;> simp_all
private theorem not_inside {h : Handler} (outside : h.progress = .outside) (e group : Bytes) : ¬ Inside endPoint e group h := by
  rintro ⟨_,info,_,progress | progress⟩ <;> simp [outside] at progress

theorem inv_start : Inv endPoint (pool endPoint).start where
  alone := by simp [pool]
  agreed := by simp [pool,Listed,endPointsOf,infoOf]
  stored := by simp [pool]
  cleared := by simp [pool]
  present e present := by simp [pool,Present,Listed,endPointsOf] at present

/-- A handler that starts is outside every update. -/
theorem inv_begin (inv : Inv endPoint s) {thread : Nat} (idle : s.handlers.lookup thread = none) (inbox : List (Nat × List GroupInfo))
    (session : Nat) (infos : List GroupInfo) :
    Inv endPoint { s with inbox := inbox, handlers := s.handlers.insert thread ⟨session,.outside,infos⟩ } where
  alone e group t t' h h' found found' inside inside' := by
    rcases lookup_insert_cases found with ⟨_,rfl⟩ | ⟨_,old⟩
    · exact absurd inside (not_inside rfl e group)
    · rcases lookup_insert_cases found' with ⟨_,rfl⟩ | ⟨_,old'⟩
      · exact absurd inside' (not_inside rfl e group)
      · exact inv.alone e group t t' h h' old old' inside inside'
  agreed e group none := by
    refine inv.agreed e group (fun t h found => none t h ?_)
    rw [lookup_insert_if,if_neg (by rintro rfl; simp [idle] at found)]
    exact found
  stored t h info found progress := by
    rcases lookup_insert_cases found with ⟨_,rfl⟩ | ⟨_,old⟩
    · simp at progress
    · exact inv.stored t h info old progress
  cleared t h info found progress := by
    rcases lookup_insert_cases found with ⟨_,rfl⟩ | ⟨_,old⟩
    · simp at progress
    · exact inv.cleared t h info old progress
  present e present := by
    refine inv.present e ?_
    rcases present with known | listed | ⟨t,h,group,found,inside⟩
    · exact .inl known
    · exact .inr (.inl listed)
    · rcases lookup_insert_cases found with ⟨_,rfl⟩ | ⟨_,old⟩
      · exact absurd inside (not_inside rfl e group)
      · exact .inr (.inr ⟨t,h,group,old,inside⟩)

/-- A handler that returns is outside every update. -/
theorem inv_return (inv : Inv endPoint s) {thread : Nat} {handler : Handler}
    (here : s.handlers.lookup thread = some handler) (outside : handler.progress = .outside) :
    Inv endPoint { s with handlers := s.handlers.erase thread } where
  alone e group t t' h h' found found' inside inside' :=
    inv.alone e group t t' h h' (lookup_erase_cases found).2 (lookup_erase_cases found').2 inside inside'
  agreed e group none := by
    refine inv.agreed e group (fun t h found => ?_)
    by_cases same : t = thread
    · rw [same,here,Option.some.injEq] at found
      exact found ▸ not_inside outside e group
    · exact none t h (by rw [lookup_erase_if,if_neg same]; exact found)
  stored t h info found := inv.stored t h info (lookup_erase_cases found).2
  cleared t h info found := inv.cleared t h info (lookup_erase_cases found).2
  present e present := by
    refine inv.present e ?_
    rcases present with known | listed | ⟨t,h,group,found,inside⟩
    · exact .inl known
    · exact .inr (.inl listed)
    · exact .inr (.inr ⟨t,h,group,(lookup_erase_cases found).2,inside⟩)

/-- The first section of an update that no other one overlaps. -/
theorem inv_store (inv : Inv endPoint s) {thread : Nat} {handler : Handler}
    (here : s.handlers.lookup thread = some handler) (outside : handler.progress = .outside) {info : GroupInfo}
    (infos : List GroupInfo) (free : ∀ other h, s.handlers.lookup other = some h →
      ¬ Inside endPoint (endPoint handler.session) info.groupID h)
    (connected : ∀ session ∈ s.disconnected, endPoint session = endPoint handler.session → session < handler.session) :
    Inv endPoint { s with
      tables := updateGroupInfo s.tables (endPoint handler.session) info
      handlers := s.handlers.insert thread { handler with progress := .stored info, pending := infos }
      reported := handler.session :: s.reported } := by
  have entered : ∀ {e group}, Inside endPoint e group { handler with progress := .stored info, pending := infos } →
      e = endPoint handler.session ∧ group = info.groupID := fun inside =>
    inside_elim (h := { handler with progress := .stored info, pending := infos }) (.inl rfl) inside
  refine ⟨?_,?_,?_,?_,?_⟩
  · intro e group t t' h h' found found' inside inside'
    rcases lookup_insert_cases found with ⟨rfl,rfl⟩ | ⟨_,old⟩
    · obtain ⟨rfl,rfl⟩ := entered inside
      rcases lookup_insert_cases found' with ⟨rfl,_⟩ | ⟨_,old'⟩
      · rfl
      · exact absurd inside' (free t' h' old')
    · rcases lookup_insert_cases found' with ⟨rfl,rfl⟩ | ⟨_,old'⟩
      · obtain ⟨rfl,rfl⟩ := entered inside'
        exact absurd inside (free t h old)
      · exact inv.alone e group t t' h h' old old' inside inside'
  · intro e group none node
    have different : ¬ (e = endPoint handler.session ∧ group = info.groupID) := by
      rintro ⟨rfl,rfl⟩
      exact none thread _ (AList.lookup_insert _) ⟨rfl,info,rfl,.inl rfl⟩
    rw [lists_updateGroupInfo,infoOf_updateGroupInfo,if_neg different]
    refine inv.agreed e group (fun t h found => ?_) node
    by_cases same : t = thread
    · rw [same,here,Option.some.injEq] at found
      exact found ▸ not_inside outside e group
    · exact none t h (by rw [lookup_insert_if,if_neg same]; exact found)
  · intro t h other found progress
    rw [infoOf_updateGroupInfo]
    rcases lookup_insert_cases found with ⟨_,rfl⟩ | ⟨_,old⟩
    · simp only [Progress.stored.injEq,reduceCtorEq,or_false] at progress
      rw [if_pos ⟨rfl,by rw [progress]⟩,progress]
    · have apart : ¬ (endPoint h.session = endPoint handler.session ∧ other.groupID = info.groupID) := by
        rintro ⟨sameEndPoint,sameGroup⟩
        exact free t h old ⟨sameEndPoint,other,sameGroup,progress⟩
      rw [if_neg apart]
      exact inv.stored t h other old progress
  · intro t h other found progress node
    rw [lists_updateGroupInfo]
    rcases lookup_insert_cases found with ⟨_,rfl⟩ | ⟨_,old⟩
    · simp at progress
    · exact inv.cleared t h other old progress node
  · intro e present
    by_cases own : e = endPoint handler.session
    · exact ⟨handler.session,List.mem_cons_self,own.symm,fun d member same => connected d member (same.trans own)⟩
    · obtain ⟨session,member,rest⟩ := inv.present e (by
        rcases present with known | listed | ⟨t,h,group,found,inside⟩
        · rw [updateGroupInfo,AList.mem_insert] at known
          exact .inl (known.resolve_left own)
        · exact .inr (.inl listed)
        · rcases lookup_insert_cases found with ⟨_,rfl⟩ | ⟨_,old⟩
          · exact absurd (entered inside).1 own
          · exact .inr (.inr ⟨t,h,group,old,inside⟩))
      exact ⟨session,List.mem_cons_of_mem _ member,rest⟩

/-- The second section of an update. -/
theorem inv_clear (inv : Inv endPoint s) {thread : Nat} {handler : Handler}
    (here : s.handlers.lookup thread = some handler) {info : GroupInfo} (under : handler.progress = .stored info) :
    Inv endPoint { s with
      tables := clearGroupInfoByEpOfGroup s.tables (endPoint handler.session) info.groupID
      handlers := s.handlers.insert thread { handler with progress := .cleared info } } := by
  have entered : ∀ {e group}, Inside endPoint e group { handler with progress := .cleared info } →
      Inside endPoint e group handler := by
    intro e group inside
    obtain ⟨rfl,rfl⟩ := inside_elim (h := { handler with progress := .cleared info }) (.inr rfl) inside
    exact inside_of_progress (.inl under)
  refine ⟨?_,?_,?_,?_,?_⟩
  · intro e group t t' h h' found found' inside inside'
    rcases lookup_insert_cases found with ⟨rfl,rfl⟩ | ⟨_,old⟩
    · rcases lookup_insert_cases found' with ⟨rfl,_⟩ | ⟨_,old'⟩
      · rfl
      · exact inv.alone e group t t' handler h' here old' (entered inside) inside'
    · rcases lookup_insert_cases found' with ⟨rfl,rfl⟩ | ⟨_,old'⟩
      · exact inv.alone e group t t' h handler old here inside (entered inside')
      · exact inv.alone e group t t' h h' old old' inside inside'
  · intro e group none node
    have different : ¬ (group = info.groupID ∧ e = endPoint handler.session) := by
      rintro ⟨rfl,rfl⟩
      exact none thread _ (AList.lookup_insert _) ⟨rfl,info,rfl,.inr rfl⟩
    rw [lists_clearOfGroup,infoOf_clearOfGroup]
    simp only [different,not_false_eq_true,and_true]
    refine inv.agreed e group (fun t h found inside => ?_) node
    by_cases same : t = thread
    · rw [same,here,Option.some.injEq] at found
      subst found
      obtain ⟨rfl,rfl⟩ := inside_elim (.inl under) inside
      exact different ⟨rfl,rfl⟩
    · exact none t h (by rw [lookup_insert_if,if_neg same]; exact found) inside
  · intro t h other found progress
    rw [infoOf_clearOfGroup]
    rcases lookup_insert_cases found with ⟨_,rfl⟩ | ⟨_,old⟩
    · simp only [Progress.cleared.injEq,reduceCtorEq,false_or] at progress
      exact progress ▸ inv.stored thread handler info here (.inl under)
    · exact inv.stored t h other old progress
  · intro t h other found progress node
    rw [lists_clearOfGroup]
    rcases lookup_insert_cases found with ⟨_,rfl⟩ | ⟨_,old⟩
    · simp only [Progress.cleared.injEq] at progress
      exact fun both => both.2 ⟨by rw [progress],rfl⟩
    · exact fun both => inv.cleared t h other old progress node both.1
  · intro e present
    refine inv.present e ?_
    rcases present with known | ⟨group,node,listed⟩ | ⟨t,h,group,found,inside⟩
    · rw [clearGroupInfoByEpOfGroup] at known
      refine .inl ?_
      cases looked : s.tables.group2Node2Endpoints.lookup info.groupID <;> simpa [looked] using known
    · exact .inr (.inl ⟨group,node,(lists_clearOfGroup.mp listed).1⟩)
    · rcases lookup_insert_cases found with ⟨_,rfl⟩ | ⟨_,old⟩
      · exact .inr (.inr ⟨thread,handler,group,here,entered inside⟩)
      · exact .inr (.inr ⟨t,h,group,old,inside⟩)

/-- The last section of an update: the endpoint and the group agree again. -/
theorem inv_insert (inv : Inv endPoint s) {thread : Nat} {handler : Handler}
    (here : s.handlers.lookup thread = some handler) {info : GroupInfo} (under : handler.progress = .cleared info) :
    Inv endPoint { s with
      tables := insertNodes s.tables (endPoint handler.session) info
      handlers := s.handlers.insert thread { handler with progress := .outside } } := by
  have left : ∀ {e group}, ¬ Inside endPoint e group { handler with progress := .outside } :=
    fun {e group} => not_inside rfl e group
  refine ⟨?_,?_,?_,?_,?_⟩
  · intro e group t t' h h' found found' inside inside'
    rcases lookup_insert_cases found with ⟨_,rfl⟩ | ⟨_,old⟩
    · exact absurd inside left
    · rcases lookup_insert_cases found' with ⟨_,rfl⟩ | ⟨_,old'⟩
      · exact absurd inside' left
      · exact inv.alone e group t t' h h' old old' inside inside'
  · intro e group none node
    rw [lists_insertNodes,infoOf_insertNodes]
    by_cases updated : e = endPoint handler.session ∧ group = info.groupID
    · obtain ⟨rfl,rfl⟩ := updated
      have unlisted := inv.cleared thread handler info here under node
      rw [inv.stored thread handler info here (.inr under)]
      simp [unlisted]
    · have same : Listed s.tables group node e ↔ ∃ info, infoOf s.tables e group = some info ∧ node ∈ info.nodeInfos := by
        refine inv.agreed e group (fun t h found inside => ?_) node
        by_cases own : t = thread
        · rw [own,here,Option.some.injEq] at found
          subst found
          exact updated (inside_elim (.inr under) inside)
        · exact none t h (by rw [lookup_insert_if,if_neg own]; exact found) inside
      rw [← same]
      grind
  · intro t h other found progress
    rcases lookup_insert_cases found with ⟨_,rfl⟩ | ⟨_,old⟩
    · simp at progress
    · exact inv.stored t h other old progress
  · intro t h other found progress node
    rcases lookup_insert_cases found with ⟨_,rfl⟩ | ⟨different,old⟩
    · simp at progress
    · rw [lists_insertNodes]
      rintro (listed | ⟨sameGroup,_,sameEndPoint⟩)
      · exact inv.cleared t h other old progress node listed
      · exact different (inv.alone _ _ t thread h handler old here (inside_of_progress (.inr progress))
          (sameEndPoint ▸ sameGroup ▸ inside_of_progress (.inr under)))
  · intro e present
    refine inv.present e ?_
    rcases present with known | ⟨group,node,listed⟩ | ⟨t,h,group,found,inside⟩
    · exact .inl known
    · rcases lists_insertNodes.mp listed with old | ⟨rfl,_,rfl⟩
      · exact .inr (.inl ⟨group,node,old⟩)
      · exact .inr (.inr ⟨thread,handler,_,here,inside_of_progress (.inr under)⟩)
    · rcases lookup_insert_cases found with ⟨_,rfl⟩ | ⟨_,old⟩
      · exact absurd inside left
      · exact .inr (.inr ⟨t,h,group,old,inside⟩)

/-- The disconnect of a session during no update of its endpoint. -/
theorem inv_disconnect (inv : Inv endPoint s) {session : Nat} (named : endPoint session ≠ [])
    (free : ∀ other h group, s.handlers.lookup other = some h → ¬ Inside endPoint (endPoint session) group h) :
    Inv endPoint { s with
      tables := if endPoint session = [] then s.tables else clearGroupInfoByEp s.tables (endPoint session)
      disconnected := session :: s.disconnected } := by
  rw [if_neg named]
  refine ⟨inv.alone,?_,?_,?_,?_⟩
  · intro e group none node
    rw [lists_clear,infoOf_clear,inv.agreed e group none]
    by_cases same : e = endPoint session <;> simp [same]
  · intro t h info found progress
    have apart : endPoint h.session ≠ endPoint session := by
      intro same
      exact free t h info.groupID found (same ▸ inside_of_progress progress)
    rw [infoOf_clear,if_neg apart]
    exact inv.stored t h info found progress
  · intro t h info found progress node listed
    exact inv.cleared t h info found progress node (lists_clear.mp listed).1
  · intro e present
    have other : e ≠ endPoint session ∧ Present endPoint s e := by
      rcases present with known | ⟨group,node,listed⟩ | ⟨t,h,group,found,inside⟩
      · have both := AList.mem_erase.mp known
        exact ⟨both.1,.inl both.2⟩
      · have both := lists_clear.mp listed
        exact ⟨both.2,.inr (.inl ⟨group,node,both.1⟩)⟩
      · refine ⟨?_,.inr (.inr ⟨t,h,group,found,inside⟩)⟩
        rintro rfl
        exact free t h group found inside
    obtain ⟨last,member,same,after⟩ := inv.present e other.2
    refine ⟨last,member,same,?_⟩
    rw [List.forall_mem_cons]
    exact ⟨fun equal => absurd equal.symm other.1,after⟩

/-- Orderly steps preserve the invariant. -/
theorem inv_step (named : ∀ session, endPoint session ≠ []) {l : Label} {t : State} (inv : Inv endPoint s)
    (orderly : Orderly endPoint s l) (stepped : step endPoint s l = some t) : Inv endPoint t := by
  cases l with
  | receive session infos =>
    simp only [step,Option.some.injEq] at stepped
    exact stepped ▸ ⟨inv.alone,inv.agreed,inv.stored,inv.cleared,inv.present⟩
  | begin thread index =>
    rw [step] at stepped
    split at stepped
    · rename_i session infos idle waiting
      cases stepped
      exact inv_begin inv idle _ session infos
    · simp at stepped
  | advance thread =>
    obtain ⟨handler,here,rfl⟩ := Option.map_eq_some_iff.mp stepped
    rw [advance]
    split
    · rename_i info under
      exact inv_clear inv here under
    · rename_i info under
      exact inv_insert inv here under
    · rename_i outside
      split
      · exact inv_return inv here outside
      · rename_i info infos waiting
        obtain ⟨free,connected⟩ := orderly handler info infos here outside waiting
        exact inv_store inv here outside infos free connected
  | disconnect session =>
    simp only [step,Option.some.injEq] at stepped
    exact stepped ▸ inv_disconnect inv (named session) orderly

/-- In every orderly run, in every state reached: the endpoint of a disconnected session
    is gone, and the tables agree while no handler is in progress. -/
theorem consistent_of_orderly (named : ∀ session, endPoint session ≠ [])
    (reachable : (pool endPoint).Reachable (Orderly endPoint) s) : Gone endPoint s ∧ Agreed s := by
  have inv : Inv endPoint s :=
    invariant_of_reachable inv_start (fun s l t inv orderly stepped => inv_step named inv orderly stepped) reachable
  constructor
  · intro session disconnected _ _ last
    have absent : ¬ Present endPoint s (endPoint session) := by
      intro present
      obtain ⟨later,member,same,after⟩ := inv.present _ present
      have := after session disconnected rfl
      have := last later member same
      omega
    exact ⟨fun known => absent (.inl known),fun group node listed => absent (.inr (.inl ⟨group,node,listed⟩))⟩
  · intro idle group node e
    exact inv.agreed e group (fun t h found => by simp [idle] at found) node

/-- In every run of the pool no stored set of endpoints is empty. -/
theorem inhabited_of_reachable (reachable : (pool endPoint).Reachable Any s) : Inhabited s.tables := by
  have first : Inhabited (pool endPoint).start.tables := by
    intro group node endPoints found
    cases found
  refine invariant_of_reachable first (fun (s : State) l t (inhabited : Routing.Inhabited s.tables) _ stepped => ?_) reachable
  show Routing.Inhabited t.tables
  cases l with
  | receive session infos =>
    cases stepped
    exact inhabited
  | begin thread index =>
    simp only [pool,step] at stepped
    split at stepped
    · cases stepped
      exact inhabited
    · cases stepped
  | advance thread =>
    obtain ⟨handler,_,stepped⟩ := Option.map_eq_some_iff.mp stepped
    subst stepped
    simp only [advance]
    split
    · exact inhabited_clearOfGroup inhabited _ _
    · exact inhabited_insertNodes inhabited _ _
    · split <;> exact inhabited
  | disconnect session =>
    cases stepped
    show Inhabited (if endPoint session = [] then s.tables else clearGroupInfoByEp s.tables (endPoint session))
    split
    · exact inhabited
    · exact inhabited_clear s.tables (endPoint session)

/-- The sessions of one endpoint. -/
def oneEndPoint : Nat → Bytes := fun _ => lit "a:1"
/-- A report that is handled, and then the disconnect. -/
def orderlyRun : List Label :=
  [.receive 0 [infoWith (lit "g") [lit "n"]],.begin 0 0,.advance 0,.advance 0,.advance 0,.advance 0,.disconnect 0]

theorem consistent_of_orderlyRun :
    ∃ s, (pool oneEndPoint).run (pool oneEndPoint).start orderlyRun = some s ∧ Gone oneEndPoint s ∧ Agreed s := by
  refine ⟨_,rfl,consistent_of_orderly (by simp [oneEndPoint,lit]) ⟨orderlyRun,?_,rfl⟩⟩
  refine obeys_of_step trivial rfl (obeys_of_step trivial rfl (obeys_of_step ?_ rfl (obeys_of_step ?_ rfl
    (obeys_of_step ?_ rfl (obeys_of_step ?_ rfl (obeys_of_step ?_ rfl trivial))))))
  · intro handler info infos found outside waiting
    refine ⟨fun other h there => ?_,fun session member => by cases member⟩
    rcases lookup_insert_cases there with ⟨_,rfl⟩ | ⟨_,old⟩
    · exact not_inside rfl _ _
    · cases old
  · intro handler info infos found outside
    cases Option.some.inj found
    cases outside
  · intro handler info infos found outside
    cases Option.some.inj found
    cases outside
  · intro handler info infos found outside waiting
    cases Option.some.inj found
    cases waiting
  · intro other h group found
    cases found

/-- Two notifications of one endpoint whose updates overlap. -/
def overlappingRun : List Label :=
  [.receive 0 [infoWith (lit "g") [lit "m"]],.receive 0 [infoWith (lit "g") [lit "n"]],.begin 0 0,.begin 1 0,
    .advance 0,.advance 1,.advance 1,.advance 1,.advance 1,.advance 0,.advance 0,.advance 0]
/-- A notification that is handled after the disconnect of its session. -/
def lateRun : List Label :=
  [.receive 0 [infoWith (lit "g") [lit "n"]],.disconnect 0,.begin 0 0,.advance 0,.advance 0,.advance 0,.advance 0]

/-- Overlapping updates leave the endpoint under a node that it no longer serves, and a
    late one brings a disconnected endpoint back. -/
theorem inconsistent_runs :
    (∃ s, (pool oneEndPoint).Reachable Any s ∧ ¬ Agreed s) ∧
      ∃ s, (pool oneEndPoint).Reachable Any s ∧ ¬ Gone oneEndPoint s := by
  constructor
  · refine ⟨_,⟨overlappingRun,obeys_any _ _,rfl⟩,fun agreed => ?_⟩
    obtain ⟨info,found,member⟩ := (agreed rfl (lit "g") (lit "m") (lit "a:1")).mp ⟨_,rfl,by decide⟩
    have last : infoWith (lit "g") [lit "n"] = info := Option.some.inj found
    rw [← last] at member
    exact absurd member (by decide)
  · refine ⟨_,⟨lateRun,obeys_any _ _,rfl⟩,fun gone => ?_⟩
    have away := gone 0 (List.mem_singleton_self 0) (fun thread handler found => by cases found)
      (fun message member => by cases member) (fun later member _ => (List.mem_singleton.mp member).le)
    exact absurd away.1 (by decide)

end

end CppSdk.RoutingRaces

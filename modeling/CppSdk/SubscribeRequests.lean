import CppSdk.Resubscriptions

/-!
The parameters of the subscribe requests. `subscribeEvent` checks the parameters of the
user once, and `generateJson` writes another `fromBlock` into every request that follows a
delivered block. The check holds of every request of a run that sends a task again only
before the last block of its parameters was delivered (`requests_valid`).
-/
namespace CppSdk.SubscribeRequests
open CppSdk.ByteString CppSdk.Tables CppSdk.Transition
open CppSdk.EventSub hiding State Label start step
open CppSdk.Resubscriptions hiding State Label start step

/-! ### Parameters -/

/-- `EventSubParams`. -/
structure EventSubParams where
  fromBlock : Int64
  toBlock : Int64
  addresses : Finset Bytes
  topics : List (Finset Bytes)

/-- `EVENT_LOG_TOPICS_MAX_INDEX`. -/
def eventLogTopicsMaxIndex : Nat := 4
/-- `CONTRACT_EVENT_TOPIC_LENGTH`. -/
def contractEventTopicLength : Nat := 64

def validEventTopic (topic : Bytes) : Bool :=
  if topic.take 2 = lit "0x" ∨ topic.take 2 = lit "0X" then topic.length == contractEventTopicLength + 2
  else topic.length == contractEventTopicLength

/-- What `verifyParams` checks before the range of the blocks. -/
def EventSubParams.verifyTexts (params : EventSubParams) : Bool :=
  params.topics.length ≤ eventLogTopicsMaxIndex ∧ (∀ topics ∈ params.topics, ∀ topic ∈ topics, validEventTopic topic = true) ∧
    ∀ address ∈ params.addresses, address ≠ []
def EventSubParams.verifyParams (params : EventSubParams) : Bool :=
  if params.verifyTexts then
    if 0 < params.fromBlock ∧ 0 < params.toBlock then params.fromBlock ≤ params.toBlock else true
  else false

/-- The parameters in the request that `generateJson` writes. -/
def generateJson (params : EventSubParams) (task : Task) : EventSubParams := { params with fromBlock := task.requestFrom }

/-! ### Subscriptions with their parameters -/

/-- The subscriptions, and the parameters of each task. -/
structure State where
  pool : Resubscriptions.State
  params : Nat → EventSubParams

/-- What can happen next: the user subscribes, or any other step. -/
inductive Label where
  | subscribe (id : Nat) (params : EventSubParams)
  | other (label : Resubscriptions.Label)

section
variable (endPoint : Nat → Bytes)

/-- A step. Parameters that fail the check make no task. -/
def step (s : State) : Label → Option State
  | .subscribe id params =>
    if params.verifyParams then
      (Resubscriptions.step endPoint s.pool (.subscribe id params.fromBlock)).map
        (fun pool => ⟨pool,Function.update s.params id params⟩)
    else some s
  | .other (.subscribe _ _) => none
  | .other label => (Resubscriptions.step endPoint s.pool label).map (fun pool => { s with pool := pool })

/-- No task, no request, no thread. -/
def start : State := ⟨Resubscriptions.start,fun _ => ⟨0,-1,∅,[]⟩⟩
/-- The subscriptions with their parameters. -/
def subscriptions : System State Label := ⟨start,step endPoint⟩
end

/-- The parameters in the requests for a task so far. -/
def State.requested (s : State) (id : Nat) : List EventSubParams :=
  (s.pool.members.tasks id).requested.map (fun request => { s.params id with fromBlock := request.1 })

/-- The last block of the parameters was not delivered, nor one after it. With a `toBlock` this keeps
    the current block below the greatest number, whose successor overflows. -/
def Remains (params : EventSubParams) (task : Task) : Prop :=
  0 < task.currentBlockNumber → 0 < params.toBlock → task.currentBlockNumber < params.toBlock
instance {params : EventSubParams} {task : Task} : Decidable (Remains params task) :=
  inferInstanceAs (Decidable (_ → _ → _))

/-- A task is sent again only while blocks remain. -/
def Timely (s : State) : Label → Prop
  | .other (.send thread _) => match s.pool.threads.lookup thread with
    | some (.sending id _) => Remains (s.params id) (s.pool.members.tasks id)
    | _ => True
  | _ => True
instance {s : State} : ∀ l, Decidable (Timely s l)
  | .other (.send thread _) =>
    match found : s.pool.threads.lookup thread with
    | some (.sending id _) => decidable_of_iff (Remains (s.params id) (s.pool.members.tasks id)) (by simp [Timely,found])
    | none | some (.apart _) | some (.walking _) | some (.releasing _ _) => .isTrue (by simp [Timely,found])
  | .subscribe _ _ | .other (.subscribe _ _) | .other (.disconnect _) | .other (.begin _ _) | .other (.advance _)
  | .other (.walk _ _) => .isTrue trivial

/-! ### One request -/

section
variable {params : EventSubParams} {task : Task}

private theorem verifyParams_iff : params.verifyParams = true ↔
    params.verifyTexts = true ∧ (0 < params.fromBlock.toInt → 0 < params.toBlock.toInt → params.fromBlock.toInt ≤ params.toBlock.toInt) := by
  simp only [EventSubParams.verifyParams,Int64.lt_iff_toInt_lt,Int64.le_iff_toInt_le,Int64.toInt_zero]
  by_cases texts : params.verifyTexts = true <;> by_cases bounded : 0 < params.fromBlock.toInt ∧ 0 < params.toBlock.toInt
  · simp [texts,bounded]
  · simp only [texts,if_true,if_neg bounded,true_and]
    exact iff_of_true trivial (fun low high => absurd ⟨low,high⟩ bounded)
  · simp [texts]
  · simp [texts]

/-- The next request for a task with valid parameters is valid when blocks remain, and
    only then while the number after the current block is one. -/
theorem verifyParams_generateJson (valid : params.verifyParams = true) (same : task.fromBlock = params.fromBlock) :
    (Remains params task → (generateJson params task).verifyParams = true) ∧
      (task.currentBlockNumber < Int64.maxValue → (generateJson params task).verifyParams = true → Remains params task) := by
  obtain ⟨texts,range⟩ := verifyParams_iff.mp valid
  have next : (generateJson params task).verifyParams = true ↔
      (0 < task.requestFrom.toInt → 0 < params.toBlock.toInt → task.requestFrom.toInt ≤ params.toBlock.toInt) :=
    verifyParams_iff.trans (and_iff_right texts)
  rw [next]
  simp only [Remains,Int64.lt_iff_toInt_lt,Int64.toInt_zero,Task.requestFrom]
  by_cases resumed : 0 < task.currentBlockNumber.toInt
  · have high := Int64.toInt_le task.currentBlockNumber
    have fits : task.currentBlockNumber.toInt < Int64.maxValue.toInt →
        (task.currentBlockNumber + 1).toInt = task.currentBlockNumber.toInt + 1 := by
      intro less
      rw [Int64.toInt_maxValue] at less
      rw [Int64.toInt_add,Int64.toInt_one,Int.bmod_eq_of_le] <;> omega
    simp only [resumed,if_true,true_implies]
    constructor
    · intro remains _ bounded
      have before := remains bounded
      have top := Int64.toInt_le params.toBlock
      rw [fits (by omega)]
      omega
    · intro less valid bounded
      rw [fits less] at valid
      have := valid (by omega) bounded
      omega
  · simp only [if_neg resumed,same]
    exact ⟨fun _ => range,fun _ _ positive => absurd positive resumed⟩

end

/-! ### Runs -/

/-- The requests of a task so far, and its own parameters, pass the check. -/
def Checked (s : State) (id : Nat) : Prop :=
  (s.pool.members.tasks id).fromBlock = (s.params id).fromBlock ∧ (s.params id).verifyParams = true ∧
    ∀ params ∈ s.requested id, params.verifyParams = true

/-- A section that leaves the parameters and the requests of the tasks as they were. -/
def SameRequests (m n : Members) : Prop :=
  ∀ id, (n.tasks id).fromBlock = (m.tasks id).fromBlock ∧ (n.tasks id).requested = (m.tasks id).requested

section
variable {endPoint : Nat → Bytes} {s : State}

private theorem checked_of_same {pool : Resubscriptions.State} (same : SameRequests s.pool.members pool.members)
    (checked : ∀ id, Checked s id) (id : Nat) : Checked { s with pool := pool } id := by
  obtain ⟨first,valid,all⟩ := checked id
  obtain ⟨from_same,requested_same⟩ := same id
  refine ⟨from_same.trans first,valid,?_⟩
  simpa only [State.requested,requested_same] using all

private theorem same_modify (m : Members) (id : Nat) (change : Task → Task)
    (kept : ∀ task, (change task).fromBlock = task.fromBlock ∧ (change task).requested = task.requested) :
    SameRequests m (m.modify id change) := by
  intro other
  by_cases own : other = id
  · subst own
    simpa [Members.modify] using kept (m.tasks other)
  · simp [Members.modify,own]

private theorem same_advance (m : Members) {what : Thread} (other : what ≠ .looping) :
    SameRequests m (EventSub.advance m what).1 := by
  cases what with
  | looping => exact absurd rfl other
  | answered id again session =>
    exact same_modify m id (fun task => { task with session := some session }) (fun _ => ⟨rfl,rfl⟩)
  | storing id block rest late =>
    exact same_modify m id (fun task => { task with currentBlockNumber := block }) (fun _ => ⟨rfl,rfl⟩)
  | delivering id blocks late =>
    exact same_modify m id (fun task => { task with delivered := task.delivered ++ blocks }) (fun _ => ⟨rfl,rfl⟩)
  | adding _ _ | finishing _ _ | pushed _ _ _ _ | ending _ _ | calling _ _ | comparing _ _ _ _ | unsubscribing _ =>
    exact fun id => ⟨rfl,rfl⟩

private theorem same_begin {m : Members} {work : Work} {turn : Members × Option Thread} (begun : EventSub.begin m work = some turn) :
    SameRequests m turn.1 := by
  cases work with
  | respond request answer =>
    by_cases listed : request ∈ m.requests
    · simp only [EventSub.begin,listed,if_true,Option.some.injEq] at begun
      subst begun
      exact fun id => ⟨rfl,rfl⟩
    · simp [EventSub.begin,listed] at begun
  | push _ _ _ | tick _ | unsubscribe _ =>
    cases begun
    exact fun id => ⟨rfl,rfl⟩

private theorem same_suspendTasks (m : Members) (session : Nat) : SameRequests m (suspendTasks endPoint m session) := by
  intro id
  by_cases left : id ∈ leaving endPoint m session <;> simp [suspendTasks,left]

/-- Every step of the pool but a subscription and a request leaves the requests as they were. -/
theorem same_step {pool next : Resubscriptions.State} {l : Resubscriptions.Label}
    (stepped : Resubscriptions.step endPoint pool l = some next) (first : ∀ id fromBlock, l ≠ .subscribe id fromBlock)
    (again : ∀ thread sent, l ≠ .send thread sent) : SameRequests pool.members next.members := by
  cases l with
  | subscribe id fromBlock => exact absurd rfl (first id fromBlock)
  | send thread sent => exact absurd rfl (again thread sent)
  | disconnect session =>
    simp only [Resubscriptions.step] at stepped
    split at stepped <;> cases stepped
    exact same_suspendTasks _ session
  | begin thread work =>
    simp only [Resubscriptions.step] at stepped
    split at stepped
    case isTrue =>
      obtain ⟨turn,begun,rfl⟩ := Option.map_eq_some_iff.mp stepped
      exact same_begin begun
    case isFalse => cases stepped
  | advance thread =>
    obtain ⟨what,found,goes⟩ := Option.bind_eq_some_iff.mp stepped
    obtain ⟨turn,advanced,rfl⟩ := Option.map_eq_some_iff.mp goes
    cases what with
    | apart what =>
      by_cases loop : what = .looping
      · subst loop
        cases advanced
      · rw [advance_apart loop] at advanced
        split at advanced <;> cases advanced
        exact same_advance _ loop
    | walking rest =>
      cases advanced
      cases rest with
      | nil => exact fun id => ⟨rfl,rfl⟩
      | cons task rest =>
        by_cases waiting : task ∈ pool.members.waitRespTasks <;> simp [SameRequests,Resubscriptions.State.after,addWaitResp,waiting]
    | sending task rest => cases advanced
    | releasing task rest =>
      cases advanced
      exact fun id => ⟨rfl,rfl⟩
  | walk thread order =>
    simp only [Resubscriptions.step] at stepped
    split at stepped
    case h_1 =>
      split at stepped <;> cases stepped
      exact fun id => ⟨rfl,rfl⟩
    case h_2 => cases stepped

/-- A request of the loop for a task of which blocks remain. -/
theorem checked_send (checked : ∀ id, Checked s id) {thread task : Nat} {rest : List Nat} (sent : Bool)
    (remains : Remains (s.params task) (s.pool.members.tasks task)) (id : Nat) :
    Checked { s with pool := s.pool.after thread (send s.pool.members task rest sent) } id := by
  have tasks : (send s.pool.members task rest sent).1.tasks = (s.pool.members.modify task Task.request).tasks := by
    cases sent <;> rfl
  obtain ⟨first,valid,all⟩ := checked id
  by_cases own : id = task
  · subst own
    have next := (verifyParams_generateJson valid first).1 remains
    refine ⟨?_,valid,?_⟩
    · simpa [Resubscriptions.State.after,tasks,Members.modify,Task.request] using first
    · simp only [State.requested,Resubscriptions.State.after,tasks,Members.modify,Function.update_self,Task.request,List.map_cons]
      exact List.forall_mem_cons.mpr ⟨next,all⟩
  · have kept : (send s.pool.members task rest sent).1.tasks id = s.pool.members.tasks id := by
      simp [tasks,Members.modify,own]
    refine ⟨by simpa only [Resubscriptions.State.after,kept] using first,valid,?_⟩
    simpa only [State.requested,Resubscriptions.State.after,kept] using all

/-- A task that the user subscribes with valid parameters. -/
theorem checked_subscribe (checked : ∀ id, Checked s id) {task : Nat} {params : EventSubParams} (valid : params.verifyParams = true)
    (id : Nat) : Checked ⟨{ s.pool with members := subscribe s.pool.members task params.fromBlock },Function.update s.params task params⟩ id := by
  by_cases own : id = task
  · subst own
    refine ⟨by simp [subscribe,Task.request,newTask],by simpa using valid,?_⟩
    simpa [State.requested,subscribe,Task.request,newTask,Task.requestFrom] using valid
  · simpa [Checked,State.requested,subscribe,own] using checked id

private theorem checked_of_timely (reachable : (subscriptions endPoint).Reachable Timely s) : ∀ id, Checked s id := by
  refine @invariant_of_reachable _ _ (subscriptions endPoint) Timely (fun s => ∀ id, Checked s id) ?_ ?_ s reachable
  · intro id
    have valid : (⟨0,-1,∅,[]⟩ : EventSubParams).verifyParams = true := by decide
    refine ⟨rfl,valid,fun params listed => ?_⟩
    simp [State.requested,subscriptions,start,Resubscriptions.start,EventSub.start,newTask] at listed
  · intro s l t checked timely stepped
    have others : ∀ label, (∀ id fromBlock, label ≠ .subscribe id fromBlock) → (∀ thread sent, label ≠ .send thread sent) →
        (Resubscriptions.step endPoint s.pool label).map (fun pool => { s with pool := pool }) = some t → ∀ id, Checked t id := by
      intro label first again goes
      obtain ⟨pool,moved,rfl⟩ := Option.map_eq_some_iff.mp goes
      exact checked_of_same (same_step moved first again) checked
    cases l with
    | subscribe task params =>
      simp only [subscriptions,step] at stepped
      split at stepped
      case isTrue valid =>
        obtain ⟨pool,made,rfl⟩ := Option.map_eq_some_iff.mp stepped
        simp only [Resubscriptions.step] at made
        split at made <;> cases made
        exact checked_subscribe checked valid
      case isFalse =>
        cases stepped
        exact checked
    | other label =>
      cases label with
      | subscribe _ _ => cases stepped
      | send thread sent =>
        obtain ⟨pool,goes,rfl⟩ := Option.map_eq_some_iff.mp stepped
        simp only [Resubscriptions.step] at goes
        split at goes
        case h_1 task rest found =>
          cases goes
          simp only [Timely,found] at timely
          exact checked_send checked sent timely
        case h_2 => cases goes
      | disconnect _ | begin _ _ | advance _ | walk _ _ => exact others _ (by simp) (by simp) stepped

/-- In every run that sends a task again only while blocks remain, all requests of all
    tasks pass the check. And the next request for a task passes only while blocks remain,
    as long as the number after its current block is one. -/
theorem requests_valid (reachable : (subscriptions endPoint).Reachable Timely s) (id : Nat) :
    (∀ params ∈ s.requested id, params.verifyParams = true) ∧
      ((s.pool.members.tasks id).currentBlockNumber < Int64.maxValue →
        ((generateJson (s.params id) (s.pool.members.tasks id)).verifyParams = true ↔
          Remains (s.params id) (s.pool.members.tasks id))) := by
  obtain ⟨first,valid,all⟩ := checked_of_timely reachable id
  have next := verifyParams_generateJson valid first
  exact ⟨all,fun fits => ⟨next.2 fits,next.1⟩⟩

end

/-- A task with the given parameters that is acknowledged, a push of block 5, and the task
    sent again after a disconnect. -/
def resubscribed (params : EventSubParams) : List Label :=
  .subscribe 0 params :: ([.begin 0 (.respond ⟨0,false⟩ (.success 0)),.advance 0,.advance 0,.advance 0,
    .begin 0 (.push 0 .success [5]),.advance 0,.advance 0,.advance 0,.advance 0,
    .disconnect 0,.begin 0 (.tick true),.walk 0 [0],.advance 0,.send 0 true] : List Resubscriptions.Label).map .other

theorem requests_valid_resubscribed : ∃ s : State, (s.pool.members.tasks 0).requested = [(6,[5]),(1,[])] ∧
    ∀ params ∈ s.requested 0, params.verifyParams = true := by
  have timely : (subscriptions oneEndPoint).Obeys Timely (subscriptions oneEndPoint).start (resubscribed ⟨1,9,∅,[]⟩) := by
    decide +kernel
  obtain ⟨s,reachable,checked⟩ := exists_of_run timely
    (fun s => decide ((s.pool.members.tasks 0).requested = [(6,[5]),(1,[])])) (by decide +kernel)
  exact ⟨s,of_decide_eq_true checked,(requests_valid reachable 0).1⟩

/-- A subscription up to block 5 that is interrupted after block 5 asks for the blocks from 6 to 5. -/
theorem requests_break : ∃ s : State, (subscriptions oneEndPoint).Reachable Any s ∧
    ∃ params ∈ s.requested 0, params.fromBlock = 6 ∧ params.toBlock = 5 ∧ params.verifyParams = false := by
  obtain ⟨s,reachable,checked⟩ := exists_of_run (M := subscriptions oneEndPoint) (obeys_any _ (resubscribed ⟨1,5,∅,[]⟩))
    (fun s => (s.requested 0).any (fun params => params.fromBlock = 6 ∧ params.toBlock = 5 ∧ params.verifyParams = false))
    (by decide +kernel)
  obtain ⟨params,listed,invalid⟩ := List.any_eq_true.mp checked
  exact ⟨s,reachable,params,listed,of_decide_eq_true invalid⟩

end CppSdk.SubscribeRequests

import CppSdk.ByteString
import CppSdk.Tables
import CppSdk.Transition
import Mathlib

/-!
The event subscriptions of `EventSub` under a thread pool: the user subscribes and
unsubscribes, responses and pushes are handled by threads, sessions disconnect, and
`doLoop` sends suspended tasks again. Each locked section, atomic access and send is one
step. Tasks are named by their ids, which `newSeq` does not repeat, so the two maps of
tasks are sets of ids.
-/
namespace CppSdk.EventSub
open CppSdk.ByteString CppSdk.Tables CppSdk.Transition

/-! ### Tasks and messages -/

/-- `EventSubTask` with its state: the `fromBlock` of its parameters, its session and
    `m_currentBlockNumber`. For the record: the blocks delivered to its callback, and its
    subscribe requests, the last one first, each with what had been delivered by then. -/
structure Task where
  fromBlock : Int64
  session : Option Nat
  currentBlockNumber : Int64
  delivered : List Int64
  requested : List (Int64 × List Int64)

/-- A task as `subscribeEvent` makes it. -/
def newTask (fromBlock : Int64) : Task := ⟨fromBlock,none,-1,[],[]⟩

/-- The `fromBlock` that `generateJson` writes into a subscribe request. The sum overflows at the
    greatest number, which C++ leaves undefined; here it wraps around. -/
def Task.requestFrom (task : Task) : Int64 :=
  if 0 < task.currentBlockNumber then task.currentBlockNumber + 1 else task.fromBlock

/-- The task after a subscribe request. -/
def Task.request (task : Task) : Task :=
  { task with requested := (task.requestFrom,task.delivered) :: task.requested }

/-- A subscribe request that was sent: `again` when `doLoop` sent it. -/
structure Request where
  id : Nat
  again : Bool
  deriving DecidableEq

/-- The response to a subscribe request, or the error instead of one. -/
inductive Answer where
  | error
  | malformed
  | refused
  | success (session : Nat)

/-- The status of a push. -/
inductive Status where
  | success
  | endOfPush
  | failure

/-- What a thread does next. A push is `late` when its handler started after
    `unsubscribeEvent` had returned for its id. -/
inductive Thread where
  /-- `setSession` of a successful response. -/
  | answered (id : Nat) (again : Bool) (session : Nat)
  /-- `addTask`. -/
  | adding (id : Nat) (again : Bool)
  /-- The callback of `subscribeEvent`. -/
  | finishing (id : Nat) (again : Bool)
  /-- `getTask` of a push. -/
  | pushed (id : Nat) (status : Status) (blocks : List Int64) (late : Bool)
  /-- `getTaskAndRemove` at the end of the pushes. -/
  | ending (id : Nat) (late : Bool)
  /-- The callback of the task. -/
  | calling (id : Nat) (late : Bool)
  /-- The load in `setCurrentBlockNumber`, with the first block of a push and the others. -/
  | comparing (id : Nat) (block : Int64) (rest : List Int64) (late : Bool)
  /-- The store in `setCurrentBlockNumber`. -/
  | storing (id : Nat) (block : Int64) (rest : List Int64) (late : Bool)
  /-- The callback of the task with the pushed blocks. -/
  | delivering (id : Nat) (blocks : List Int64) (late : Bool)
  /-- The loop of `doLoop` over the suspended tasks. -/
  | looping
  /-- The rest of `unsubscribeEvent`. -/
  | unsubscribing (id : Nat)

/-- A subscribe request, or a call of a task's callback with a push. Either is `late`
    when `unsubscribeEvent` had returned for the id. -/
inductive Event where
  | subscribed (id : Nat) (late : Bool)
  | called (id : Nat) (late : Bool)
  deriving DecidableEq

/-! ### State -/

/-- The members of `EventSub` and the requests without a response. For the record: the
    ids given out, the sessions whose disconnect has been handled, the ids that `addTask`
    acknowledged and no removal was called for since, the ids for which
    `unsubscribeEvent` has returned, and the events. -/
structure Members where
  tasks : Nat → Task
  workingTasks : Finset Nat
  suspendTasks : Finset Nat
  suspendTasksCount : UInt32
  waitRespTasks : Finset Nat
  requests : Multiset Request
  issued : Finset Nat
  disconnected : Finset Nat
  acknowledged : Finset Nat
  returned : Finset Nat
  log : Multiset Event

/-- The members, and what each thread of the pool that is not idle does next. -/
structure State where
  members : Members
  threads : Table Nat Thread

/-- What a thread that is idle can take on: a response, a push, a tick of the timer, with
    sessions or without, or the user's call. -/
inductive Work where
  | respond (request : Request) (answer : Answer)
  | push (id : Nat) (status : Status) (blocks : List Int64)
  | tick (sessions : Bool)
  | unsubscribe (id : Nat)

/-- What can happen next. -/
inductive Label where
  | subscribe (id : Nat) (fromBlock : Int64)
  | disconnect (session : Nat)
  | begin (thread : Nat) (work : Work)
  | advance (thread : Nat)

/-! ### Sections -/

/-- `addTask`. -/
def addTask (m : Members) (id : Nat) : Members :=
  { m with
    workingTasks := insert id m.workingTasks
    suspendTasks := m.suspendTasks.erase id
    suspendTasksCount := if id ∈ m.suspendTasks then m.suspendTasksCount - 1 else m.suspendTasksCount }

/-- `getTaskAndRemove`, which looks among the suspended tasks only when the task is not
    working. -/
def getTaskAndRemove (m : Members) (id : Nat) : Members :=
  { m with
    workingTasks := m.workingTasks.erase id
    suspendTasks := if id ∈ m.workingTasks then m.suspendTasks else m.suspendTasks.erase id
    suspendTasksCount :=
      if id ∉ m.workingTasks ∧ id ∈ m.suspendTasks then m.suspendTasksCount - 1 else m.suspendTasksCount }

section
variable (endPoint : Nat → Bytes)

/-- The working tasks that `suspendTasks` takes: those of the endpoint and those without
    a session. -/
def leaving (m : Members) (session : Nat) : Finset Nat :=
  m.workingTasks.filter (fun id => (m.tasks id).session.all (fun other => endPoint other = endPoint session))

/-- `suspendTasks`. -/
def suspendTasks (m : Members) (session : Nat) : Members :=
  { m with
    tasks := fun id => if id ∈ leaving endPoint m session then { m.tasks id with session := none } else m.tasks id
    workingTasks := m.workingTasks \ leaving endPoint m session
    suspendTasks := m.suspendTasks ∪ leaving endPoint m session
    suspendTasksCount := m.suspendTasksCount + UInt32.ofNat (leaving endPoint m session \ m.suspendTasks).card
    disconnected := insert session m.disconnected }
end

/-- The suspended tasks that `doLoop` sends: those that wait for no response. -/
def resent (m : Members) : Finset Nat := m.suspendTasks \ m.waitRespTasks

/-- The loop of `doLoop`. -/
def resend (m : Members) : Members :=
  { m with
    tasks := fun id => if id ∈ resent m then (m.tasks id).request else m.tasks id
    waitRespTasks := m.waitRespTasks ∪ m.suspendTasks
    requests := m.requests + (resent m).val.map (fun id => ⟨id,true⟩)
    log := m.log + (resent m).val.map (fun id => .subscribed id (id ∈ m.returned)) }

/-- A task changed. -/
def Members.modify (m : Members) (id : Nat) (change : Task → Task) : Members :=
  { m with tasks := Function.update m.tasks id (change (m.tasks id)) }
/-- An event recorded. -/
def Members.record (m : Members) (event : Event) : Members := { m with log := event ::ₘ m.log }

/-- The next section of a thread, and what the thread does after it. -/
def advance (m : Members) : Thread → Members × Option Thread
  | .answered id again session =>
    (m.modify id (fun task => { task with session := some session }),some (.adding id again))
  | .adding id again => ({ addTask m id with acknowledged := insert id m.acknowledged },some (.finishing id again))
  | .finishing id again => ({ m with waitRespTasks := if again then m.waitRespTasks.erase id else m.waitRespTasks },none)
  | .pushed id status blocks late =>
    (m,if id ∈ m.workingTasks ∪ m.suspendTasks then
      match status, blocks with
      | .success, [] => some (.delivering id [] late)
      | .success, block :: rest => some (.comparing id block rest late)
      | _, _ => some (.ending id late)
    else none)
  | .ending id late => ({ getTaskAndRemove m id with acknowledged := m.acknowledged.erase id },some (.calling id late))
  | .calling id late => (m.record (.called id late),none)
  | .comparing id block rest late =>
    (m,some (if (m.tasks id).currentBlockNumber < block then .storing id block rest late
      else .delivering id (block :: rest) late))
  | .storing id block rest late =>
    (m.modify id (fun task => { task with currentBlockNumber := block }),some (.delivering id (block :: rest) late))
  | .delivering id blocks late =>
    ((m.modify id (fun task => { task with delivered := task.delivered ++ blocks })).record (.called id late),none)
  | .looping => (resend m,none)
  | .unsubscribing id => ({ m with returned := insert id m.returned },none)

/-- What an idle thread does first, and what it does after it. -/
def begin (m : Members) : Work → Option (Members × Option Thread)
  | .respond request answer =>
    if request ∈ m.requests then
      some ({ m with requests := m.requests.erase request },match answer with
        | .success session => some (.answered request.id request.again session)
        | _ => some (.finishing request.id request.again))
    else none
  | .push id status blocks => some (m,some (.pushed id status blocks (id ∈ m.returned)))
  | .tick sessions => some (m,if m.suspendTasksCount ≠ 0 ∧ sessions = true then some .looping else none)
  | .unsubscribe id =>
    some ({ getTaskAndRemove m id with acknowledged := m.acknowledged.erase id },some (.unsubscribing id))

/-- The first subscribe request of a task. -/
def subscribe (m : Members) (id : Nat) (fromBlock : Int64) : Members :=
  { m with
    tasks := Function.update m.tasks id (newTask fromBlock).request
    requests := ⟨id,false⟩ ::ₘ m.requests
    issued := insert id m.issued
    log := .subscribed id (id ∈ m.returned) ::ₘ m.log }

/-- The state after the section of a thread. -/
def State.after (s : State) (thread : Nat) (turn : Members × Option Thread) : State :=
  ⟨turn.1,put s.threads thread turn.2⟩

section
variable (endPoint : Nat → Bytes)

/-- A step of the pool. -/
def step (s : State) : Label → Option State
  | .subscribe id fromBlock =>
    if id ∈ s.members.issued then none else some { s with members := subscribe s.members id fromBlock }
  | .disconnect session => some { s with members := suspendTasks endPoint s.members session }
  | .begin thread work =>
    if (s.threads.lookup thread).isNone then (begin s.members work).map (s.after thread) else none
  | .advance thread => (s.threads.lookup thread).map (fun what => s.after thread (advance s.members what))

/-- No task, no request, no thread. -/
def start : State := ⟨⟨fun _ => newTask 0,∅,∅,0,∅,0,∅,∅,∅,∅,0⟩,∅⟩
/-- The subscriptions under a thread pool. -/
def pool : System State Label := ⟨start,step endPoint⟩

variable {endPoint}

/-- What the four kinds of steps preserve holds in every state reached. -/
theorem invariant_of_pool {allowed : State → Label → Prop} {I : State → Prop} (first : I start)
    (subscribes : ∀ s id fromBlock, I s → allowed s (.subscribe id fromBlock) → id ∉ s.members.issued →
      I { s with members := subscribe s.members id fromBlock })
    (disconnects : ∀ s session, I s → allowed s (.disconnect session) →
      I { s with members := suspendTasks endPoint s.members session })
    (begins : ∀ s thread work turn, I s → allowed s (.begin thread work) → s.threads.lookup thread = none →
      begin s.members work = some turn → I (s.after thread turn))
    (advances : ∀ s thread what, I s → allowed s (.advance thread) → s.threads.lookup thread = some what →
      I (s.after thread (advance s.members what)))
    {s : State} (reachable : (pool endPoint).Reachable allowed s) : I s := by
  refine invariant_of_reachable first (fun s l t inv permitted stepped => ?_) reachable
  cases l with
  | subscribe id fromBlock =>
    by_cases known : id ∈ s.members.issued
    · simp [pool,step,known] at stepped
    · simp only [pool,step,known,if_false,Option.some.injEq] at stepped
      exact stepped ▸ subscribes s id fromBlock inv permitted known
  | disconnect session =>
    simp only [pool,step,Option.some.injEq] at stepped
    exact stepped ▸ disconnects s session inv permitted
  | begin thread work =>
    simp only [pool,step,Option.isNone_iff_eq_none] at stepped
    by_cases idle : s.threads.lookup thread = none
    · rw [if_pos idle] at stepped
      obtain ⟨turn,begun,rfl⟩ := Option.map_eq_some_iff.mp stepped
      exact begins s thread work turn inv permitted idle begun
    · rw [if_neg idle] at stepped
      cases stepped
  | advance thread =>
    obtain ⟨what,found,rfl⟩ := Option.map_eq_some_iff.mp stepped
    exact advances s thread what inv permitted found

end

/-- The sessions of one endpoint. -/
def oneEndPoint : Nat → Bytes := fun _ => lit "a:1"

/-! ### Tasks in the maps -/

/-- The task that a thread has. -/
def Thread.task : Thread → Option Nat
  | .answered id _ _ | .adding id _ | .finishing id _ | .ending id _ | .calling id _ | .comparing id _ _ _
  | .storing id _ _ _ | .delivering id _ _ => some id
  | .pushed _ _ _ _ | .looping | .unsubscribing _ => none

/-- A thread is about to add the task. -/
def State.Adding (s : State) (id : Nat) : Prop := ∃ thread again, s.threads.lookup thread = some (.adding id again)
/-- The id is in one of the two maps. -/
def Members.Tabled (m : Members) (id : Nat) : Prop := id ∈ m.workingTasks ∨ id ∈ m.suspendTasks

/-- No id is in both maps, and whatever a map, a request or a thread names was given out. -/
structure Sound (s : State) : Prop where
  apart : ∀ id ∈ s.members.workingTasks, id ∉ s.members.suspendTasks
  tabled : ∀ id, s.members.Tabled id → id ∈ s.members.issued
  requested : ∀ request ∈ s.members.requests, request.id ∈ s.members.issued
  held : ∀ thread what id, s.threads.lookup thread = some what → what.task = some id → id ∈ s.members.issued

section
variable {endPoint : Nat → Bytes} {m : Members} {s : State}

theorem mem_leaving {session id : Nat} : id ∈ leaving endPoint m session ↔
    id ∈ m.workingTasks ∧ ∀ other, (m.tasks id).session = some other → endPoint other = endPoint session := by
  simp [leaving,Option.all_eq_true]

/-- A thread that is about to add a task still is after the section of another thread. -/
theorem adding_after {thread : Nat} {turn : Members × Option Thread} {id : Nat}
    (here : ∀ again, s.threads.lookup thread ≠ some (.adding id again)) (adding : s.Adding id) :
    (s.after thread turn).Adding id := by
  obtain ⟨other,again,found⟩ := adding
  refine ⟨other,again,?_⟩
  rw [State.after,lookup_put,if_neg]
  · exact found
  · rintro rfl
    exact here again found

theorem tabled_addTask {id other : Nat} : (addTask m id).Tabled other ↔ other = id ∨ m.Tabled other := by
  simp only [Members.Tabled,addTask,Finset.mem_insert,Finset.mem_erase]
  grind
theorem tabled_suspendTasks {session id : Nat} : (suspendTasks endPoint m session).Tabled id ↔ m.Tabled id := by
  simp only [Members.Tabled,suspendTasks,Finset.mem_sdiff,Finset.mem_union,mem_leaving]
  grind
/-- A removed task is in neither map, and the others stay where they are. -/
theorem tabled_getTaskAndRemove (apart : ∀ id ∈ m.workingTasks, id ∉ m.suspendTasks) {id other : Nat} :
    (getTaskAndRemove m id).Tabled other ↔ other ≠ id ∧ m.Tabled other := by
  have only := apart id
  by_cases working : id ∈ m.workingTasks <;>
    simp only [Members.Tabled,getTaskAndRemove,working,if_true,if_false,Finset.mem_erase] <;> grind
private theorem apart_getTaskAndRemove (apart : ∀ id ∈ m.workingTasks, id ∉ m.suspendTasks) (id : Nat) :
    ∀ other ∈ (getTaskAndRemove m id).workingTasks, other ∉ (getTaskAndRemove m id).suspendTasks := by
  intro other working suspended
  have before : other ∈ m.workingTasks := Finset.mem_of_mem_erase working
  simp only [getTaskAndRemove] at suspended
  split at suspended
  · exact apart other before suspended
  · exact apart other before (Finset.mem_of_mem_erase suspended)

/-- A thread that goes on has the task that it had, or the one it found in a map. -/
theorem task_advance {what next : Thread} {id : Nat} (goes : (advance m what).2 = some next) (task : next.task = some id) :
    what.task = some id ∨ m.Tabled id := by
  cases what with
  | answered _ _ _ | adding _ _ | ending _ _ | storing _ _ _ _ =>
    cases goes
    exact .inl task
  | comparing other block blocks late =>
    cases goes
    refine .inl ?_
    split at task <;> exact task
  | pushed other status blocks late =>
    refine .inr ?_
    by_cases tabled : other ∈ m.workingTasks ∪ m.suspendTasks
    · have same : other = id := by
        simp only [advance,tabled,if_true] at goes
        cases status <;> cases blocks <;> (cases goes; exact Option.some.inj task)
      exact same ▸ Finset.mem_union.mp tabled
    · simp [advance,tabled] at goes
  | finishing _ _ | calling _ _ | delivering _ _ _ | looping | unsubscribing _ => cases goes

/-- Only a request that waits is answered. -/
theorem listed_of_begun {request : Request} {answer : Answer} {turn : Members × Option Thread}
    (begun : begin m (.respond request answer) = some turn) : request ∈ m.requests := by
  by_contra absent
  simp [begin,absent] at begun
/-- A thread that starts has a task only from a request. -/
theorem task_begin {work : Work} {turn : Members × Option Thread} {next : Thread} {id : Nat} (begun : begin m work = some turn)
    (goes : turn.2 = some next) (task : next.task = some id) : ∃ request ∈ m.requests, request.id = id := by
  cases work with
  | respond request answer =>
    have listed := listed_of_begun begun
    simp only [begin,listed,if_true,Option.some.injEq] at begun
    subst begun
    refine ⟨request,listed,?_⟩
    cases answer <;> (cases goes; exact Option.some.inj task)
  | push other status blocks =>
    cases begun
    cases goes
    cases task
  | tick sessions =>
    cases begun
    dsimp only at goes
    split at goes
    · cases goes
      cases task
    · cases goes
  | unsubscribe other =>
    cases begun
    cases goes
    cases task

private theorem sound_start : Sound start where
  apart := by simp [start]
  tabled := by simp [start,Members.Tabled]
  requested := by simp [start]
  held := by simp [start]

private theorem sound_begin (sound : Sound s) {thread : Nat} {work : Work} {turn : Members × Option Thread}
    (begun : begin s.members work = some turn) : Sound (s.after thread turn) := by
  have held : ∀ t what id, (put s.threads thread turn.2).lookup t = some what → what.task = some id → id ∈ s.members.issued := by
    intro t what id found task
    rcases lookup_put_cases found with ⟨_,goes⟩ | ⟨_,old⟩
    · obtain ⟨request,listed,rfl⟩ := task_begin begun goes task
      exact sound.requested request listed
    · exact sound.held t what id old task
  cases work with
  | respond request answer =>
    have listed := listed_of_begun begun
    simp only [begin,listed,if_true,Option.some.injEq] at begun
    subst begun
    exact ⟨sound.apart,sound.tabled,fun other member => sound.requested other (Multiset.mem_of_mem_erase member),held⟩
  | push id status blocks =>
    cases begun
    exact ⟨sound.apart,sound.tabled,sound.requested,held⟩
  | tick sessions =>
    cases begun
    exact ⟨sound.apart,sound.tabled,sound.requested,held⟩
  | unsubscribe id =>
    cases begun
    exact ⟨apart_getTaskAndRemove sound.apart id,
      fun other tabled => sound.tabled other ((tabled_getTaskAndRemove sound.apart).mp tabled).2,sound.requested,held⟩

private theorem sound_advance (sound : Sound s) {thread : Nat} {what : Thread} (here : s.threads.lookup thread = some what) :
    Sound (s.after thread (advance s.members what)) := by
  have held : ∀ t next id, (put s.threads thread (advance s.members what).2).lookup t = some next → next.task = some id →
      id ∈ s.members.issued := by
    intro t next id found task
    rcases lookup_put_cases found with ⟨_,goes⟩ | ⟨_,old⟩
    · rcases task_advance goes task with same | tabled
      · exact sound.held thread what id here same
      · exact sound.tabled id tabled
    · exact sound.held t next id old task
  cases what with
  | adding id again =>
    refine ⟨?_,?_,sound.requested,held⟩
    · intro other working suspended
      have := sound.apart other
      simp only [State.after,advance,addTask,Finset.mem_insert,Finset.mem_erase] at working suspended
      grind
    · intro other tabled
      rcases tabled_addTask.mp tabled with rfl | old
      · exact sound.held thread _ other here rfl
      · exact sound.tabled other old
  | ending id late =>
    exact ⟨apart_getTaskAndRemove sound.apart id,
      fun other tabled => sound.tabled other ((tabled_getTaskAndRemove sound.apart).mp tabled).2,sound.requested,held⟩
  | looping =>
    refine ⟨sound.apart,sound.tabled,?_,held⟩
    intro request member
    simp only [State.after,advance,resend,Multiset.mem_add,Multiset.mem_map] at member
    rcases member with old | ⟨id,sent,rfl⟩
    · exact sound.requested request old
    · exact sound.tabled id (.inr (Finset.mem_sdiff.mp sent).1)
  | answered _ _ _ | finishing _ _ | pushed _ _ _ _ | calling _ _ | comparing _ _ _ _ | storing _ _ _ _ | delivering _ _ _
  | unsubscribing _ => exact ⟨sound.apart,sound.tabled,sound.requested,held⟩

private theorem sound_subscribe (sound : Sound s) (id : Nat) (fromBlock : Int64) :
    Sound { s with members := subscribe s.members id fromBlock } where
  apart := sound.apart
  tabled other tabled := Finset.mem_insert_of_mem (sound.tabled other tabled)
  requested request listed := by
    rcases Multiset.mem_cons.mp listed with rfl | old
    · exact Finset.mem_insert_self _ _
    · exact Finset.mem_insert_of_mem (sound.requested request old)
  held thread what other found task := Finset.mem_insert_of_mem (sound.held thread what other found task)

private theorem sound_disconnect (sound : Sound s) (session : Nat) :
    Sound { s with members := suspendTasks endPoint s.members session } where
  apart id working suspended := by
    have := sound.apart id
    simp only [suspendTasks,Finset.mem_sdiff,Finset.mem_union] at working suspended
    grind
  tabled id tabled := sound.tabled id (tabled_suspendTasks.mp tabled)
  requested := sound.requested
  held := sound.held

/-- What the four kinds of steps preserve of sound states holds in every state reached. -/
theorem invariant_of_sound {allowed : State → Label → Prop} {I : State → Prop} (first : I start)
    (subscribes : ∀ s id fromBlock, Sound s → I s → allowed s (.subscribe id fromBlock) → id ∉ s.members.issued →
      I { s with members := subscribe s.members id fromBlock })
    (disconnects : ∀ s session, Sound s → I s → allowed s (.disconnect session) →
      I { s with members := suspendTasks endPoint s.members session })
    (begins : ∀ s thread work turn, Sound s → I s → allowed s (.begin thread work) → s.threads.lookup thread = none →
      begin s.members work = some turn → I (s.after thread turn))
    (advances : ∀ s thread what, Sound s → I s → allowed s (.advance thread) → s.threads.lookup thread = some what →
      I (s.after thread (advance s.members what)))
    (reachable : (pool endPoint).Reachable allowed s) : Sound s ∧ I s := by
  refine invariant_of_pool (I := fun s => Sound s ∧ I s) ⟨sound_start,first⟩ ?_ ?_ ?_ ?_ reachable
  · rintro s id fromBlock ⟨sound,inv⟩ permitted fresh
    exact ⟨sound_subscribe sound id fromBlock,subscribes s id fromBlock sound inv permitted fresh⟩
  · rintro s session ⟨sound,inv⟩ permitted
    exact ⟨sound_disconnect sound session,disconnects s session sound inv permitted⟩
  · rintro s thread work turn ⟨sound,inv⟩ permitted idle begun
    exact ⟨sound_begin sound begun,begins s thread work turn sound inv permitted idle begun⟩
  · rintro s thread what ⟨sound,inv⟩ permitted here
    exact ⟨sound_advance sound here,advances s thread what sound inv permitted here⟩

end

end CppSdk.EventSub

import CppSdk.EventSub

/-!
The loop of `doLoop`, one task after another. A loop holds `x_tasks` shared from its first
task to its last: tasks are added, removed and suspended only while no loop runs, but
responses arrive and other loops go on. A task that is sent again waits until the callback
of its request, which the service may call within the loop, releases it.
-/
namespace CppSdk.Resubscriptions
open CppSdk.ByteString CppSdk.Tables CppSdk.Transition
open CppSdk.EventSub hiding State Label start step

/-! ### Loops -/

/-- What a thread does next: a section outside the loop, or one of the loop, with the
    tasks still to come. -/
inductive Activity where
  | apart (what : Thread)
  /-- `addWaitResp` of the next task. -/
  | walking (rest : List Nat)
  /-- `subscribeEvent` of a task. -/
  | sending (id : Nat) (rest : List Nat)
  /-- The callback of a request that the service refuses to send. -/
  | releasing (id : Nat) (rest : List Nat)

/-- The members, and what each thread of the pool that is not idle does next. -/
structure State where
  members : Members
  threads : Table Nat Activity

/-- What can happen next. -/
inductive Label where
  | subscribe (id : Nat) (fromBlock : Int64)
  | disconnect (session : Nat)
  | begin (thread : Nat) (work : Work)
  | advance (thread : Nat)
  /-- A loop starts, with the order in which it meets the suspended tasks. -/
  | walk (thread : Nat) (order : List Nat)
  /-- A request of a loop is sent, or refused with an error at once. -/
  | send (thread : Nat) (sent : Bool)

/-- The thread is in the loop. -/
def Activity.loops : Activity → Bool
  | .apart _ => false
  | .walking _ | .sending _ _ | .releasing _ _ => true
/-- Some thread holds `x_tasks` shared. -/
def State.shared (s : State) : Bool := (values s.threads).any Activity.loops

/-- The section takes `x_tasks` alone. -/
def alone : Thread → Bool
  | .adding _ _ | .ending _ _ => true
  | _ => false
/-- The first section of the work takes `x_tasks` alone. -/
def startsAlone : Work → Bool
  | .unsubscribe _ => true
  | _ => false

/-- `addWaitResp` of the next task, or the end of the loop. -/
def addWaitResp (m : Members) : List Nat → Members × Option Activity
  | [] => (m,none)
  | id :: rest =>
    if id ∈ m.waitRespTasks then (m,some (.walking rest))
    else ({ m with waitRespTasks := insert id m.waitRespTasks },some (.sending id rest))
/-- `removeWaitResp`. -/
def removeWaitResp (m : Members) (id : Nat) : Members := { m with waitRespTasks := m.waitRespTasks.erase id }
/-- `subscribeEvent` of a task in the loop. The request is written in any case, but without
    an endpoint for the group the service sends nothing and calls the callback with an error.
    Within the send it calls back with errors only: a success needs a message from the node, and
    its callback would wait for `x_tasks`, which the loop holds. -/
def send (m : Members) (id : Nat) (rest : List Nat) : Bool → Members × Option Activity
  | true =>
    ({ m.modify id Task.request with
        requests := ⟨id,true⟩ ::ₘ m.requests
        log := .subscribed id (id ∈ m.returned) ::ₘ m.log },some (.walking rest))
  | false => (m.modify id Task.request,some (.releasing id rest))

/-- A section outside the loop. -/
def outside (turn : Members × Option Thread) : Members × Option Activity := (turn.1,turn.2.map .apart)

/-- The next section of a thread, unless it waits for `x_tasks`. -/
def advance (s : State) : Activity → Option (Members × Option Activity)
  | .apart .looping | .sending _ _ => none
  | .apart what => if alone what && s.shared then none else some (outside (EventSub.advance s.members what))
  | .walking rest => some (addWaitResp s.members rest)
  | .releasing id rest => some (removeWaitResp s.members id,some (.walking rest))

/-- The state after the section of a thread. -/
def State.after (s : State) (thread : Nat) (turn : Members × Option Activity) : State :=
  ⟨turn.1,put s.threads thread turn.2⟩

section
variable (endPoint : Nat → Bytes)

/-- A step of the pool. -/
def step (s : State) : Label → Option State
  | .subscribe id fromBlock =>
    if id ∈ s.members.issued then none else some { s with members := subscribe s.members id fromBlock }
  | .disconnect session =>
    if s.shared then none else some { s with members := suspendTasks endPoint s.members session }
  | .begin thread work =>
    if (s.threads.lookup thread).isNone ∧ ¬ (startsAlone work && s.shared) then
      (begin s.members work).map (fun turn => s.after thread (outside turn))
    else none
  | .advance thread => (s.threads.lookup thread).bind (fun what => (advance s what).map (s.after thread))
  | .walk thread order =>
    match s.threads.lookup thread with
    | some (.apart .looping) =>
      if order.Nodup ∧ order.toFinset = s.members.suspendTasks then some (s.after thread (s.members,some (.walking order)))
      else none
    | _ => none
  | .send thread sent =>
    match s.threads.lookup thread with
    | some (.sending id rest) => some (s.after thread (send s.members id rest sent))
    | _ => none

/-- No task, no request, no thread. -/
def start : State := ⟨EventSub.start.members,∅⟩
/-- The subscriptions under a thread pool, with every section of a loop. -/
def loops : System State Label := ⟨start,step endPoint⟩
end

/-! ### Requests in flight -/

/-- One for a thread that issues a request of `doLoop` for the task, or handles its
    response, up to the end of the callback. -/
def Activity.awaits (id : Nat) : Activity → Nat
  | .apart (.answered other again _) | .apart (.adding other again) | .apart (.finishing other again) =>
    if again = true ∧ other = id then 1 else 0
  | .sending other _ | .releasing other _ => if other = id then 1 else 0
  | .apart _ | .walking _ => 0

/-- The requests of `doLoop` for a task that were issued and whose callbacks have not completed. -/
def State.inFlight (s : State) (id : Nat) : Nat :=
  s.members.requests.count ⟨id,true⟩ + weigh (Activity.awaits id) s.threads

/-- One for a task that waits for a response. -/
def waits (m : Members) (id : Nat) : Nat := if id ∈ m.waitRespTasks then 1 else 0

/-- The tasks that wait for a response are those with a request in flight, and each has one. -/
def Exact (s : State) : Prop := ∀ id, s.inFlight id = waits s.members id

section
variable {endPoint : Nat → Bytes} {s : State}

/-- A section that adds to the requests in flight what it adds to the waiting tasks keeps them exact. -/
theorem exact_after (exact : Exact s) {thread : Nat} {turn : Members × Option Activity}
    (balance : ∀ id, turn.1.requests.count ⟨id,true⟩ + turn.2.elim 0 (Activity.awaits id) + waits s.members id =
      s.members.requests.count ⟨id,true⟩ + (s.threads.lookup thread).elim 0 (Activity.awaits id) + waits turn.1 id) :
    Exact (s.after thread turn) := by
  intro id
  have before := exact id
  have same := balance id
  have moved := weigh_put (Activity.awaits id) s.threads thread turn.2
  simp only [State.inFlight,State.after] at before ⊢
  omega

/-- A task whose callback is running waits. -/
theorem waiting_of_awaits (exact : Exact s) {thread id : Nat} {what : Activity}
    (found : s.threads.lookup thread = some what) (awaits : what.awaits id = 1) : id ∈ s.members.waitRespTasks := by
  have before := exact id
  have removed := weigh_erase (Activity.awaits id) s.threads thread
  have one : (s.threads.lookup thread).elim 0 (Activity.awaits id) = 1 := by rw [found,Option.elim_some,awaits]
  by_contra absent
  simp only [State.inFlight,waits,if_neg absent] at before
  omega

/-- A response takes its request out of flight, and the thread that handles it has it. -/
theorem count_erase_request {requests : Multiset Request} {request : Request} (listed : request ∈ requests) (id : Nat) :
    (requests.erase request).count ⟨id,true⟩ + (Activity.apart (.finishing request.id request.again)).awaits id =
      requests.count ⟨id,true⟩ := by
  obtain ⟨other,again⟩ := request
  by_cases same : again = true ∧ other = id
  · obtain ⟨rfl,rfl⟩ := same
    have some := Multiset.count_pos.mpr listed
    simp only [Multiset.count_erase_self,Activity.awaits,and_self,if_true]
    omega
  · have different : (⟨id,true⟩ : Request) ≠ ⟨other,again⟩ := by
      intro equal
      cases equal
      exact same ⟨rfl,rfl⟩
    rw [Multiset.count_erase_of_ne different,Activity.awaits,if_neg same]
    rfl

private theorem exact_begin (exact : Exact s) {thread : Nat} {work : Work} {turn : Members × Option Thread}
    (idle : s.threads.lookup thread = none) (begun : begin s.members work = some turn) :
    Exact (s.after thread (outside turn)) := by
  apply exact_after exact
  intro id
  rw [idle]
  cases work with
  | respond request answer =>
    have listed := listed_of_begun begun
    simp only [begin,listed,if_true,Option.some.injEq] at begun
    subst begun
    have handled : (s.members.requests.erase request).count ⟨id,true⟩ +
        (Activity.apart (.finishing request.id request.again)).awaits id + waits s.members id =
          s.members.requests.count ⟨id,true⟩ + 0 + waits s.members id := by
      rw [count_erase_request listed id]
      rfl
    -- whatever the answer, its handler is counted as one that only has the callback left
    cases answer <;> exact handled
  | push other status blocks =>
    cases begun
    rfl
  | tick sessions =>
    cases begun
    by_cases goes : s.members.suspendTasksCount ≠ 0 ∧ sessions = true
    · simp only [outside,if_pos goes]
      rfl
    · simp only [outside,if_neg goes]
      rfl
  | unsubscribe other =>
    cases begun
    rfl

theorem advance_apart {what : Thread} (other : what ≠ .looping) :
    advance s (.apart what) = if alone what && s.shared then none else some (outside (EventSub.advance s.members what)) := by
  cases what with
  | looping => exact absurd rfl other
  | _ => rfl

/-- The sections outside the loop that hold a request of `doLoop` pass it on, until its callback releases the task. -/
theorem exact_outside (exact : Exact s) {thread : Nat} {what : Thread} (found : s.threads.lookup thread = some (.apart what))
    (other : what ≠ .looping) : Exact (s.after thread (outside (EventSub.advance s.members what))) := by
  apply exact_after exact
  intro id
  rw [found]
  cases what with
  | finishing task again =>
    have waiting : again = true → task = id → id ∈ s.members.waitRespTasks := by
      rintro rfl rfl
      exact waiting_of_awaits exact found (by simp [Activity.awaits])
    by_cases mine : again = true ∧ task = id
    · obtain ⟨rfl,rfl⟩ := mine
      simp [EventSub.advance,outside,Activity.awaits,waits,waiting rfl rfl]
    · have kept : (if again = true then s.members.waitRespTasks.erase task else s.members.waitRespTasks) =
          s.members.waitRespTasks ∨ task ≠ id := by
        by_cases first : again = true
        · exact .inr (fun same => mine ⟨first,same⟩)
        · exact .inl (if_neg first)
      rcases kept with kept | different
      · simp [EventSub.advance,outside,Activity.awaits,waits,mine,kept]
      · cases again <;> simp [EventSub.advance,outside,Activity.awaits,waits,different,Ne.symm different]
  | pushed task status blocks late =>
    by_cases tabled : task ∈ s.members.workingTasks ∪ s.members.suspendTasks
    · simp only [EventSub.advance,outside,if_pos tabled]
      cases status <;> cases blocks <;> rfl
    · simp only [EventSub.advance,outside,if_neg tabled]
      rfl
  | comparing task block rest late =>
    simp only [EventSub.advance,outside]
    split <;> rfl
  | looping => exact absurd rfl other
  | answered _ _ _ | adding _ _ | ending _ _ | calling _ _ | storing _ _ _ _ | delivering _ _ _ | unsubscribing _ => rfl

private theorem exact_addWaitResp (exact : Exact s) {thread : Nat} {rest : List Nat}
    (found : s.threads.lookup thread = some (.walking rest)) : Exact (s.after thread (addWaitResp s.members rest)) := by
  apply exact_after exact
  intro id
  rw [found]
  cases rest with
  | nil => rfl
  | cons first rest =>
    by_cases waiting : first ∈ s.members.waitRespTasks
    · simp only [addWaitResp,if_pos waiting]
      rfl
    · by_cases same : first = id
      · subst same
        simp [addWaitResp,waiting,Activity.awaits,waits]
      · simp [addWaitResp,waiting,Activity.awaits,waits,same,Ne.symm same]

private theorem exact_send (exact : Exact s) {thread id : Nat} {rest : List Nat}
    (found : s.threads.lookup thread = some (.sending id rest)) (sent : Bool) :
    Exact (s.after thread (send s.members id rest sent)) := by
  apply exact_after exact
  intro other
  rw [found]
  cases sent with
  | true =>
    by_cases same : id = other
    · simp [send,Members.modify,waits,Activity.awaits,same]
    · have different : (⟨other,true⟩ : Request) ≠ ⟨id,true⟩ := fun equal => same (congrArg Request.id equal).symm
      show _ + _ + waits s.members other = _ + _ + waits s.members other
      simp [send,Members.modify,Activity.awaits,same,Multiset.count_cons_of_ne different]
  | false => rfl

private theorem exact_removeWaitResp (exact : Exact s) {thread id : Nat} {rest : List Nat}
    (found : s.threads.lookup thread = some (.releasing id rest)) :
    Exact (s.after thread (removeWaitResp s.members id,some (.walking rest))) := by
  have awaits : (Activity.releasing id rest).awaits id = 1 := by simp [Activity.awaits]
  have waiting := waiting_of_awaits exact found awaits
  apply exact_after exact
  intro other
  rw [found]
  by_cases same : id = other
  · subst same
    simp [removeWaitResp,Activity.awaits,waits,waiting]
  · simp [removeWaitResp,Activity.awaits,waits,same,Ne.symm same]

private theorem exact_advance (exact : Exact s) {thread : Nat} {what : Activity} {turn : Members × Option Activity}
    (found : s.threads.lookup thread = some what) (advanced : advance s what = some turn) : Exact (s.after thread turn) := by
  cases what with
  | apart what =>
    by_cases loop : what = .looping
    · subst loop
      cases advanced
    · rw [advance_apart loop] at advanced
      split at advanced <;> cases advanced
      exact exact_outside exact found loop
  | walking rest =>
    cases advanced
    exact exact_addWaitResp exact found
  | sending id rest => cases advanced
  | releasing id rest =>
    cases advanced
    exact exact_removeWaitResp exact found

private theorem exact_of_reachable (reachable : (loops endPoint).Reachable Any s) : Exact s := by
  refine invariant_of_reachable (M := loops endPoint) (fun id => rfl) (fun s l t exact _ stepped => ?_) reachable
  cases l with
  | subscribe id fromBlock =>
    simp only [loops,step] at stepped
    split at stepped <;> cases stepped
    intro other
    have unlike : (⟨other,true⟩ : Request) ≠ ⟨id,false⟩ := by simp
    rw [← show waits s.members other = waits (subscribe s.members id fromBlock) other from rfl,← exact other]
    simp [State.inFlight,subscribe,Multiset.count_cons_of_ne unlike]
  | disconnect session =>
    simp only [loops,step] at stepped
    split at stepped <;> cases stepped
    exact exact
  | begin thread work =>
    simp only [loops,step,Option.isNone_iff_eq_none] at stepped
    split at stepped
    case isTrue idle =>
      obtain ⟨turn,begun,rfl⟩ := Option.map_eq_some_iff.mp stepped
      exact exact_begin exact idle.1 begun
    case isFalse => cases stepped
  | advance thread =>
    obtain ⟨what,found,goes⟩ := Option.bind_eq_some_iff.mp stepped
    obtain ⟨turn,advanced,rfl⟩ := Option.map_eq_some_iff.mp goes
    exact exact_advance exact found advanced
  | walk thread order =>
    simp only [loops,step] at stepped
    split at stepped
    case h_1 found =>
      split at stepped <;> cases stepped
      exact exact_after exact (fun id => by rw [found]; rfl)
    case h_2 => cases stepped
  | send thread sent =>
    simp only [loops,step] at stepped
    split at stepped
    case h_1 id rest found =>
      cases stepped
      exact exact_send exact found sent
    case h_2 => cases stepped

/-! ### Releases -/

/-- The steps that a thread has left in the loop. -/
def Activity.left : Activity → Nat
  | .apart _ => 0
  | .walking rest => 3 * rest.length + 1
  | .releasing _ rest => 3 * rest.length + 2
  | .sending _ rest => 3 * rest.length + 3

/-- The loops went on: what is in flight stays there, and no other thread took a step. -/
structure Onwards (s t : State) : Prop where
  requests : ∀ request ∈ s.members.requests, request ∈ t.members.requests
  others : ∀ thread, (∀ what, s.threads.lookup thread = some what → what.loops = false) →
    t.threads.lookup thread = s.threads.lookup thread

private theorem onwards_after {thread : Nat} {what : Activity} {turn : Members × Option Activity}
    (found : s.threads.lookup thread = some what) (loop : what.loops = true)
    (kept : ∀ request ∈ s.members.requests, request ∈ turn.1.requests) : Onwards s (s.after thread turn) := by
  constructor
  · exact kept
  · intro other quiet
    rw [State.after,lookup_put,if_neg]
    rintro rfl
    rw [quiet what found] at loop
    cases loop

private theorem left_after {thread : Nat} {what : Activity} {turn : Members × Option Activity}
    (found : s.threads.lookup thread = some what) (less : turn.2.elim 0 Activity.left < what.left) :
    weigh Activity.left (s.after thread turn).threads < weigh Activity.left s.threads := by
  have moved := weigh_put Activity.left s.threads thread turn.2
  rw [found,Option.elim_some] at moved
  simp only [State.after]
  omega

/-- A thread in the loop can always take a step, and has fewer left. -/
theorem loop_step {thread : Nat} {what : Activity} (found : s.threads.lookup thread = some what) (loop : what.loops = true) :
    ∃ l turn, step endPoint s l = some (s.after thread turn) ∧ turn.2.elim 0 Activity.left < what.left ∧
      ∀ request ∈ s.members.requests, request ∈ turn.1.requests := by
  cases what with
  | apart what => cases loop
  | walking rest =>
    refine ⟨.advance thread,addWaitResp s.members rest,by simp [step,found,advance],?_⟩
    cases rest with
    | nil => exact ⟨Nat.succ_pos _,fun request listed => listed⟩
    | cons id rest =>
      by_cases waiting : id ∈ s.members.waitRespTasks
      · simp [addWaitResp,waiting,Activity.left]
      · simp [addWaitResp,waiting,Activity.left]
        omega
  | sending id rest =>
    refine ⟨.send thread true,send s.members id rest true,by simp [step,found],?_⟩
    constructor
    · simp [send,Activity.left]
    · exact fun request listed => Multiset.mem_cons_of_mem listed
  | releasing id rest =>
    refine ⟨.advance thread,(removeWaitResp s.members id,some (.walking rest)),by simp [step,found,advance],?_⟩
    constructor
    · simp [Activity.left]
    · exact fun request listed => listed

private theorem shared_iff : s.shared = true ↔ ∃ thread what, s.threads.lookup thread = some what ∧ what.loops = true := by
  simp only [State.shared,List.any_eq_true,mem_values]
  constructor
  · rintro ⟨what,⟨thread,found⟩,loop⟩
    exact ⟨thread,what,found,loop⟩
  · rintro ⟨thread,what,found,loop⟩
    exact ⟨what,⟨thread,found⟩,loop⟩

/-- The loops can end, by their own steps, and let `x_tasks` go. -/
theorem loops_end (s : State) : ∃ ls t, (loops endPoint).run s ls = some t ∧ t.shared = false ∧ Onwards s t := by
  by_cases shared : s.shared = true
  · obtain ⟨thread,what,found,loop⟩ := shared_iff.mp shared
    obtain ⟨l,turn,stepped,less,kept⟩ := loop_step found loop
    have fewer := left_after found less
    have first := onwards_after found loop kept
    obtain ⟨ls,t,ran,free,later⟩ := loops_end (s.after thread turn)
    refine ⟨l :: ls,t,?_,free,?_⟩
    · exact (congrArg (Option.bind · _) stepped).trans ran
    · refine ⟨fun request listed => later.requests request (first.requests request listed),fun other quiet => ?_⟩
      have same := first.others other quiet
      rw [later.others other (by rwa [same]),same]
  · exact ⟨[],s,rfl,Bool.not_eq_true _ ▸ shared,⟨fun request listed => listed,fun _ _ => rfl⟩⟩
termination_by weigh Activity.left s.threads

/-- The handler of a response, from its start to the end of the callback. -/
def handling (thread : Nat) (request : Request) (answer : Answer) : List Label :=
  .begin thread (.respond request answer) :: match answer with
    | .success _ => [.advance thread,.advance thread,.advance thread]
    | _ => [.advance thread]

private theorem shared_after (free : s.shared = false) {thread : Nat} {turn : Members × Option Thread} :
    (s.after thread (outside turn)).shared = false := by
  rw [← Bool.not_eq_true] at free ⊢
  intro shared
  obtain ⟨other,what,found,loop⟩ := shared_iff.mp shared
  rcases lookup_put_cases found with ⟨_,new⟩ | ⟨_,old⟩
  · obtain ⟨next,_,rfl⟩ := Option.map_eq_some_iff.mp new
    cases loop
  · exact free (shared_iff.mpr ⟨other,what,old,loop⟩)

/-- While no loop runs, a thread outside the loop can take its next step. -/
theorem step_apart (free : s.shared = false) {thread : Nat} {what : Thread} (found : s.threads.lookup thread = some (.apart what))
    (other : what ≠ .looping) :
    step endPoint s (.advance thread) = some (s.after thread (outside (EventSub.advance s.members what))) := by
  have goes := advance_apart (s := s) other
  rw [free,Bool.and_false,if_neg Bool.false_ne_true] at goes
  simp [step,found,goes]

/-- The steps leave the thread idle, and the task waits no longer. -/
def Releases (endPoint : Nat → Bytes) (thread id : Nat) (s : State) (ls : List Label) : Prop :=
  ∃ t, (loops endPoint).run s ls = some t ∧ t.threads.lookup thread = none ∧ id ∉ t.members.waitRespTasks

private theorem releases_cons {thread id : Nat} {l : Label} {ls : List Label} {next : State} (stepped : step endPoint s l = some next)
    (later : Releases endPoint thread id next ls) : Releases endPoint thread id s (l :: ls) := by
  obtain ⟨t,ran,released⟩ := later
  exact ⟨t,(congrArg (Option.bind · _) stepped).trans ran,released⟩

private theorem finishing_releases (free : s.shared = false) {thread id : Nat}
    (found : s.threads.lookup thread = some (.apart (.finishing id true))) :
    Releases endPoint thread id s [.advance thread] := by
  apply releases_cons (step_apart free found (by simp))
  refine ⟨_,rfl,?_,?_⟩
  · simp [State.after,lookup_put,outside,EventSub.advance]
  · simp [State.after,outside,EventSub.advance]
private theorem adding_releases (free : s.shared = false) {thread id : Nat}
    (found : s.threads.lookup thread = some (.apart (.adding id true))) :
    Releases endPoint thread id s [.advance thread,.advance thread] := by
  apply releases_cons (step_apart free found (by simp))
  apply finishing_releases (shared_after free)
  simp [State.after,lookup_put,outside,EventSub.advance]
private theorem answered_releases (free : s.shared = false) {thread id session : Nat}
    (found : s.threads.lookup thread = some (.apart (.answered id true session))) :
    Releases endPoint thread id s [.advance thread,.advance thread,.advance thread] := by
  apply releases_cons (step_apart free found (by simp))
  apply adding_releases (shared_after free)
  simp [State.after,lookup_put,outside,EventSub.advance]

/-- Whatever the answer to a request of `doLoop`, its handler releases the task. -/
theorem handling_releases (free : s.shared = false) {id thread : Nat} (listed : ⟨id,true⟩ ∈ s.members.requests)
    (idle : s.threads.lookup thread = none) (answer : Answer) :
    Releases endPoint thread id s (handling thread ⟨id,true⟩ answer) := by
  have begun : ∀ next, begin s.members (.respond ⟨id,true⟩ answer) = some next →
      step endPoint s (.begin thread (.respond ⟨id,true⟩ answer)) = some (s.after thread (outside next)) := by
    intro next same
    simp [step,idle,startsAlone,same]
  cases answer with
  | success session =>
    apply releases_cons (begun _ (if_pos listed))
    exact answered_releases (shared_after free) ((lookup_put _ _ _ _).trans (if_pos rfl))
  | error | malformed | refused =>
    apply releases_cons (begun _ (if_pos listed))
    apply finishing_releases (shared_after free)
    simp [State.after,lookup_put,outside]

/-- A loop that has a task to come sends it, unless it waits for a response. -/
theorem walking_sends {thread id : Nat} {rest : List Nat} (distinct : rest.Nodup) (listed : id ∈ rest)
    (found : s.threads.lookup thread = some (.walking rest)) (released : id ∉ s.members.waitRespTasks) :
    ∃ ls t later, (loops endPoint).run s ls = some t ∧ t.threads.lookup thread = some (.sending id later) := by
  induction rest generalizing s with
  | nil => cases listed
  | cons first rest ih =>
    have walks : step endPoint s (.advance thread) = some (s.after thread (addWaitResp s.members (first :: rest))) := by
      simp [step,found,advance]
    by_cases same : first = id
    · subst same
      refine ⟨[.advance thread],_,rest,congrArg (Option.bind · _) walks,?_⟩
      simp [State.after,lookup_put,addWaitResp,released]
    · have remaining : id ∈ rest := (List.mem_cons.mp listed).resolve_left (Ne.symm same)
      by_cases waiting : first ∈ s.members.waitRespTasks
      · obtain ⟨ls,t,later,ran,sends⟩ := ih (s := s.after thread (addWaitResp s.members (first :: rest)))
          distinct.of_cons remaining (by simp [State.after,lookup_put,addWaitResp,waiting])
          (by simpa [State.after,addWaitResp,waiting] using released)
        exact ⟨.advance thread :: ls,t,later,(congrArg (Option.bind · _) walks).trans ran,sends⟩
      · -- the first task is sent, and waits for its own response
        have held : (s.after thread (addWaitResp s.members (first :: rest))).threads.lookup thread =
            some (.sending first rest) := by simp [State.after,lookup_put,addWaitResp,waiting]
        have absent : id ∉ (s.after thread (addWaitResp s.members (first :: rest))).members.waitRespTasks := by
          simpa [State.after,addWaitResp,waiting,Ne.symm same] using released
        generalize s.after thread (addWaitResp s.members (first :: rest)) = u at walks held absent
        have sent : step endPoint u (.send thread true) = some (u.after thread (send u.members first rest true)) := by
          simp [step,held]
        obtain ⟨ls,t,later,ran,sends⟩ := ih (s := u.after thread (send u.members first rest true))
          distinct.of_cons remaining (by simp [State.after,lookup_put,send]) absent
        refine ⟨.advance thread :: .send thread true :: ls,t,later,?_,sends⟩
        exact (congrArg (Option.bind · _) walks).trans ((congrArg (Option.bind · _) sent).trans ran)

/-! ### The waiting tasks -/

/-- The thread runs the callback of a request of `doLoop`. -/
def Activity.callsBack (id : Nat) (what : Activity) : Prop :=
  what = .apart (.finishing id true) ∨ ∃ rest, what = .releasing id rest

/-- In every state reached, the waiting tasks are those with a request of `doLoop` in
    flight, and each has one. Every callback releases its task, every answer leads to the
    callback once the loops have let `x_tasks` go, and a loop that starts sends every
    suspended task that does not wait. -/
theorem waitRespTasks_exact (reachable : (loops endPoint).Reachable Any s) :
    (∀ id, s.inFlight id = if id ∈ s.members.waitRespTasks then 1 else 0) ∧
      (∀ thread what id, s.threads.lookup thread = some what → what.callsBack id →
        ∃ t, step endPoint s (.advance thread) = some t ∧ id ∉ t.members.waitRespTasks) ∧
      (∀ thread id answer, ⟨id,true⟩ ∈ s.members.requests → s.threads.lookup thread = none →
        ∃ before t, (loops endPoint).run s (before ++ handling thread ⟨id,true⟩ answer) = some t ∧
          t.threads.lookup thread = none ∧ id ∉ t.members.waitRespTasks) ∧
      ∀ thread id order, s.threads.lookup thread = some (.apart .looping) → id ∈ s.members.suspendTasks →
        id ∉ s.members.waitRespTasks → order.Nodup → order.toFinset = s.members.suspendTasks →
        ∃ later t rest, (loops endPoint).run s (.walk thread order :: later) = some t ∧
          t.threads.lookup thread = some (.sending id rest) := by
  refine ⟨exact_of_reachable reachable,?_,?_,?_⟩
  · rintro thread what id found (rfl | ⟨rest,rfl⟩)
    · refine ⟨_,by simp [step,found,advance,alone]; rfl,?_⟩
      simp [State.after,outside,EventSub.advance]
    · refine ⟨_,by simp [step,found,advance]; rfl,?_⟩
      simp [State.after,removeWaitResp]
  · intro thread id answer listed idle
    obtain ⟨before,t,ran,free,onwards⟩ := loops_end s
    have still : t.threads.lookup thread = none := by
      rw [onwards.others thread (by simp [idle]),idle]
    obtain ⟨u,handled,released⟩ := handling_releases free (onwards.requests _ listed) still answer
    refine ⟨before,u,?_,released⟩
    rw [run_append,ran]
    exact handled
  · intro thread id order found suspended released distinct all
    have walks : step endPoint s (.walk thread order) = some (s.after thread (s.members,some (.walking order))) := by
      simp [step,found,distinct,all]
    have listed : id ∈ order := by rwa [← List.mem_toFinset,all]
    have walking : (s.after thread (s.members,some (.walking order))).threads.lookup thread = some (.walking order) := by
      simp [State.after,lookup_put]
    obtain ⟨ls,t,rest,ran,sends⟩ := walking_sends distinct listed walking released
    exact ⟨ls,t,rest,(congrArg (Option.bind · _) walks).trans ran,sends⟩

/-- A task that is acknowledged and suspended, and a loop that has sent it again while
    another meets it. -/
def resendTwice : List Label :=
  [.subscribe 0 1,.begin 0 (.respond ⟨0,false⟩ (.success 0)),.advance 0,.advance 0,.advance 0,.disconnect 0,
    .begin 0 (.tick true),.begin 1 (.tick true),.walk 0 [0],.walk 1 [0],.advance 0,.send 0 true,.advance 1]

theorem waitRespTasks_resendTwice : ∃ s : State, 0 ∈ s.members.waitRespTasks ∧
    (∀ id, s.inFlight id = if id ∈ s.members.waitRespTasks then 1 else 0) := by
  obtain ⟨s,reachable,waiting⟩ := exists_of_run (M := loops oneEndPoint) (obeys_any _ resendTwice)
    (fun s => decide (0 ∈ s.members.waitRespTasks)) (by decide +kernel)
  exact ⟨s,of_decide_eq_true waiting,(waitRespTasks_exact reachable).1⟩

end

end CppSdk.Resubscriptions

import CppSdk.EventSub

/-!
Where a subscription resumes: a subscribe request should ask for the block after the
largest one delivered, or for the first block of the parameters when none was. It does in
every run whose pushes come one at a time with their largest block first, and leave a
number that the state and `int64_t` can hold (`resumes_of_gentle`).
-/
namespace CppSdk.ResumePoint
open CppSdk.ByteString CppSdk.Tables CppSdk.Transition CppSdk.EventSub

/-! ### The property -/

/-- The later of two blocks, as `setCurrentBlockNumber` leaves it. -/
def later (current block : Int64) : Int64 := if current < block then block else current
/-- The largest of the blocks. -/
def largest : List Int64 → Option Int64
  | [] => none
  | block :: rest => some ((largest rest).elim block (later block))
/-- The block to ask for. -/
def resumePoint (fromBlock : Int64) (delivered : List Int64) : Int :=
  match largest delivered with
  | none => fromBlock.toInt
  | some block => block.toInt + 1

/-- Every request of the task asks for the block where it resumes, and none for an earlier
    one than the request before it. -/
def Resumes (task : Task) : Prop :=
  (∀ request ∈ task.requested, request.1.toInt = resumePoint task.fromBlock request.2) ∧
    task.requested.Pairwise (fun later earlier => earlier.1.toInt ≤ later.1.toInt)

/-! ### The condition -/

/-- The task of a thread between the load and the call of the callback. -/
def settling : Thread → Option Nat
  | .storing id _ _ _ | .delivering id (_ :: _) _ => some id
  | _ => none

/-- After the push the largest block delivered is the first of the push or the current
    one, and it is one that the task can resume from. -/
def Follows (task : Task) (block : Int64) (rest : List Int64) : Prop :=
  let last := later task.currentBlockNumber block
  (∀ b ∈ block :: rest, 0 ≤ b.toInt ∧ b.toInt ≤ last.toInt) ∧ (0 < last.toInt ∨ task.fromBlock.toInt = 1) ∧
    last.toInt < Int64.maxValue.toInt ∧ task.fromBlock.toInt ≤ last.toInt + 1

/-- Pushes of a task come one at a time and follow what was delivered, and the task is not
    sent again in the middle of one. -/
def Gentle (s : State) : Label → Prop
  | .advance thread => match s.threads.lookup thread with
    | some (.comparing id block rest _) => Follows (s.members.tasks id) block rest ∧ some id ∉ (values s.threads).map settling
    | some .looping => ∀ id ∈ resent s.members, some id ∉ (values s.threads).map settling
    | _ => True
  | _ => True
instance {task : Task} {block : Int64} {rest : List Int64} : Decidable (Follows task block rest) :=
  -- not by trying all of `Int64`
  have : Decidable (∀ b ∈ block :: rest, 0 ≤ b.toInt ∧ b.toInt ≤ (later task.currentBlockNumber block).toInt) :=
    List.decidableBAll _ _
  inferInstanceAs (Decidable (_ ∧ _ ∧ _ ∧ _))
instance {s : State} : ∀ l, Decidable (Gentle s l)
  | .advance thread =>
    match found : s.threads.lookup thread with
    | some (.comparing id block rest _) => decidable_of_iff
        (Follows (s.members.tasks id) block rest ∧ some id ∉ (values s.threads).map settling) (by simp [Gentle,found])
    | some .looping => decidable_of_iff (∀ id ∈ resent s.members, some id ∉ (values s.threads).map settling)
        (by simp [Gentle,found])
    | none | some (.answered _ _ _) | some (.adding _ _) | some (.finishing _ _) | some (.pushed _ _ _ _)
    | some (.ending _ _) | some (.calling _ _) | some (.storing _ _ _ _) | some (.delivering _ _ _)
    | some (.unsubscribing _) => .isTrue (by simp [Gentle,found])
  | .subscribe _ _ | .disconnect _ | .begin _ _ => .isTrue trivial

/-! ### Tasks -/

/-- The state of a task agrees with what was delivered, and the task can resume. -/
def Settled (task : Task) : Prop :=
  (task.delivered = [] ∧ task.currentBlockNumber = -1) ∨
    (largest task.delivered = some task.currentBlockNumber ∧ 0 ≤ task.currentBlockNumber.toInt ∧ (0 < task.currentBlockNumber.toInt ∨ task.fromBlock.toInt = 1) ∧
      task.currentBlockNumber.toInt < Int64.maxValue.toInt ∧ task.fromBlock.toInt ≤ task.currentBlockNumber.toInt + 1)
/-- No request so far asks for more than the task now would. -/
def Bounded (task : Task) : Prop :=
  ∀ request ∈ task.requested, request.1.toInt ≤ resumePoint task.fromBlock task.delivered

/-- The task when a thread will have finished its push. -/
def settle (task : Task) : Thread → Task
  | .storing _ block rest _ => { task with currentBlockNumber := block, delivered := task.delivered ++ block :: rest }
  | .delivering _ blocks _ => { task with delivered := task.delivered ++ blocks }
  | _ => task

variable {task : Task} {s : State}

private theorem later_toInt (current block : Int64) :
    (later current block = block ∧ current.toInt ≤ block.toInt) ∨ (later current block = current ∧ block.toInt ≤ current.toInt) := by
  by_cases less : current < block
  · exact .inl ⟨if_pos less,(Int64.lt_iff_toInt_lt.mp less).le⟩
  · exact .inr ⟨if_neg less,Int.not_lt.mp (Int64.lt_iff_toInt_lt.not.mp less)⟩

/-- The largest block is one of them, and none is above it. -/
theorem largest_spec {blocks : List Int64} {m : Int64} (found : largest blocks = some m) :
    m ∈ blocks ∧ ∀ b ∈ blocks, b.toInt ≤ m.toInt := by
  induction blocks generalizing m with
  | nil => cases found
  | cons block rest ih =>
    cases before : largest rest with
    | none =>
      have empty : rest = [] := by
        cases rest with
        | nil => rfl
        | cons _ _ => cases before
      subst empty
      cases found
      simp [largest]
    | some other =>
      obtain ⟨member,above⟩ := ih before
      simp only [largest,before,Option.elim_some,Option.some.injEq] at found
      subst found
      rcases later_toInt block other with ⟨same,less⟩ | ⟨same,less⟩
      · rw [same]
        exact ⟨List.mem_cons_of_mem _ member,List.forall_mem_cons.mpr ⟨less,above⟩⟩
      · rw [same]
        exact ⟨List.mem_cons_self,List.forall_mem_cons.mpr ⟨le_rfl,fun b listed => (above b listed).trans less⟩⟩
private theorem largest_eq {blocks : List Int64} {m : Int64} :
    largest blocks = some m ↔ m ∈ blocks ∧ ∀ b ∈ blocks, b.toInt ≤ m.toInt := by
  refine ⟨largest_spec,fun ⟨member,above⟩ => ?_⟩
  cases found : largest blocks with
  | none =>
    cases blocks with
    | nil => cases member
    | cons _ _ => cases found
  | some other =>
    obtain ⟨listed,highest⟩ := largest_spec found
    have same : other.toInt = m.toInt := le_antisymm (above other listed) (highest m member)
    rw [Int64.toInt_inj.mp same]

private theorem requestFrom_settled (settled : Settled task) : task.requestFrom.toInt = resumePoint task.fromBlock task.delivered := by
  rcases settled with ⟨none,unset⟩ | ⟨last,nonneg,positive,fits,_⟩
  · simp [Task.requestFrom,unset,resumePoint,none,largest]
  · rw [Int64.toInt_maxValue] at fits
    have set : 0 < task.currentBlockNumber ↔ 0 < task.currentBlockNumber.toInt := by
      rw [Int64.lt_iff_toInt_lt,Int64.toInt_zero]
    simp only [resumePoint,last,Task.requestFrom,set]
    split
    · rw [Int64.toInt_add,Int64.toInt_one,Int.bmod_eq_of_le] <;> omega
    · omega

private theorem resumes_request (settled : Settled task) (resumes : Resumes task) (bounded : Bounded task) :
    Resumes task.request ∧ Bounded task.request := by
  have now := requestFrom_settled settled
  refine ⟨⟨?_,?_⟩,?_⟩
  · exact List.forall_mem_cons.mpr ⟨now,resumes.1⟩
  · exact List.pairwise_cons.mpr ⟨fun request listed => now ▸ bounded request listed,resumes.2⟩
  · exact List.forall_mem_cons.mpr ⟨now.le,bounded⟩

/-- The first request of a task. -/
theorem resumes_first (fromBlock : Int64) :
    Resumes (newTask fromBlock).request ∧ Bounded (newTask fromBlock).request :=
  resumes_request (.inl ⟨rfl,rfl⟩) ⟨fun _ listed => (nomatch listed),.nil⟩ (fun _ listed => (nomatch listed))

/-- A push that follows settles with its first block or the current one. -/
theorem settled_push {block : Int64} {rest : List Int64} (settled : Settled task) (follows : Follows task block rest) :
    Settled { task with
      currentBlockNumber := later task.currentBlockNumber block
      delivered := task.delivered ++ block :: rest } := by
  obtain ⟨within,positive,fits,low⟩ := follows
  have first := within block List.mem_cons_self
  refine .inr ⟨largest_eq.mpr ⟨?_,fun b member => ?_⟩,first.1.trans first.2,positive,fits,low⟩
  · rcases later_toInt task.currentBlockNumber block with ⟨same,_⟩ | ⟨same,less⟩
    · simp only [same]
      simp
    · rcases settled with ⟨_,unset⟩ | ⟨before,_⟩
      · rw [unset] at less
        have : (-1 : Int64).toInt = -1 := rfl
        omega
      · simp only [same]
        exact List.mem_append_left _ (largest_eq.mp before).1
  · rcases List.mem_append.mp member with old | new
    · rcases settled with ⟨none,_⟩ | ⟨before,_⟩
      · simp [none] at old
      · have below := (largest_eq.mp before).2 b old
        rcases later_toInt task.currentBlockNumber block with ⟨same,less⟩ | ⟨same,_⟩
        · exact (below.trans less).trans (by simp only [same]; exact le_rfl)
        · simpa only [same] using below
    · exact (within b new).2

/-- A push that settles does not move the resume point back. -/
theorem bounded_push {blocks : List Int64} (after : Settled { task with delivered := task.delivered ++ blocks })
    (bounded : Bounded task) : Bounded { task with delivered := task.delivered ++ blocks } := by
  intro request listed
  refine (bounded request listed).trans ?_
  rcases after with ⟨none,_⟩ | ⟨last,_,_,_,low⟩
  · have both := List.append_eq_nil_iff.mp none
    simp [both]
  · simp only at last low
    simp only [resumePoint,last]
    cases before : largest task.delivered with
    | none => exact low
    | some m =>
      have := (largest_eq.mp last).2 m (List.mem_append_left _ (largest_eq.mp before).1)
      simp only
      omega

/-! ### Steps -/

/-- A thread is between the load and the callback of a push for the task. -/
def Settling (s : State) (id : Nat) : Prop := ∃ thread what, s.threads.lookup thread = some what ∧ settling what = some id

private theorem settling_iff {id : Nat} : some id ∈ (values s.threads).map settling ↔ Settling s id := by
  simp only [List.mem_map,mem_values,Settling]
  constructor
  · rintro ⟨what,⟨thread,found⟩,same⟩
    exact ⟨thread,what,found,same⟩
  · rintro ⟨thread,what,found,same⟩
    exact ⟨what,⟨thread,found⟩,same⟩

private theorem task_of_settling {what : Thread} {id : Nat} (mine : settling what = some id) : what.task = some id := by
  cases what with
  | storing _ _ _ _ => exact mine
  | delivering other blocks late =>
    cases blocks with
    | nil => cases mine
    | cons block rest => exact mine
  | answered _ _ _ | adding _ _ | finishing _ _ | pushed _ _ _ _ | ending _ _ | calling _ _ | comparing _ _ _ _ | looping
  | unsubscribing _ => cases mine

/-- What gentle steps preserve. -/
structure Inv (s : State) : Prop where
  resumes : ∀ id, Resumes (s.members.tasks id) ∧ Bounded (s.members.tasks id)
  settled : ∀ id, ¬ Settling s id → Settled (s.members.tasks id)
  settles : ∀ thread what id, s.threads.lookup thread = some what → settling what = some id →
    Settled (settle (s.members.tasks id) what)
  alone : ∀ t t' what what' id, s.threads.lookup t = some what → s.threads.lookup t' = some what' →
    settling what = some id → settling what' = some id → t = t'

theorem inv_start : Inv start where
  resumes := by simp [start,newTask,Resumes,Bounded]
  settled id _ := .inl ⟨rfl,rfl⟩
  settles := by simp [start]
  alone := by simp [start]

/-- A step that moves no push on and changes at most the sessions and the requests. -/
theorem inv_still (inv : Inv s) {t : State}
    (threads : ∀ thread what id, settling what = some id →
      (t.threads.lookup thread = some what ↔ s.threads.lookup thread = some what))
    (tasks : ∀ id, ∃ session requested,
      t.members.tasks id = { s.members.tasks id with session := session, requested := requested })
    (resumes : ∀ id, Resumes (t.members.tasks id) ∧ Bounded (t.members.tasks id)) : Inv t where
  resumes := resumes
  settled id none := by
    obtain ⟨session,requested,same⟩ := tasks id
    rw [same]
    refine inv.settled id ?_
    rintro ⟨thread,what,found,mine⟩
    exact none ⟨thread,what,(threads thread what id mine).mpr found,mine⟩
  settles thread what id found mine := by
    obtain ⟨session,requested,same⟩ := tasks id
    have before := inv.settles thread what id ((threads thread what id mine).mp found) mine
    rw [same]
    cases what <;> exact before
  alone k k' what what' id found found' mine mine' :=
    inv.alone k k' what what' id ((threads k what id mine).mp found) ((threads k' what' id mine').mp found') mine mine'

/-- A step that moves no push on and changes at most the sessions. -/
theorem inv_quiet (inv : Inv s) {t : State}
    (threads : ∀ thread what id, settling what = some id →
      (t.threads.lookup thread = some what ↔ s.threads.lookup thread = some what))
    (tasks : ∀ id, ∃ session, t.members.tasks id = { s.members.tasks id with session := session }) : Inv t := by
  refine inv_still inv threads (fun id => ?_) (fun id => ?_)
  · obtain ⟨session,same⟩ := tasks id
    exact ⟨session,_,same⟩
  · obtain ⟨session,same⟩ := tasks id
    exact same ▸ inv.resumes id

/-- A thread that is not in the middle of a push and does not start one. -/
theorem threads_still {thread : Nat} {turn : Members × Option Thread}
    (before : ∀ what, s.threads.lookup thread = some what → settling what = none)
    (next : ∀ what, turn.2 = some what → settling what = none) (other : Nat) (what : Thread) (id : Nat)
    (mine : settling what = some id) :
    (s.after thread turn).threads.lookup other = some what ↔ s.threads.lookup other = some what := by
  rw [State.after,lookup_put]
  by_cases same : other = thread
  · rw [if_pos same,same]
    constructor
    · intro goes
      rw [next what goes] at mine
      cases mine
    · intro found
      rw [before what found] at mine
      cases mine
  · rw [if_neg same]

theorem inv_begin (inv : Inv s) {thread : Nat} {work : Work} {turn : Members × Option Thread}
    (idle : s.threads.lookup thread = none) (begun : begin s.members work = some turn) : Inv (s.after thread turn) := by
  have before : ∀ what, s.threads.lookup thread = some what → settling what = none := by simp [idle]
  cases work with
  | respond request answer =>
    have listed := listed_of_begun begun
    simp only [begin,listed,if_true,Option.some.injEq] at begun
    subst begun
    refine inv_quiet inv (threads_still before ?_) (fun id => ⟨_,rfl⟩)
    cases answer <;> rintro _ ⟨⟩ <;> rfl
  | push id status blocks =>
    cases begun
    refine inv_quiet inv (threads_still before ?_) (fun id => ⟨_,rfl⟩)
    rintro _ ⟨⟩
    rfl
  | tick sessions =>
    cases begun
    refine inv_quiet inv (threads_still before ?_) (fun id => ⟨_,rfl⟩)
    intro what next
    dsimp only at next
    split at next <;> cases next
    rfl
  | unsubscribe id =>
    cases begun
    refine inv_quiet inv (threads_still before ?_) (fun id => ⟨_,rfl⟩)
    rintro _ ⟨⟩
    rfl

/-- A push that starts, goes on or ends in the section of its thread, the only one with a
    push for the task. -/
theorem inv_push (inv : Inv s) {thread : Nat} (id : Nat) {turn : Members × Option Thread}
    (before : ∀ what, s.threads.lookup thread = some what → settling what = none ∨ settling what = some id)
    (single : ∀ other what, other ≠ thread → s.threads.lookup other = some what → settling what ≠ some id)
    (others : ∀ other, other ≠ id → turn.1.tasks other = s.members.tasks other)
    (resumes : Resumes (turn.1.tasks id) ∧ Bounded (turn.1.tasks id))
    (goes : ∀ next, turn.2 = some next → settling next = some id ∧ Settled (settle (turn.1.tasks id) next))
    (ends : turn.2 = none → Settled (turn.1.tasks id)) : Inv (s.after thread turn) where
  resumes other := by
    by_cases same : other = id
    · exact same ▸ resumes
    · exact (others other same).symm ▸ inv.resumes other
  settled other none := by
    by_cases same : other = id
    · subst same
      cases next : turn.2 with
      | none => exact ends next
      | some what => exact absurd ⟨thread,what,by rw [State.after,lookup_put,if_pos rfl,next],(goes what next).1⟩ none
    · refine (others other same).symm ▸ inv.settled other ?_
      rintro ⟨k,what,found,mine⟩
      refine none ⟨k,what,?_,mine⟩
      rw [State.after,lookup_put,if_neg]
      · exact found
      · rintro rfl
        rcases before what found with idle | own
        · simp [idle] at mine
        · exact same (Option.some.inj (mine.symm.trans own))
  settles k what other found mine := by
    rcases lookup_put_cases found with ⟨_,next⟩ | ⟨apart,old⟩
    · obtain ⟨own,settled⟩ := goes what next
      cases Option.some.inj (mine.symm.trans own)
      exact settled
    · have different : other ≠ id := by
        rintro rfl
        exact single k what apart old mine
      exact (others other different).symm ▸ inv.settles k what other old mine
  alone k k' what what' other found found' mine mine' := by
    rcases lookup_put_cases found with ⟨rfl,next⟩ | ⟨apart,old⟩
    · rcases lookup_put_cases found' with ⟨rfl,_⟩ | ⟨apart',old'⟩
      · rfl
      · cases Option.some.inj (mine.symm.trans (goes what next).1)
        exact absurd mine' (single k' what' apart' old')
    · rcases lookup_put_cases found' with ⟨rfl,next'⟩ | ⟨_,old'⟩
      · cases Option.some.inj (mine'.symm.trans (goes what' next').1)
        exact absurd mine (single k what apart old)
      · exact inv.alone k k' what what' other old old' mine mine'

theorem inv_advance (inv : Inv s) {thread : Nat} {what : Thread} (found : s.threads.lookup thread = some what)
    (gentle : Gentle s (.advance thread)) : Inv (s.after thread (advance s.members what)) := by
  have still : ∀ {turn : Members × Option Thread}, settling what = none → (∀ next, turn.2 = some next → settling next = none) →
      ∀ (other : Nat) (next : Thread) (id : Nat), settling next = some id →
        ((s.after thread turn).threads.lookup other = some next ↔ s.threads.lookup other = some next) := by
    intro turn outside next
    refine threads_still (fun other here => ?_) next
    cases found.symm.trans here
    exact outside
  have own : ∀ {id : Nat}, settling what = none ∨ settling what = some id →
      ∀ other, s.threads.lookup thread = some other → settling other = none ∨ settling other = some id := by
    intro id mine other here
    cases found.symm.trans here
    exact mine
  cases what with
  | comparing id block rest late =>
    simp only [Gentle,found,settling_iff] at gentle
    obtain ⟨follows,free⟩ := gentle
    have settled := inv.settled id free
    refine inv_push inv id (own (.inl rfl)) (fun other next _ here mine => free ⟨other,next,here,mine⟩)
      (fun _ _ => rfl) (inv.resumes id) ?_ (fun none => by cases none)
    rintro _ ⟨⟩
    have after := settled_push settled follows
    by_cases further : (s.members.tasks id).currentBlockNumber < block
    · rw [if_pos further]
      rw [later,if_pos further] at after
      exact ⟨rfl,after⟩
    · rw [if_neg further]
      rw [later,if_neg further] at after
      exact ⟨rfl,after⟩
  | storing id block rest late =>
    refine inv_push inv id (own (.inr rfl)) (fun other next apart here mine =>
      apart (inv.alone other thread next _ id here found mine rfl)) (fun other different => Function.update_of_ne different _ _)
      ?_ ?_ (fun none => by cases none)
    · simp only [advance,Members.modify,Function.update_self]
      exact inv.resumes id
    · rintro _ ⟨⟩
      simp only [advance,Members.modify,Function.update_self]
      exact ⟨rfl,inv.settles thread _ id found rfl⟩
  | delivering id blocks late =>
    cases blocks with
    | nil =>
      refine inv_quiet inv (still rfl (fun next goes => by cases goes)) (fun other => ?_)
      by_cases same : other = id
      · subst same
        simp only [State.after,advance,Members.modify,Members.record,Function.update_self,List.append_nil]
        exact ⟨_,rfl⟩
      · exact ⟨_,Function.update_of_ne same _ _⟩
    | cons block rest =>
      have after := inv.settles thread _ id found rfl
      refine inv_push inv id (own (.inr rfl)) (fun other next apart here mine =>
        apart (inv.alone other thread next _ id here found mine rfl)) (fun other different => Function.update_of_ne different _ _)
        ?_ (fun next goes => by cases goes) ?_
      · simp only [advance,Members.modify,Members.record,Function.update_self]
        exact ⟨(inv.resumes id).1,bounded_push after (inv.resumes id).2⟩
      · intro _
        simp only [advance,Members.modify,Members.record,Function.update_self]
        exact after
  | looping =>
    simp only [Gentle,found,settling_iff] at gentle
    refine inv_still inv (still rfl (fun next goes => by cases goes)) (fun id => ?_) (fun id => ?_)
    · by_cases sent : id ∈ resent s.members
      · exact ⟨_,_,if_pos sent⟩
      · exact ⟨_,_,if_neg sent⟩
    · by_cases sent : id ∈ resent s.members
      · simp only [State.after,advance,resend,sent,if_true]
        exact resumes_request (inv.settled id (gentle id sent)) (inv.resumes id).1 (inv.resumes id).2
      · simp only [State.after,advance,resend,sent,if_false]
        exact inv.resumes id
  | answered id again session =>
    refine inv_quiet inv (still rfl ?_) (fun other => ?_)
    · rintro _ ⟨⟩
      rfl
    · by_cases same : other = id
      · subst same
        exact ⟨_,Function.update_self ..⟩
      · exact ⟨_,Function.update_of_ne same _ _⟩
  | pushed id status blocks late =>
    refine inv_quiet inv (still rfl ?_) (fun other => ⟨_,rfl⟩)
    intro next goes
    by_cases tabled : id ∈ s.members.workingTasks ∪ s.members.suspendTasks
    · simp only [advance,tabled,if_true] at goes
      cases status <;> cases blocks <;> (cases goes; rfl)
    · simp [advance,tabled] at goes
  | adding _ _ | ending _ _ =>
    refine inv_quiet inv (still rfl ?_) (fun other => ⟨_,rfl⟩)
    rintro _ ⟨⟩
    rfl
  | finishing _ _ | calling _ _ | unsubscribing _ =>
    exact inv_quiet inv (still rfl (fun next goes => by cases goes)) (fun other => ⟨_,rfl⟩)

/-- In every gentle run, in every state reached, all requests of all tasks ask for the
    block where the task resumes. -/
theorem resumes_of_gentle {endPoint : Nat → Bytes} (reachable : (pool endPoint).Reachable Gentle s) (id : Nat) :
    Resumes (s.members.tasks id) := by
  refine ((invariant_of_sound inv_start ?_ ?_
    (fun s thread work turn _ inv _ idle begun => inv_begin inv idle begun)
    (fun s thread what _ inv gentle found => inv_advance inv found gentle) reachable).2.resumes id).1
  · intro s id fromBlock sound inv _ fresh
    have elsewhere : ∀ thread what other, s.threads.lookup thread = some what → settling what = some other → other ≠ id := by
      rintro thread what other found mine rfl
      exact fresh (sound.held thread what other found (task_of_settling mine))
    refine ⟨fun other => ?_,fun other none => ?_,fun thread what other found mine => ?_,inv.alone⟩
    · by_cases same : other = id
      · subst same
        simpa only [subscribe,Function.update_self] using resumes_first fromBlock
      · simpa only [subscribe,Function.update_of_ne same] using inv.resumes other
    · by_cases same : other = id
      · subst same
        simp only [subscribe,Function.update_self]
        exact .inl ⟨rfl,rfl⟩
      · simp only [subscribe,Function.update_of_ne same]
        exact inv.settled other none
    · simp only [subscribe,Function.update_of_ne (elsewhere thread what other found mine)]
      exact inv.settles thread what other found mine
  · intro s session _ inv _
    refine inv_quiet inv (fun _ _ _ _ => Iff.rfl) (fun id => ?_)
    by_cases left : id ∈ leaving endPoint s.members session
    · exact ⟨_,if_pos left⟩
    · exact ⟨_,if_neg left⟩

/-- A task that is acknowledged, one push, and the task sent again after a disconnect. -/
def resubscribed (fromBlock : Int64) (blocks : List Int64) : List Label :=
  [.subscribe 0 fromBlock,.begin 0 (.respond ⟨0,false⟩ (.success 0)),.advance 0,.advance 0,.advance 0,
    .begin 0 (.push 0 .success blocks),.advance 0,.advance 0,.advance 0,.advance 0,
    .disconnect 0,.begin 0 (.tick true),.advance 0]

theorem resumes_resubscribed : ∃ s : State, (s.members.tasks 0).requested = [(8,[7,5]),(1,[])] ∧ Resumes (s.members.tasks 0) := by
  have gentle : (pool oneEndPoint).Obeys Gentle (pool oneEndPoint).start (resubscribed 1 [7,5]) := by decide +kernel
  obtain ⟨s,reachable,checked⟩ := exists_of_run gentle
    (fun s => decide ((s.members.tasks 0).requested = [(8,[7,5]),(1,[])])) (by decide +kernel)
  exact ⟨s,of_decide_eq_true checked,resumes_of_gentle reachable 0⟩

/-- Two pushes whose loads both come before their stores. -/
def overlapping : List Label :=
  [.subscribe 0 1,.begin 0 (.respond ⟨0,false⟩ (.success 0)),.advance 0,.advance 0,.advance 0,
    .begin 0 (.push 0 .success [8]),.begin 1 (.push 0 .success [9]),.advance 0,.advance 1,.advance 0,.advance 1,
    .advance 1,.advance 0,.advance 0,.advance 1,.disconnect 0,.begin 0 (.tick true),.advance 0]

/-- The run leads to a request of the first task for another block. -/
def Astray (ls : List Label) : Prop := ∃ s, (pool oneEndPoint).run start ls = some s ∧ ¬ Resumes (s.members.tasks 0)

private theorem astray_of_check {ls : List Label} (check : ((pool oneEndPoint).run start ls).any (fun s =>
    (s.members.tasks 0).requested.any (fun request =>
      request.1.toInt ≠ resumePoint (s.members.tasks 0).fromBlock request.2)) = true) : Astray ls := by
  cases ran : (pool oneEndPoint).run start ls with
  | none => simp [ran] at check
  | some s =>
    rw [ran,Option.any_some] at check
    obtain ⟨request,member,different⟩ := List.any_eq_true.mp check
    exact ⟨s,ran,fun resumes => of_decide_eq_true different (resumes.1 request member)⟩

/-- A push whose first block is not its largest, one of block 0, one of the largest
    `int64_t`, and two that overlap: the task does not resume where it should. -/
theorem resumes_break : Astray (resubscribed 5 [5,7]) ∧ Astray (resubscribed 5 [0]) ∧
    Astray (resubscribed 5 [Int64.maxValue]) ∧ Astray overlapping :=
  ⟨astray_of_check (by decide +kernel),astray_of_check (by decide +kernel),astray_of_check (by decide +kernel),
    astray_of_check (by decide +kernel)⟩

end CppSdk.ResumePoint

import CppSdk.EventSub

/-!
The tables of tasks: in every state reached the count of the suspended tasks is their
number, up to the width of the counter, no id is in both tables, only a task that a
response is about to add is suspended with a session, and an acknowledged task is in a
table until it is removed (`tables_of_reachable`).
-/
namespace CppSdk.EventTasks
open CppSdk.ByteString CppSdk.Tables CppSdk.Transition CppSdk.EventSub
variable {endPoint : Nat → Bytes} {m : Members} {s : State}

/-- The task has no session, or a response has set one and is about to add the task. -/
def Unbound (s : State) (id : Nat) : Prop := (s.members.tasks id).session = none ∨ s.Adding id

/-- What holds of the tables between any two steps. -/
structure Kept (s : State) : Prop where
  count : s.members.suspendTasksCount = UInt32.ofNat s.members.suspendTasks.card
  unbound : ∀ id ∈ s.members.suspendTasks, Unbound s id
  tabled : ∀ id ∈ s.members.acknowledged, s.members.Tabled id

/-! ### The counter -/

private theorem count_erase {ids : Finset Nat} {id : Nat} {count : UInt32} (counted : count = UInt32.ofNat ids.card) :
    (if id ∈ ids then count - 1 else count) = UInt32.ofNat (ids.erase id).card := by
  by_cases member : id ∈ ids
  · rw [if_pos member,counted,Finset.card_erase_of_mem member,UInt32.ofNat_sub (Finset.card_pos.mpr ⟨id,member⟩)]
    rfl
  · rw [if_neg member,counted,Finset.erase_eq_of_notMem member]

private theorem count_addTask (counted : m.suspendTasksCount = UInt32.ofNat m.suspendTasks.card) (id : Nat) :
    (addTask m id).suspendTasksCount = UInt32.ofNat (addTask m id).suspendTasks.card := count_erase counted

private theorem count_getTaskAndRemove (counted : m.suspendTasksCount = UInt32.ofNat m.suspendTasks.card) (id : Nat) :
    (getTaskAndRemove m id).suspendTasksCount = UInt32.ofNat (getTaskAndRemove m id).suspendTasks.card := by
  by_cases working : id ∈ m.workingTasks
  · simpa [getTaskAndRemove,working] using counted
  · simpa [getTaskAndRemove,working] using count_erase counted

private theorem count_suspendTasks (counted : m.suspendTasksCount = UInt32.ofNat m.suspendTasks.card) (session : Nat) :
    (suspendTasks endPoint m session).suspendTasksCount =
      UInt32.ofNat (suspendTasks endPoint m session).suspendTasks.card := by
  have size : (m.suspendTasks ∪ leaving endPoint m session).card =
      m.suspendTasks.card + (leaving endPoint m session \ m.suspendTasks).card := by
    rw [← Finset.union_sdiff_self_eq_union,Finset.card_union_of_disjoint Finset.disjoint_sdiff]
  simp only [suspendTasks]
  rw [size,UInt32.ofNat_add,counted]

/-! ### Steps -/

private theorem unbound_of_same {t : State} {id : Nat} (session : (t.members.tasks id).session = (s.members.tasks id).session)
    (threads : s.Adding id → t.Adding id) (unbound : Unbound s id) : Unbound t id := by
  rcases unbound with null | adding
  · exact .inl (session.trans null)
  · exact .inr (threads adding)
private theorem unbound_after {thread : Nat} {turn : Members × Option Thread} {id : Nat}
    (here : ∀ again, s.threads.lookup thread ≠ some (.adding id again))
    (session : (turn.1.tasks id).session = (s.members.tasks id).session) (unbound : Unbound s id) :
    Unbound (s.after thread turn) id := unbound_of_same session (adding_after here) unbound

private theorem kept_disconnect (kept : Kept s) (session : Nat) :
    Kept { s with members := suspendTasks endPoint s.members session } where
  count := count_suspendTasks kept.count session
  unbound id suspended := by
    by_cases left : id ∈ leaving endPoint s.members session
    · exact .inl (by simp [suspendTasks,left])
    · simp only [suspendTasks,Finset.mem_union,left,or_false] at suspended
      exact unbound_of_same (s := s) (by simp [suspendTasks,left]) (fun adding => adding) (kept.unbound id suspended)
  tabled id acknowledged := tabled_suspendTasks.mpr (kept.tabled id acknowledged)

/-- `getTaskAndRemove` by a thread that does not add a task. -/
theorem kept_getTaskAndRemove (sound : Sound s) (kept : Kept s) {thread : Nat} (id : Nat) {next : Option Thread}
    (here : ∀ other again, s.threads.lookup thread ≠ some (.adding other again)) :
    Kept (s.after thread ({ getTaskAndRemove s.members id with acknowledged := s.members.acknowledged.erase id },next)) where
  count := count_getTaskAndRemove kept.count id
  unbound other suspended := by
    have before : other ∈ s.members.suspendTasks := by
      simp only [State.after,getTaskAndRemove] at suspended
      split at suspended
      · exact suspended
      · exact Finset.mem_of_mem_erase suspended
    exact unbound_after (here other) rfl (kept.unbound other before)
  tabled other acknowledged := by
    obtain ⟨different,before⟩ := Finset.mem_erase.mp acknowledged
    exact (tabled_getTaskAndRemove sound.apart).mpr ⟨different,kept.tabled other before⟩

private theorem kept_begin (sound : Sound s) (kept : Kept s) {thread : Nat} {work : Work} {turn : Members × Option Thread}
    (idle : s.threads.lookup thread = none) (begun : begin s.members work = some turn) : Kept (s.after thread turn) := by
  have here : ∀ id again, s.threads.lookup thread ≠ some (.adding id again) := by simp [idle]
  cases work with
  | respond request answer =>
    have listed := listed_of_begun begun
    simp only [begin,listed,if_true,Option.some.injEq] at begun
    subst begun
    exact ⟨kept.count,fun id suspended => unbound_after (here id) rfl (kept.unbound id suspended),kept.tabled⟩
  | push id status blocks =>
    cases begun
    exact ⟨kept.count,fun id suspended => unbound_after (here id) rfl (kept.unbound id suspended),kept.tabled⟩
  | tick sessions =>
    cases begun
    exact ⟨kept.count,fun id suspended => unbound_after (here id) rfl (kept.unbound id suspended),kept.tabled⟩
  | unsubscribe id =>
    cases begun
    exact kept_getTaskAndRemove sound kept id here

private theorem kept_advance (sound : Sound s) (kept : Kept s) {thread : Nat} {what : Thread}
    (found : s.threads.lookup thread = some what) : Kept (s.after thread (advance s.members what)) := by
  cases what with
  | answered id again session =>
    refine ⟨kept.count,fun other suspended => ?_,kept.tabled⟩
    by_cases same : other = id
    · exact .inr ⟨thread,again,by rw [State.after,lookup_put,if_pos rfl,same,advance]⟩
    · have before : (Function.update s.members.tasks id { s.members.tasks id with session := some session } other).session =
          (s.members.tasks other).session := by rw [Function.update_of_ne same]
      exact unbound_after (by simp [found]) before (kept.unbound other suspended)
  | adding id again =>
    refine ⟨count_addTask kept.count id,fun other suspended => ?_,fun other acknowledged => ?_⟩
    · obtain ⟨different,before⟩ := Finset.mem_erase.mp suspended
      refine unbound_after (fun again' same => different ?_) rfl (kept.unbound other before)
      cases found.symm.trans same
      rfl
    · rcases Finset.mem_insert.mp acknowledged with same | before
      · exact tabled_addTask.mpr (.inl same)
      · exact tabled_addTask.mpr (.inr (kept.tabled other before))
  | ending id late => exact kept_getTaskAndRemove sound kept id (by simp [found])
  | storing id block blocks late | delivering id blocks late =>
    refine ⟨kept.count,fun other suspended => unbound_after (by simp [found]) ?_ (kept.unbound other suspended),kept.tabled⟩
    by_cases own : other = id <;> simp [advance,Members.modify,Members.record,own]
  | looping =>
    refine ⟨kept.count,fun other suspended => unbound_after (by simp [found]) ?_ (kept.unbound other suspended),kept.tabled⟩
    by_cases sent : other ∈ resent s.members <;> simp [advance,resend,sent,Task.request]
  | finishing _ _ | pushed _ _ _ _ | calling _ _ | comparing _ _ _ _ | unsubscribing _ =>
    exact ⟨kept.count,fun other suspended => unbound_after (by simp [found]) rfl (kept.unbound other suspended),kept.tabled⟩

private theorem kept_start : Kept start where
  count := rfl
  unbound := by simp [start]
  tabled := by simp [start]

theorem kept_of_reachable {allowed : State → Label → Prop} (reachable : (pool endPoint).Reachable allowed s) :
    Sound s ∧ Kept s := by
  refine invariant_of_sound kept_start ?_ (fun s session _ kept _ => kept_disconnect kept session)
    (fun s thread work turn sound kept _ idle begun => kept_begin sound kept idle begun)
    (fun s thread what sound kept _ found => kept_advance sound kept found) reachable
  · intro s id fromBlock _ kept _ _
    refine ⟨kept.count,fun other suspended => ?_,kept.tabled⟩
    by_cases same : other = id
    · exact .inl (by simp [subscribe,same,newTask,Task.request])
    · exact unbound_of_same (s := s) (by simp [subscribe,same]) (fun adding => adding) (kept.unbound other suspended)

/-! ### The tables -/

/-- In every state reached, the tables of tasks are as they should be. -/
theorem tables_of_reachable (reachable : (pool endPoint).Reachable Any s) :
    s.members.suspendTasksCount.toNat = s.members.suspendTasks.card % 2 ^ 32 ∧
      (∀ id, ¬ (id ∈ s.members.workingTasks ∧ id ∈ s.members.suspendTasks)) ∧
      (∀ id ∈ s.members.suspendTasks, Unbound s id) ∧
      ∀ id ∈ s.members.acknowledged, Xor (id ∈ s.members.workingTasks) (id ∈ s.members.suspendTasks) := by
  obtain ⟨sound,kept⟩ := kept_of_reachable reachable
  refine ⟨?_,fun id both => sound.apart id both.1 both.2,kept.unbound,fun id acknowledged => ?_⟩
  · rw [kept.count,UInt32.toNat_ofNat']
  · rcases kept.tabled id acknowledged with working | suspended
    · exact .inl ⟨working,sound.apart id working⟩
    · exact .inr ⟨suspended,fun working => sound.apart id working suspended⟩

/-- A task that is acknowledged on a session. -/
def acknowledge (id session : Nat) : List Label :=
  [.subscribe id 1,.begin 0 (.respond ⟨id,false⟩ (.success session)),.advance 0,.advance 0,.advance 0]
/-- The disconnect of a session, and the task sent again. -/
def reconnect (session : Nat) : List Label := [.disconnect session,.begin 0 (.tick true),.advance 0]

theorem tables_of_acknowledge : ∃ s, 0 ∈ s.members.suspendTasks ∧
    s.members.suspendTasksCount.toNat = s.members.suspendTasks.card % 2 ^ 32 ∧
      (∀ id, ¬ (id ∈ s.members.workingTasks ∧ id ∈ s.members.suspendTasks)) ∧
      (∀ id ∈ s.members.suspendTasks, Unbound s id) ∧
      ∀ id ∈ s.members.acknowledged, Xor (id ∈ s.members.workingTasks) (id ∈ s.members.suspendTasks) := by
  obtain ⟨s,reachable,suspended⟩ := exists_of_run (M := pool oneEndPoint)
    (obeys_any _ (acknowledge 0 0 ++ [.disconnect 0])) (fun s => decide (0 ∈ s.members.suspendTasks)) (by decide +kernel)
  exact ⟨s,of_decide_eq_true suspended,tables_of_reachable reachable⟩

/-- Any number of tasks can be working. -/
theorem working_many (n : Nat) : ∃ s, (pool oneEndPoint).Reachable Any s ∧ s.members.workingTasks = Finset.range n ∧
    s.members.suspendTasks = ∅ ∧ s.members.issued = Finset.range n ∧ s.threads.lookup 0 = none := by
  induction n with
  | zero => exact ⟨start,reaches_refl _,rfl,rfl,rfl,rfl⟩
  | succ n ih =>
    obtain ⟨s,reachable,working,suspended,issued,idle⟩ := ih
    have ran : ∃ t, (pool oneEndPoint).run s (acknowledge n 0) = some t ∧ t.members.workingTasks = insert n s.members.workingTasks ∧
        t.members.suspendTasks = s.members.suspendTasks.erase n ∧ t.members.issued = insert n s.members.issued ∧
        t.threads.lookup 0 = none := by
      simp [System.run,pool,acknowledge,step,begin,subscribe,advance,addTask,Members.modify,State.after,lookup_put,issued,idle]
    obtain ⟨t,ran,working',suspended',issued',idle'⟩ := ran
    refine ⟨t,?_,?_,?_,?_,idle'⟩
    · exact reachable_run reachable ran
    · rw [working',working,Finset.range_add_one]
    · rw [suspended',suspended,Finset.erase_empty]
    · rw [issued',issued,Finset.range_add_one]

/-- Any number of tasks can be suspended. -/
theorem suspended_many (n : Nat) : ∃ s, (pool oneEndPoint).Reachable Any s ∧ s.members.suspendTasks = Finset.range n := by
  obtain ⟨s,reachable,working,suspended,_,_⟩ := working_many n
  have ran : (pool oneEndPoint).run s [.disconnect 0] = some { s with members := suspendTasks oneEndPoint s.members 0 } := rfl
  refine ⟨_,reachable_run reachable ran,?_⟩
  have all : leaving oneEndPoint s.members 0 = s.members.workingTasks := by
    ext id
    simp [mem_leaving,oneEndPoint]
  simp [suspendTasks,all,working,suspended]

/-- A task that is about to be added is suspended with a session, and the counter does
    not count `2 ^ 32` suspended tasks. -/
theorem tables_break :
    (∃ s, (pool oneEndPoint).Reachable Any s ∧ ∃ id ∈ s.members.suspendTasks, (s.members.tasks id).session ≠ none) ∧
      ∃ s, (pool oneEndPoint).Reachable Any s ∧ s.members.suspendTasksCount.toNat ≠ s.members.suspendTasks.card := by
  constructor
  · obtain ⟨s,reachable,checked⟩ := exists_of_run (M := pool oneEndPoint)
      (obeys_any _ (acknowledge 0 0 ++ reconnect 0 ++ [.begin 0 (.respond ⟨0,true⟩ (.success 1)),.advance 0]))
      (fun s => decide (0 ∈ s.members.suspendTasks ∧ (s.members.tasks 0).session ≠ none)) (by decide +kernel)
    exact ⟨s,reachable,0,of_decide_eq_true checked⟩
  · obtain ⟨s,reachable,suspended⟩ := suspended_many (2 ^ 32)
    refine ⟨s,reachable,?_⟩
    rw [(kept_of_reachable reachable).2.count,UInt32.toNat_ofNat',suspended,Finset.card_range]
    decide

end CppSdk.EventTasks

import CppSdk.EventSub

/-!
What is left of a subscription after `unsubscribeEvent`: as long as no subscription of the
id succeeds after its removal, the id is in neither map, no request for it is sent and its
callback is not called with a later push (`silent_of_undisturbed`).
-/
namespace CppSdk.Unsubscription
open CppSdk.ByteString CppSdk.Tables CppSdk.Transition CppSdk.EventSub
variable {endPoint : Nat → Bytes} {s : State}

/-! ### The properties -/

/-- An event of an id for which `unsubscribeEvent` had returned. -/
def Late (id : Nat) (event : Event) : Prop := event = .subscribed id true ∨ event = .called id true

/-- Nothing happens to an id for which `unsubscribeEvent` has returned. -/
def Silent (s : State) : Prop :=
  ∀ id ∈ s.members.returned, ¬ s.members.Tabled id ∧ ∀ event ∈ s.members.log, ¬ Late id event

/-- The task that a thread is to add after a successful response. -/
def acknowledges : Thread → Option Nat
  | .answered id _ _ | .adding id _ => some id
  | _ => none
/-- The id that a thread has removed for `unsubscribeEvent`. -/
def unsubscribes : Thread → Option Nat
  | .unsubscribing id => some id
  | _ => none

/-- `unsubscribeEvent` has removed the id. -/
def Unsubscribed (s : State) (id : Nat) : Prop :=
  id ∈ s.members.returned ∨ some id ∈ (values s.threads).map unsubscribes

/-- No subscription of an id that `unsubscribeEvent` has removed starts or succeeds, and
    none is removed between its successful response and `addTask`. -/
def Undisturbed (s : State) : Label → Prop
  | .subscribe id _ => ¬ Unsubscribed s id
  | .begin _ (.respond request (.success _)) => ¬ Unsubscribed s request.id
  | .begin _ (.unsubscribe id) => some id ∉ (values s.threads).map acknowledges
  | _ => True
instance {id : Nat} : Decidable (Unsubscribed s id) := inferInstanceAs (Decidable (_ ∨ _))
instance : ∀ l, Decidable (Undisturbed s l)
  | .subscribe id _ => inferInstanceAs (Decidable (¬ Unsubscribed s id))
  | .begin _ (.respond request (.success _)) => inferInstanceAs (Decidable (¬ Unsubscribed s request.id))
  | .begin _ (.unsubscribe id) => inferInstanceAs (Decidable (some id ∉ (values s.threads).map acknowledges))
  | .begin _ (.respond _ .error) | .begin _ (.respond _ .malformed) | .begin _ (.respond _ .refused)
  | .begin _ (.push _ _ _) | .begin _ (.tick _) | .disconnect _ | .advance _ => .isTrue trivial

/-! ### The invariant -/

/-- What a thread may do next: add no task that was removed, and with a push that is late
    find no task. -/
def Fits (s : State) : Thread → Prop
  | .answered id _ _ | .adding id _ => ¬ Unsubscribed s id
  | .pushed id _ _ late => late = true → id ∈ s.members.returned
  | .ending _ late | .calling _ late | .comparing _ _ _ late | .storing _ _ _ late | .delivering _ _ late => late = false
  | .finishing _ _ | .looping | .unsubscribing _ => True

/-- What undisturbed steps preserve. -/
structure Inv (s : State) : Prop where
  absent : ∀ id, Unsubscribed s id → ¬ s.members.Tabled id
  fits : ∀ what ∈ values s.threads, Fits s what
  silent : ∀ event ∈ s.members.log, ∀ id, ¬ Late id event

theorem inv_start : Inv start where
  absent := by simp [start,Members.Tabled]
  fits := by simp [start,values]
  silent := by simp [start]

private theorem silent_cons {log : Multiset Event} {event : Event} (early : ∀ id, ¬ Late id event)
    (silent : ∀ event ∈ log, ∀ id, ¬ Late id event) : ∀ other ∈ event ::ₘ log, ∀ id, ¬ Late id other := by
  intro other listed
  rcases Multiset.mem_cons.mp listed with rfl | old
  · exact early
  · exact silent other old

private theorem fits_of_less {t : State} (less : ∀ id, Unsubscribed t id → Unsubscribed s id)
    (grows : s.members.returned ⊆ t.members.returned) {what : Thread} (fits : Fits s what) : Fits t what := by
  cases what with
  | answered _ _ _ | adding _ _ => exact fun unsubscribed => fits (less _ unsubscribed)
  | pushed _ _ _ _ => exact fun late => grows (fits late)
  | finishing _ _ | ending _ _ | calling _ _ | comparing _ _ _ _ | storing _ _ _ _ | delivering _ _ _ | looping
  | unsubscribing _ => exact fits

/-- A thread that does not start to unsubscribe removes no further id. -/
theorem unsubscribed_after {thread : Nat} {turn : Members × Option Thread}
    (returned : turn.1.returned = s.members.returned) (next : ∀ what, turn.2 = some what → unsubscribes what = none) :
    ∀ id, Unsubscribed (s.after thread turn) id → Unsubscribed s id := by
  rintro id (before | member)
  · exact .inl (returned ▸ before)
  · obtain ⟨what,listed,same⟩ := List.mem_map.mp member
    rcases mem_values_put listed with new | old
    · simp [next what new] at same
    · exact .inr (List.mem_map.mpr ⟨what,old,same⟩)

/-- The section of a thread that removes no further id for `unsubscribeEvent`. -/
theorem inv_after (inv : Inv s) {thread : Nat} {turn : Members × Option Thread}
    (less : ∀ id, Unsubscribed (s.after thread turn) id → Unsubscribed s id)
    (grows : s.members.returned ⊆ turn.1.returned)
    (tabled : ∀ id, Unsubscribed s id → turn.1.Tabled id → s.members.Tabled id)
    (fits : ∀ what, turn.2 = some what → Fits s what) (silent : ∀ event ∈ turn.1.log, ∀ id, ¬ Late id event) :
    Inv (s.after thread turn) where
  absent id unsubscribed present := inv.absent id (less id unsubscribed) (tabled id (less id unsubscribed) present)
  fits what listed := by
    refine fits_of_less less grows ?_
    rcases mem_values_put listed with new | old
    · exact fits what new
    · exact inv.fits what old
  silent := silent

/-- `unsubscribeEvent` removes an id whose subscription is not being acknowledged. -/
theorem inv_unsubscribe (sound : Sound s) (inv : Inv s) {thread id : Nat}
    (undisturbed : some id ∉ (values s.threads).map acknowledges) :
    Inv (s.after thread ({ getTaskAndRemove s.members id with acknowledged := s.members.acknowledged.erase id },
      some (.unsubscribing id))) := by
  have less : ∀ other, other ≠ id → Unsubscribed (s.after thread ({ getTaskAndRemove s.members id with
      acknowledged := s.members.acknowledged.erase id },some (.unsubscribing id))) other → Unsubscribed s other := by
    rintro other different (before | member)
    · exact .inl before
    · obtain ⟨what,listed,same⟩ := List.mem_map.mp member
      rcases mem_values_put listed with new | old
      · cases new
        exact absurd (Option.some.inj same).symm different
      · exact .inr (List.mem_map.mpr ⟨what,old,same⟩)
  refine ⟨?_,?_,inv.silent⟩
  · intro other unsubscribed tabled
    obtain ⟨different,before⟩ := (tabled_getTaskAndRemove sound.apart).mp tabled
    exact inv.absent other (less other different unsubscribed) before
  · intro what listed
    rcases mem_values_put listed with new | old
    · cases new
      trivial
    · have fits := inv.fits what old
      have apart : ∀ other, acknowledges what = some other → other ≠ id := by
        rintro other same rfl
        exact undisturbed (List.mem_map.mpr ⟨what,old,same⟩)
      cases what with
      | answered other _ _ | adding other _ => exact fun unsubscribed => fits (less other (apart other rfl) unsubscribed)
      | finishing _ _ | pushed _ _ _ _ | ending _ _ | calling _ _ | comparing _ _ _ _ | storing _ _ _ _ | delivering _ _ _
      | looping | unsubscribing _ => exact fits

theorem inv_begin (sound : Sound s) (inv : Inv s) {thread : Nat} {work : Work} {turn : Members × Option Thread}
    (undisturbed : Undisturbed s (.begin thread work)) (begun : begin s.members work = some turn) :
    Inv (s.after thread turn) := by
  cases work with
  | respond request answer =>
    have listed := listed_of_begun begun
    simp only [begin,listed,if_true,Option.some.injEq] at begun
    subst begun
    refine inv_after inv (unsubscribed_after rfl ?_) subset_rfl (fun _ _ tabled => tabled) ?_ inv.silent
    · cases answer <;> rintro _ ⟨⟩ <;> rfl
    · cases answer with
      | success session =>
        rintro _ ⟨⟩
        exact undisturbed
      | error | malformed | refused =>
        rintro _ ⟨⟩
        trivial
  | push id status blocks =>
    cases begun
    refine inv_after inv (unsubscribed_after rfl ?_) subset_rfl (fun _ _ tabled => tabled) ?_ inv.silent
    · rintro _ ⟨⟩
      rfl
    · rintro _ ⟨⟩
      exact fun late => of_decide_eq_true late
  | tick sessions =>
    cases begun
    refine inv_after inv (unsubscribed_after rfl ?_) subset_rfl (fun _ _ tabled => tabled) ?_ inv.silent
    all_goals
      intro what next
      dsimp only at next
      split at next <;> cases next
      first | rfl | trivial
  | unsubscribe id =>
    cases begun
    exact inv_unsubscribe sound inv undisturbed

/-- What a thread does next fits again. -/
theorem fits_advance (inv : Inv s) {what next : Thread} (fits : Fits s what) (goes : (advance s.members what).2 = some next) :
    Fits s next ∧ unsubscribes next = none := by
  cases what with
  | answered id again session =>
    cases goes
    exact ⟨fits,rfl⟩
  | adding id again =>
    cases goes
    exact ⟨trivial,rfl⟩
  | pushed id status blocks late =>
    by_cases tabled : id ∈ s.members.workingTasks ∪ s.members.suspendTasks
    · have early : late = false := by
        cases late with
        | false => rfl
        | true => exact absurd (Finset.mem_union.mp tabled) (inv.absent id (.inl (fits rfl)))
      simp only [advance,tabled,if_true] at goes
      cases status <;> cases blocks <;> (cases goes; exact ⟨early,rfl⟩)
    · simp [advance,tabled] at goes
  | ending id late =>
    cases goes
    exact ⟨fits,rfl⟩
  | comparing id block blocks late =>
    cases goes
    split
    · exact ⟨fits,rfl⟩
    · exact ⟨fits,rfl⟩
  | storing id block blocks late =>
    cases goes
    exact ⟨fits,rfl⟩
  | finishing _ _ | calling _ _ | delivering _ _ _ | looping | unsubscribing _ => cases goes

theorem inv_advance (sound : Sound s) (inv : Inv s) {thread : Nat} {what : Thread}
    (found : s.threads.lookup thread = some what) : Inv (s.after thread (advance s.members what)) := by
  have fits : Fits s what := inv.fits what (mem_values.mpr ⟨thread,found⟩)
  have later : ∀ next, (advance s.members what).2 = some next → Fits s next := fun next goes => (fits_advance inv fits goes).1
  have quiet : ∀ next, (advance s.members what).2 = some next → unsubscribes next = none :=
    fun next goes => (fits_advance inv fits goes).2
  cases what with
  | adding id again =>
    refine inv_after inv (unsubscribed_after rfl quiet) subset_rfl (fun other unsubscribed tabled => ?_) later inv.silent
    rcases tabled_addTask.mp tabled with rfl | before
    · exact absurd unsubscribed fits
    · exact before
  | ending id late =>
    exact inv_after inv (unsubscribed_after rfl quiet) subset_rfl
      (fun other _ tabled => ((tabled_getTaskAndRemove sound.apart).mp tabled).2) later inv.silent
  | calling id late =>
    refine inv_after inv (unsubscribed_after rfl quiet) subset_rfl (fun _ _ tabled => tabled) later ?_
    exact silent_cons (by cases fits; simp [Late]) inv.silent
  | delivering id blocks late =>
    refine inv_after inv (unsubscribed_after rfl quiet) subset_rfl (fun _ _ tabled => tabled) later ?_
    exact silent_cons (by cases fits; simp [Late]) inv.silent
  | looping =>
    refine inv_after inv (unsubscribed_after rfl quiet) subset_rfl (fun _ _ tabled => tabled) later ?_
    intro event listed
    simp only [advance,resend,Multiset.mem_add,Multiset.mem_map] at listed
    rcases listed with old | ⟨id,sent,rfl⟩
    · exact inv.silent event old
    · have suspended : id ∈ s.members.suspendTasks := (Finset.mem_sdiff.mp sent).1
      have remains : id ∉ s.members.returned := fun returned => inv.absent id (.inl returned) (.inr suspended)
      simp [Late,remains]
  | unsubscribing id =>
    refine inv_after inv ?_ (Finset.subset_insert _ _) (fun _ _ tabled => tabled) later inv.silent
    rintro other (returned | member)
    · rcases Finset.mem_insert.mp returned with rfl | before
      · exact .inr (List.mem_map.mpr ⟨_,mem_values.mpr ⟨thread,found⟩,rfl⟩)
      · exact .inl before
    · obtain ⟨what,listed,same⟩ := List.mem_map.mp member
      rcases mem_values_put listed with new | old
      · cases new
      · exact .inr (List.mem_map.mpr ⟨what,old,same⟩)
  | answered _ _ _ | finishing _ _ | pushed _ _ _ _ | comparing _ _ _ _ | storing _ _ _ _ =>
    exact inv_after inv (unsubscribed_after rfl quiet) subset_rfl (fun _ _ tabled => tabled) later inv.silent

/-- In every undisturbed run, in every state reached, nothing happens to an id for which
    `unsubscribeEvent` has returned. -/
theorem silent_of_undisturbed (reachable : (pool endPoint).Reachable Undisturbed s) : Silent s := by
  have inv : Inv s := by
    refine (invariant_of_sound inv_start ?_ ?_
      (fun s thread work turn sound inv undisturbed _ begun => inv_begin sound inv undisturbed begun)
      (fun s thread what sound inv _ found => inv_advance sound inv found) reachable).2
    · intro s id fromBlock _ inv undisturbed _
      refine ⟨inv.absent,inv.fits,silent_cons ?_ inv.silent⟩
      have fresh : id ∉ s.members.returned := fun returned => undisturbed (.inl returned)
      simp [Late,fresh]
    · intro s session _ inv _
      exact ⟨fun id unsubscribed tabled => inv.absent id unsubscribed (tabled_suspendTasks.mp tabled),inv.fits,inv.silent⟩
  exact fun id returned => ⟨inv.absent id (.inl returned),fun event listed => inv.silent event listed id⟩

/-- A task that is acknowledged, then unsubscribed, and a push that comes too late. -/
def unsubscribed : List Label :=
  [.subscribe 0 1,.begin 0 (.respond ⟨0,false⟩ (.success 0)),.advance 0,.advance 0,.advance 0,
    .begin 0 (.unsubscribe 0),.advance 0,.begin 0 (.push 0 .success [5]),.advance 0]
/-- A task whose subscribe request is answered after `unsubscribeEvent`, and a push. -/
def resurrected : List Label :=
  [.subscribe 0 1,.begin 0 (.unsubscribe 0),.advance 0,.begin 0 (.respond ⟨0,false⟩ (.success 0)),.advance 0,.advance 0,
    .advance 0,.begin 0 (.push 0 .success [5]),.advance 0,.advance 0,.advance 0,.advance 0]

theorem silent_of_unsubscribed : ∃ s : State, 0 ∈ s.members.returned ∧ Silent s := by
  have undisturbed : (pool oneEndPoint).Obeys Undisturbed (pool oneEndPoint).start unsubscribed := by decide +kernel
  obtain ⟨s,reachable,returned⟩ := exists_of_run undisturbed (fun s => decide (0 ∈ s.members.returned)) (by decide +kernel)
  exact ⟨s,of_decide_eq_true returned,silent_of_undisturbed reachable⟩

/-- A successful response after `unsubscribeEvent` brings the task back: it is working and
    its callback is called with a later push. -/
theorem resurrected_run : ∃ s : State, (pool oneEndPoint).Reachable Any s ∧ ∃ id ∈ s.members.returned,
    id ∈ s.members.workingTasks ∧ .called id true ∈ s.members.log := by
  obtain ⟨s,reachable,checked⟩ := exists_of_run (M := pool oneEndPoint) (obeys_any _ resurrected)
    (fun s => decide (0 ∈ s.members.returned ∧ 0 ∈ s.members.workingTasks ∧ Event.called 0 true ∈ s.members.log)) (by decide +kernel)
  exact ⟨s,reachable,0,of_decide_eq_true checked⟩

end CppSdk.Unsubscription

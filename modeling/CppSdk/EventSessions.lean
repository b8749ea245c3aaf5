import CppSdk.EventSub

/-!
The sessions of the working tasks: as long as a task is added only while the disconnect
of its session has not been handled, no working task is left on a session that is gone
(`served_of_timely`).
-/
namespace CppSdk.EventSessions
open CppSdk.ByteString CppSdk.Tables CppSdk.Transition CppSdk.EventSub
variable {endPoint : Nat → Bytes} {m : Members} {s : State}

/-- The task has a session whose disconnect has not been handled. -/
def Served (m : Members) (id : Nat) : Prop := ∃ session, (m.tasks id).session = some session ∧ session ∉ m.disconnected

instance {id : Nat} : Decidable (Served m id) := decidable_of_iff ((m.tasks id).session.any (fun session => session ∉ m.disconnected))
  (by simp [Served,Option.any_eq_true])

/-- A task is added only while its session serves it. -/
def Timely (s : State) : Label → Prop
  | .advance thread => match s.threads.lookup thread with
    | some (.adding id _) => Served s.members id
    | _ => True
  | _ => True
instance {s : State} : ∀ l, Decidable (Timely s l)
  | .advance thread =>
    match found : s.threads.lookup thread with
    | some (.adding id _) => decidable_of_iff (Served s.members id) (by simp [Timely,found])
    | none | some (.answered _ _ _) | some (.finishing _ _) | some (.pushed _ _ _ _) | some (.ending _ _)
    | some (.calling _ _) | some (.comparing _ _ _ _) | some (.storing _ _ _ _) | some (.delivering _ _ _)
    | some .looping | some (.unsubscribing _) => .isTrue (by simp [Timely,found])
  | .subscribe _ _ | .disconnect _ | .begin _ _ => .isTrue trivial

/-- The working task is served, or a thread is about to add it. -/
def Attended (s : State) (id : Nat) : Prop := Served s.members id ∨ s.Adding id

private theorem served_of_same {n : Members} {id : Nat} (session : (n.tasks id).session = (m.tasks id).session)
    (disconnected : n.disconnected = m.disconnected) (served : Served m id) : Served n id := by
  obtain ⟨other,set,live⟩ := served
  exact ⟨other,session.trans set,disconnected ▸ live⟩

/-- The section of a thread that neither adds the task nor sets its session. -/
theorem attended_after {thread : Nat} {turn : Members × Option Thread} {id : Nat}
    (here : ∀ again, s.threads.lookup thread ≠ some (.adding id again))
    (session : (turn.1.tasks id).session = (s.members.tasks id).session)
    (disconnected : turn.1.disconnected = s.members.disconnected) (attended : Attended s id) :
    Attended (s.after thread turn) id := by
  rcases attended with served | adding
  · exact .inl (served_of_same session disconnected served)
  · exact .inr (adding_after here adding)

/-- What `suspendTasks` leaves working has a session of another endpoint. -/
theorem attended_disconnect {session id : Nat} (attended : Attended s id)
    (working : id ∈ (suspendTasks endPoint s.members session).workingTasks) :
    Attended { s with members := suspendTasks endPoint s.members session } id := by
  obtain ⟨before,stays⟩ := Finset.mem_sdiff.mp working
  rcases attended with ⟨other,set,live⟩ | adding
  · have apart : other ≠ session := by
      rintro rfl
      refine stays (mem_leaving.mpr ⟨before,fun bound same => ?_⟩)
      rw [set,Option.some.injEq] at same
      rw [same]
    exact .inl ⟨other,by simp [suspendTasks,stays,set],by simp [suspendTasks,apart,live]⟩
  · exact .inr adding

private theorem attended_begin {thread : Nat} {work : Work} {turn : Members × Option Thread}
    (attended : ∀ id ∈ s.members.workingTasks, Attended s id) (idle : s.threads.lookup thread = none)
    (begun : begin s.members work = some turn) : ∀ id ∈ turn.1.workingTasks, Attended (s.after thread turn) id := by
  intro id working
  have here : ∀ again, s.threads.lookup thread ≠ some (.adding id again) := by simp [idle]
  cases work with
  | respond request answer =>
    have listed := listed_of_begun begun
    simp only [begin,listed,if_true,Option.some.injEq] at begun
    subst begun
    exact attended_after here rfl rfl (attended id working)
  | push other status blocks =>
    cases begun
    exact attended_after here rfl rfl (attended id working)
  | tick sessions =>
    cases begun
    exact attended_after here rfl rfl (attended id working)
  | unsubscribe other =>
    cases begun
    exact attended_after here rfl rfl (attended id (Finset.mem_of_mem_erase working))

private theorem attended_advance {thread : Nat} {what : Thread} (attended : ∀ id ∈ s.members.workingTasks, Attended s id)
    (found : s.threads.lookup thread = some what)
    (timely : Timely s (.advance thread)) :
    ∀ id ∈ (advance s.members what).1.workingTasks, Attended (s.after thread (advance s.members what)) id := by
  intro other working
  cases what with
  | answered id again session =>
    by_cases same : other = id
    · refine .inr ⟨thread,again,?_⟩
      rw [State.after,lookup_put,if_pos rfl,same,advance]
    · exact attended_after (by simp [found]) (by simp [advance,Members.modify,same]) rfl (attended other working)
  | adding id again =>
    by_cases same : other = id
    · subst same
      simp only [Timely,found] at timely
      exact .inl (served_of_same (m := s.members) rfl rfl timely)
    · refine attended_after (fun again' here => same ?_) rfl rfl (attended other (Finset.mem_of_mem_insert_of_ne working same))
      cases found.symm.trans here
      rfl
  | ending id late => exact attended_after (by simp [found]) rfl rfl (attended other (Finset.mem_of_mem_erase working))
  | storing id block blocks late | delivering id blocks late =>
    refine attended_after (by simp [found]) ?_ rfl (attended other working)
    by_cases own : other = id <;> simp [advance,Members.modify,Members.record,own]
  | looping =>
    refine attended_after (by simp [found]) ?_ rfl (attended other working)
    by_cases sent : other ∈ resent s.members <;> simp [advance,resend,sent,Task.request]
  | finishing _ _ | pushed _ _ _ _ | calling _ _ | comparing _ _ _ _ | unsubscribing _ =>
    exact attended_after (by simp [found]) rfl rfl (attended other working)

/-- In every run that adds tasks only while their sessions serve them, in every state
    without a handler in progress, every working task has a session that is not gone. -/
theorem served_of_timely (reachable : (pool endPoint).Reachable Timely s) (idle : s.threads = ∅) :
    ∀ id ∈ s.members.workingTasks, Served s.members id := by
  have attended : ∀ id ∈ s.members.workingTasks, Attended s id := by
    refine (invariant_of_sound (I := fun s => ∀ id ∈ s.members.workingTasks, Attended s id) ?_ ?_
      (fun s session _ attended _ id working =>
        attended_disconnect (attended id (Finset.mem_sdiff.mp working).1) working)
      (fun s thread work turn _ attended _ free begun => attended_begin attended free begun)
      (fun s thread what _ attended timely found => attended_advance attended found timely) reachable).2
    · simp [start]
    · intro s id fromBlock sound attended _ fresh other working
      have apart : other ≠ id := fun same => fresh (sound.tabled id (.inl (same ▸ working)))
      rcases attended other working with served | adding
      · exact .inl (served_of_same (m := s.members) (by simp [subscribe,apart]) rfl served)
      · exact .inr adding
  intro id working
  rcases attended id working with served | ⟨thread,again,found⟩
  · exact served
  · simp [idle] at found

/-- A task that is acknowledged on a session, whose disconnect comes before `addTask` or
    after it. -/
def acknowledged : List Label := [.subscribe 0 1,.begin 0 (.respond ⟨0,false⟩ (.success 0)),.advance 0]

theorem served_of_acknowledged : ∃ s : State, 0 ∈ s.members.workingTasks ∧ ∀ id ∈ s.members.workingTasks, Served s.members id := by
  have timely : (pool oneEndPoint).Obeys Timely (pool oneEndPoint).start (acknowledged ++ [.advance 0,.advance 0]) := by decide +kernel
  obtain ⟨s,reachable,checked⟩ := exists_of_run timely
    (fun s => decide (s.threads.entries.isEmpty ∧ 0 ∈ s.members.workingTasks)) (by decide +kernel)
  obtain ⟨idle,working⟩ := of_decide_eq_true checked
  exact ⟨s,working,served_of_timely reachable (AList.ext (List.isEmpty_iff.mp idle))⟩

/-- A task that is added after the disconnect of its session is left working on it. -/
theorem stranded_run : ∃ s, (pool oneEndPoint).Reachable Any s ∧ s.threads = ∅ ∧
    ∃ id ∈ s.members.workingTasks, ¬ Served s.members id := by
  obtain ⟨s,reachable,checked⟩ := exists_of_run (M := pool oneEndPoint)
    (obeys_any _ (acknowledged ++ [.disconnect 0,.advance 0,.advance 0]))
    (fun s => decide (s.threads.entries.isEmpty ∧ 0 ∈ s.members.workingTasks ∧ ¬ Served s.members 0)) (by decide +kernel)
  obtain ⟨idle,stranded⟩ := of_decide_eq_true checked
  exact ⟨s,reachable,AList.ext (List.isEmpty_iff.mp idle),0,stranded⟩

end CppSdk.EventSessions

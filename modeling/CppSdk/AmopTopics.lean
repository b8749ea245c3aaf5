import CppSdk.ByteString
import CppSdk.Tables
import CppSdk.Transition
import Mathlib.Data.Finset.Card

/-!
The topics of the AMOP client under threads. A call of `subscribe` or `unsubscribe` that
changes the topics takes the list of the sessions, and then for each session the topics
as they are and, in a step of its own, sends them; the completion of a handshake does the
same for its session. Where no message of old topics comes after the last update of a
session, every session ends with the topics of the manager (`settled_of_orderly`).
-/
namespace CppSdk.AmopTopics
open CppSdk.ByteString CppSdk.Tables CppSdk.Transition

/-! ### The calls -/

/-- Where a call is: in `removeTopics` with the topics that are left, before the list of
    the sessions, in the loop over the sessions that are left, or before `asyncSendMessage`
    with the topics that `toJson` has taken. -/
inductive Call where
  | removing (left : List Bytes) (removed : Bool)
  | listing
  | updating (sessions : List Nat)
  | sending (session : Nat) (topics : Finset Bytes) (sessions : List Nat)

/-- The topics of the manager; the sessions that have been opened, those that are
    connected and those whose handshake is complete; the topics of the last message on
    each session; and the calls of the threads. -/
structure State where
  topics : Finset Bytes
  opened : Finset Nat
  live : Finset Nat
  handshaken : Finset Nat
  sent : Table Nat (Finset Bytes)
  calls : Table Nat Call

/-- What can happen next. The list of the sessions has no order. -/
inductive Label where
  | connect (session : Nat)
  | disconnect (session : Nat)
  | handshake (thread session : Nat)
  | subscribe (thread : Nat) (topics : Finset Bytes)
  | unsubscribe (thread : Nat) (topics : List Bytes)
  | sessions (thread : Nat) (listed : List Nat)
  | advance (thread : Nat)

/-- `TopicManager::addTopics`: the topics, and whether there are more of them. -/
def addTopics (topics added : Finset Bytes) : Finset Bytes × Bool :=
  (topics ∪ added,decide (topics.card < (topics ∪ added).card))
/-- `TopicManager::removeTopic`. -/
def removeTopic (topics : Finset Bytes) (topic : Bytes) : Finset Bytes × Bool :=
  (topics.erase topic,decide (topic ∈ topics))

/-- `AMOP::updateTopicsToRemote`, when the topics have changed. -/
def updateTopicsToRemote (changed : Bool) : Option Call := if changed then some .listing else none

/-- The next step of a call. -/
def advance (s : State) (thread : Nat) : Call → Option State
  | .removing [] removed => some { s with calls := put s.calls thread (updateTopicsToRemote removed) }
  | .removing (topic :: left) removed =>
    let (topics,erased) := removeTopic s.topics topic
    some { s with topics := topics,calls := s.calls.insert thread (.removing left (removed || erased)) }
  | .listing => none
  | .updating [] => some { s with calls := s.calls.erase thread }
  | .updating (session :: sessions) =>
    some { s with calls := s.calls.insert thread (.sending session s.topics sessions) }
  | .sending session topics sessions =>
    some { s with
      sent := if session ∈ s.live then s.sent.insert session topics else s.sent
      calls := s.calls.insert thread (.updating sessions) }

/-- Where a step leads. Sessions are objects: one that has been closed is not opened again. -/
def step (s : State) : Label → Option State
  | .connect session =>
    if session ∈ s.opened then none
    else some { s with opened := insert session s.opened,live := insert session s.live }
  | .disconnect session => some { s with live := s.live.erase session }
  | .handshake thread session =>
    if (s.calls.lookup thread).isNone ∧ session ∈ s.live then
      some { s with
        handshaken := insert session s.handshaken
        calls := s.calls.insert thread (.updating [session]) }
    else none
  | .subscribe thread topics =>
    if (s.calls.lookup thread).isNone then
      let (topics,changed) := addTopics s.topics topics
      some { s with topics := topics,calls := put s.calls thread (updateTopicsToRemote changed) }
    else none
  | .unsubscribe thread topics =>
    if (s.calls.lookup thread).isNone then
      some { s with calls := s.calls.insert thread (.removing topics false) }
    else none
  | .sessions thread listed =>
    match s.calls.lookup thread with
    | some .listing =>
      if listed.toFinset = s.live then some { s with calls := s.calls.insert thread (.updating listed) } else none
    | _ => none
  | .advance thread => (s.calls.lookup thread).bind (advance s thread)

/-- The client and its threads. -/
def client : System State Label := ⟨⟨∅,∅,∅,∅,∅,∅⟩,step⟩

/-! ### The condition -/

/-- The call has yet to take the topics for the session, or has taken them as they are. -/
def Call.Owes (topics : Finset Bytes) (session : Nat) : Call → Prop
  | .removing _ removed => removed = true
  | .listing => True
  | .updating sessions => session ∈ sessions
  | .sending to' taken sessions => (to' = session ∧ taken = topics) ∨ session ∈ sessions

/-- Some call but that of the thread owes the session a message. -/
def OwedBut (s : State) (thread session : Nat) : Prop :=
  ∃ e ∈ s.calls.entries, e.1 ≠ thread ∧ e.2.Owes s.topics session

/-- A message of old topics to a session with a complete handshake is sent only while
    another call owes the session a message. -/
def Orderly (s : State) : Label → Prop
  | .advance thread =>
    match s.calls.lookup thread with
    | some (.sending session topics _) =>
      session ∈ s.live → session ∈ s.handshaken → topics = s.topics ∨ OwedBut s thread session
    | _ => True
  | _ => True

instance (topics : Finset Bytes) (session : Nat) : ∀ call : Call, Decidable (call.Owes topics session)
  | .removing _ removed => inferInstanceAs (Decidable (removed = true))
  | .listing => inferInstanceAs (Decidable True)
  | .updating sessions => inferInstanceAs (Decidable (session ∈ sessions))
  | .sending to' taken sessions => inferInstanceAs (Decidable ((to' = session ∧ taken = topics) ∨ session ∈ sessions))
instance (s : State) (thread session : Nat) : Decidable (OwedBut s thread session) :=
  inferInstanceAs (Decidable (∃ e ∈ s.calls.entries, e.1 ≠ thread ∧ e.2.Owes s.topics session))
instance (s : State) : ∀ l, Decidable (Orderly s l)
  | .advance thread =>
    match found : s.calls.lookup thread with
    | some (.sending session topics _) =>
      decidable_of_iff (session ∈ s.live → session ∈ s.handshaken → topics = s.topics ∨ OwedBut s thread session)
        (by simp [Orderly,found])
    | none | some .listing | some (.removing _ _) | some (.updating _) => .isTrue (by simp [Orderly,found])
  | .connect _ | .disconnect _ | .handshake _ _ | .subscribe _ _ | .unsubscribe _ _ | .sessions _ _ => .isTrue trivial

/-! ### The invariant -/

variable {s t : State} {thread session : Nat}

/-- Some call owes the session a message. -/
def Owed (s : State) (session : Nat) : Prop :=
  ∃ thread call, s.calls.lookup thread = some call ∧ call.Owes s.topics session
/-- The last message on the session carries the topics, or another one is to come. -/
def Served (s : State) (session : Nat) : Prop := s.sent.lookup session = some s.topics ∨ Owed s session
/-- Every session with a complete handshake is served. -/
def AllServed (s : State) : Prop := ∀ session ∈ s.live, session ∈ s.handshaken → Served s session

private theorem owedBut_iff : OwedBut s thread session ↔
    ∃ other call, other ≠ thread ∧ s.calls.lookup other = some call ∧ call.Owes s.topics session := by
  constructor
  · rintro ⟨⟨other,call⟩,member,different,owes⟩
    exact ⟨other,call,different,AList.mem_lookup_iff.mpr member,owes⟩
  · rintro ⟨other,call,different,found,owes⟩
    exact ⟨⟨other,call⟩,AList.mem_lookup_iff.mp found,different,owes⟩

/-- What a session is owed, it is still owed where the thread's new call owes what its old
    one did. -/
theorem owed_put (call : Option Call) (owed : Owed s session) (topics : t.topics = s.topics)
    (calls : t.calls = put s.calls thread call)
    (passed : ∀ old, s.calls.lookup thread = some old → old.Owes s.topics session →
      ∃ new, call = some new ∧ new.Owes s.topics session) : Owed t session := by
  obtain ⟨other,old,found,owes⟩ := owed
  by_cases same : other = thread
  · subst same
    obtain ⟨new,rfl,owing⟩ := passed old found owes
    exact ⟨other,new,by rw [calls,lookup_put,if_pos rfl],topics ▸ owing⟩
  · exact ⟨other,old,by rw [calls,lookup_put,if_neg same,found],topics ▸ owes⟩

/-- A session stays served by a step of a call that sends nothing and changes no topics. -/
theorem served_put {old : Call} (call : Option Call) (served : Served s session)
    (found : s.calls.lookup thread = some old) (topics : t.topics = s.topics) (sent : t.sent = s.sent)
    (calls : t.calls = put s.calls thread call)
    (passed : old.Owes s.topics session → ∃ new, call = some new ∧ new.Owes s.topics session) :
    Served t session := by
  rcases served with settled | owed
  · exact .inl (by rw [sent,topics,settled])
  · refine .inr (owed_put call owed topics calls (fun other before owes => passed ?_))
    rw [found,Option.some.injEq] at before
    exact before ▸ owes

/-- A session stays served by a call that begins without a change of the topics. -/
theorem served_begin (call : Option Call) (served : Served s session) (idle : s.calls.lookup thread = none)
    (topics : t.topics = s.topics) (sent : t.sent = s.sent) (calls : t.calls = put s.calls thread call) :
    Served t session := by
  rcases served with settled | owed
  · exact .inl (by rw [sent,topics,settled])
  · exact .inr (owed_put call owed topics calls (by simp [idle]))

private theorem served_of_new {call : Call} (found : t.calls.lookup thread = some call) (owes : call.Owes t.topics session) :
    Served t session := .inr ⟨thread,call,found,owes⟩

/-! ### Steps -/

/-- The sessions are among those that have been opened. -/
structure Within (s : State) : Prop where
  live : s.live ⊆ s.opened
  handshaken : s.handshaken ⊆ s.opened

private theorem within_step (within : Within s) {l : Label} (stepped : step s l = some t) : Within t := by
  cases l with
  | connect fresh =>
    obtain ⟨_,stepped⟩ := Option.ite_none_left_eq_some.mp stepped
    cases stepped
    exact ⟨Finset.insert_subset_insert fresh within.live,within.handshaken.trans (Finset.subset_insert fresh s.opened)⟩
  | disconnect gone =>
    cases stepped
    exact ⟨(Finset.erase_subset gone s.live).trans within.live,within.handshaken⟩
  | handshake thread complete =>
    obtain ⟨⟨_,live⟩,stepped⟩ := Option.ite_none_right_eq_some.mp stepped
    cases stepped
    exact ⟨within.live,Finset.insert_subset (within.live live) within.handshaken⟩
  | subscribe thread topics | unsubscribe thread topics =>
    obtain ⟨_,stepped⟩ := Option.ite_none_right_eq_some.mp stepped
    cases stepped
    exact ⟨within.live,within.handshaken⟩
  | sessions thread listed =>
    simp only [step] at stepped
    split at stepped
    · obtain ⟨_,stepped⟩ := Option.ite_none_right_eq_some.mp stepped
      cases stepped
      exact ⟨within.live,within.handshaken⟩
    · cases stepped
  | advance thread =>
    obtain ⟨call,_,stepped⟩ := Option.bind_eq_some_iff.mp stepped
    rcases call with ⟨_ | _,_⟩ | _ | (_ | _) | _ <;> cases stepped <;> exact ⟨within.live,within.handshaken⟩

private theorem unchanged_of_card {topics added : Finset Bytes} (same : (addTopics topics added).2 = false) :
    (addTopics topics added).1 = topics := by
  simp only [addTopics,decide_eq_false_iff_not,not_lt] at same
  exact (Finset.eq_of_subset_of_card_le Finset.subset_union_left same).symm

private theorem allServed_advance (all : AllServed s) {call : Call} (found : s.calls.lookup thread = some call)
    (orderly : Orderly s (.advance thread)) (stepped : advance s thread call = some t) : AllServed t := by
  intro session live handshaken
  cases call with
  | removing left removed =>
    cases left with
    | nil =>
      cases stepped
      exact served_put _ (all session live handshaken) found rfl rfl rfl
        (fun owes => ⟨.listing,if_pos owes,trivial⟩)
    | cons topic left =>
      simp only [advance,removeTopic,Option.some.injEq] at stepped
      subst stepped
      by_cases held : topic ∈ s.topics
      · exact served_of_new (AList.lookup_insert _) (by simp [Call.Owes,held])
      · exact served_put (some (.removing left removed)) (all session live handshaken) found
          (Finset.erase_eq_of_notMem held) rfl (by simp [put,held]) (fun owes => ⟨_,rfl,owes⟩)
  | listing => cases stepped
  | updating sessions =>
    cases sessions with
    | nil =>
      cases stepped
      exact served_put none (all session live handshaken) found rfl rfl rfl (by intro owes; cases owes)
    | cons first sessions =>
      cases stepped
      refine served_put (some (.sending first s.topics sessions)) (all session live handshaken) found rfl rfl
        rfl (fun owes => ⟨_,rfl,?_⟩)
      rcases List.mem_cons.mp owes with same | later
      · exact .inl ⟨same.symm,rfl⟩
      · exact .inr later
  | sending to' taken sessions =>
    cases stepped
    simp only [Orderly,found] at orderly
    by_cases own : session = to'
    · subst own
      -- the message goes to this session: it carries the topics, or another one is to come
      rcases orderly live handshaken with current | other
      · refine .inl ?_
        rw [if_pos live,AList.lookup_insert,current]
      · obtain ⟨other,call,different,before,owes⟩ := owedBut_iff.mp other
        exact .inr ⟨other,call,by rw [AList.lookup_insert_ne different,before],owes⟩
    · rcases all session live handshaken with settled | owed
      · refine .inl ?_
        show (if to' ∈ s.live then s.sent.insert to' taken else s.sent).lookup session = some s.topics
        split
        · rw [AList.lookup_insert_ne own,settled]
        · exact settled
      · refine .inr (owed_put (some (.updating sessions)) owed rfl rfl (fun old before owes => ⟨_,rfl,?_⟩))
        rw [found,Option.some.injEq] at before
        subst before
        rcases owes with ⟨same,_⟩ | later
        · exact absurd same.symm own
        · exact later

private theorem allServed_step (all : AllServed s) (within : Within s) {l : Label} (orderly : Orderly s l)
    (stepped : step s l = some t) : AllServed t := by
  cases l with
  | connect fresh =>
    obtain ⟨unused,stepped⟩ := Option.ite_none_left_eq_some.mp stepped
    cases stepped
    intro session live handshaken
    -- a session that is opened has no complete handshake yet
    have other : session ≠ fresh := fun same => unused (same ▸ within.handshaken handshaken)
    exact all session (Finset.mem_of_mem_insert_of_ne live other) handshaken
  | disconnect gone =>
    cases stepped
    intro session live handshaken
    exact all session (Finset.mem_of_mem_erase live) handshaken
  | handshake thread complete =>
    obtain ⟨⟨idle,_⟩,stepped⟩ := Option.ite_none_right_eq_some.mp stepped
    cases stepped
    intro session live handshaken
    rcases Finset.mem_insert.mp handshaken with same | before
    · exact served_of_new (AList.lookup_insert _) (by simp [Call.Owes,same])
    · exact served_begin (some (.updating [complete])) (all session live before) (Option.isNone_iff_eq_none.mp idle)
        rfl rfl rfl
  | subscribe thread topics =>
    obtain ⟨idle,stepped⟩ := Option.ite_none_right_eq_some.mp stepped
    cases stepped
    intro session live handshaken
    cases changed : (addTopics s.topics topics).2 with
    | true =>
      have new : (put s.calls thread (updateTopicsToRemote (addTopics s.topics topics).2)).lookup thread = some .listing := by
        rw [lookup_put,if_pos rfl,changed,updateTopicsToRemote,if_pos rfl]
      exact served_of_new new trivial
    | false =>
      exact served_begin _ (all session live handshaken) (Option.isNone_iff_eq_none.mp idle) (unchanged_of_card changed)
        rfl rfl
  | unsubscribe thread topics =>
    obtain ⟨idle,stepped⟩ := Option.ite_none_right_eq_some.mp stepped
    cases stepped
    intro session live handshaken
    exact served_begin (some (.removing topics false)) (all session live handshaken)
      (Option.isNone_iff_eq_none.mp idle) rfl rfl rfl
  | sessions thread listed =>
    cases found : s.calls.lookup thread with
    | none => simp [step,found] at stepped
    | some call =>
      cases call with
      | listing =>
        simp only [step,found] at stepped
        obtain ⟨everyone,stepped⟩ := Option.ite_none_right_eq_some.mp stepped
        cases stepped
        intro session live handshaken
        refine served_put (some (.updating listed)) (all session live handshaken) found rfl rfl rfl
          (fun _ => ⟨_,rfl,?_⟩)
        rw [← everyone,List.mem_toFinset] at live
        exact live
      | removing _ _ | updating _ | sending _ _ _ => simp [step,found] at stepped
  | advance thread =>
    obtain ⟨call,found,stepped⟩ := Option.bind_eq_some_iff.mp stepped
    exact allServed_advance all found orderly stepped

/-- What holds between any two steps. -/
structure Kept (s : State) : Prop extends Within s where
  served : AllServed s

theorem kept_of_reachable (reachable : client.Reachable Orderly s) : Kept s := by
  refine invariant_of_reachable ?_ ?_ reachable
  · exact ⟨⟨Finset.empty_subset _,Finset.empty_subset _⟩,fun session live => absurd live (Finset.notMem_empty session)⟩
  · intro s l t kept orderly stepped
    exact ⟨within_step kept.toWithin stepped,allServed_step kept.served kept.toWithin orderly stepped⟩

/-! ### The topics of the servers -/

/-- Where every run of steps has kept the condition and all calls have returned, the last
    message on each live session with a complete handshake carries the topics. -/
theorem settled_of_orderly (reachable : client.Reachable Orderly s) (returned : s.calls = ∅) (live : session ∈ s.live)
    (handshaken : session ∈ s.handshaken) : s.sent.lookup session = some s.topics := by
  rcases (kept_of_reachable reachable).served session live handshaken with settled | ⟨thread,call,found,_⟩
  · exact settled
  · simp [returned] at found

/-- A session that is opened and completes its handshake while there are no topics. -/
def opening (session : Nat) : List Label :=
  [.connect session,.handshake 0 session,.advance 0,.advance 0,.advance 0]
/-- Two calls of which one takes its topics before the other has sent its own. -/
def twoCalls : List Label :=
  opening 7 ++ [.subscribe 1 {lit "a"},.sessions 1 [7],.advance 1,.subscribe 2 {lit "b"},.sessions 2 [7],.advance 2]

theorem settled_of_twoCalls : ∃ s : State, s.topics = {lit "a",lit "b"} ∧ s.sent.lookup 7 = some s.topics := by
  have orderly : client.Obeys Orderly client.start (twoCalls ++ [.advance 1,.advance 1,.advance 2,.advance 2]) := by
    decide +kernel
  obtain ⟨s,reachable,checked⟩ := exists_of_run orderly
    (fun s => decide (s.calls.entries = [] ∧ 7 ∈ s.live ∧ 7 ∈ s.handshaken ∧ s.topics = {lit "a",lit "b"})) (by decide +kernel)
  obtain ⟨returned,live,handshaken,topics⟩ := of_decide_eq_true checked
  exact ⟨s,topics,settled_of_orderly reachable (AList.ext returned) live handshaken⟩

/-- The call that took its topics first sends them last. -/
theorem stale_of_twoCalls : ∃ s : State, client.Reachable Any s ∧ s.calls.entries = [] ∧ 7 ∈ s.live ∧ 7 ∈ s.handshaken ∧
    s.topics = {lit "a",lit "b"} ∧ s.sent.lookup 7 = some {lit "a"} := by
  obtain ⟨s,reachable,checked⟩ := exists_of_run (M := client)
    (obeys_any _ (twoCalls ++ [.advance 2,.advance 2,.advance 1,.advance 1]))
    (fun s => decide (s.calls.entries = [] ∧ 7 ∈ s.live ∧ 7 ∈ s.handshaken ∧ s.topics = {lit "a",lit "b"} ∧
      s.sent.lookup 7 = some {lit "a"})) (by decide +kernel)
  exact ⟨s,reachable,of_decide_eq_true checked⟩

end CppSdk.AmopTopics

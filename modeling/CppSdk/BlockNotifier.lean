import CppSdk.BlockNumbers
import CppSdk.EventParams

/-!
The block numbers, the nodes and the callbacks of a service, call by call. The number of a
group is the greatest that was reported for it, and its callbacks run for each notification
of a greater one (`announced_of_greatest`). A notification that comes as the text that
`BlockNumberInfo` writes names the number where the node should be (`texts_agree_iff`).
-/
namespace CppSdk.BlockNotifier
open CppSdk.ByteString CppSdk.Runtime CppSdk.Texts CppSdk.Tables CppSdk.JsonValues CppSdk.Transition
open CppSdk.BlockNumbers (BlockNumberInfo updateGroupBlockNumber)
open CppSdk.EventParams (Reader Inverts fixed_string number_of_same same_refl reader_documented)

/-! ### The handlers -/

/-- What a service keeps under `x_blockNotifierLock`. -/
structure Notifier (κ : Type) where
  group2BlockNumber : Table Bytes Int64
  group2LatestBlockNumberNodes : Table Bytes (Finset Bytes)
  group2callbacks : Table Bytes (List κ)

/-- A call of a callback. -/
structure Invocation (κ : Type) where
  callback : κ
  groupID : Bytes
  blockNumber : Int64

variable {κ : Type}

/-- A service that has heard nothing. -/
def fresh : Notifier κ := ⟨∅,∅,∅⟩

/-- `getBlockNumber`, when its result is true. -/
def getBlockNumber (s : Notifier κ) (group : Bytes) : Option Int64 := s.group2BlockNumber.lookup group
/-- The callbacks of a group. -/
def callbacksOf (s : Notifier κ) (group : Bytes) : List κ := (s.group2callbacks.lookup group).getD []

/-- The section of `onRecvBlockNotifier` on the nodes. -/
def updateNodes (nodes : Table Bytes (Finset Bytes)) (info : BlockNumberInfo) (isNewBlock isHighestBlock : Bool) :
    Table Bytes (Finset Bytes) :=
  if isNewBlock || isHighestBlock then
    let nodes := if isNewBlock then nodes.insert info.group ∅ else nodes
    if isHighestBlock then nodes.insert info.group (insert info.node ((nodes.lookup info.group).getD ∅)) else nodes
  else nodes
/-- `onRecvBlockNotifier`: the service and the calls of callbacks. -/
def onRecvBlockNotifier (s : Notifier κ) (info : BlockNumberInfo) : Notifier κ × List (Invocation κ) :=
  let (numbers,isNewBlock,isHighestBlock) := updateGroupBlockNumber s.group2BlockNumber info.group info.blockNumber
  ({ s with
      group2BlockNumber := numbers
      group2LatestBlockNumberNodes := updateNodes s.group2LatestBlockNumberNodes info isNewBlock isHighestBlock },
    if isNewBlock then (callbacksOf s info.group).map (fun callback => ⟨callback,info.group,info.blockNumber⟩) else [])
/-- The loop over the block numbers of a handshake response. -/
def updateGroupBlockNumbers (s : Notifier κ) (groupBlockNumber : List (Bytes × Int64)) : Notifier κ :=
  { s with group2BlockNumber :=
    groupBlockNumber.foldl (fun numbers entry => (updateGroupBlockNumber numbers entry.1 entry.2).1) s.group2BlockNumber }
/-- `registerBlockNumberNotifier`. -/
def registerBlockNumberNotifier (s : Notifier κ) (group : Bytes) (callback : κ) : Notifier κ :=
  { s with group2callbacks := s.group2callbacks.insert group (callbacksOf s group ++ [callback]) }

/-- What a service handles. -/
inductive Event (κ : Type) where
  | handshake (groupBlockNumber : List (Bytes × Int64))
  | notify (info : BlockNumberInfo)
  | register (group : Bytes) (callback : κ)

/-- An event handled: the service and the calls of callbacks. -/
def handle (s : Notifier κ) : Event κ → Notifier κ × List (Invocation κ)
  | .handshake groupBlockNumber => (updateGroupBlockNumbers s groupBlockNumber,[])
  | .notify info => onRecvBlockNotifier s info
  | .register group callback => (registerBlockNumberNotifier s group callback,[])
/-- The service after the events. -/
def after (s : Notifier κ) : List (Event κ) → Notifier κ
  | [] => s
  | e :: rest => after (handle s e).1 rest
/-- The calls of callbacks, event by event. -/
def rounds (s : Notifier κ) : List (Event κ) → List (List (Invocation κ))
  | [] => []
  | e :: rest => (handle s e).2 :: rounds (handle s e).1 rest

/-! ### What was reported -/

/-- The numbers that an event reports for a group. -/
def reports (group : Bytes) : Event κ → List Int64
  | .handshake groupBlockNumber => groupBlockNumber.filterMap (fun entry => if entry.1 = group then some entry.2 else none)
  | .notify info => if info.group = group then [info.blockNumber] else []
  | .register _ _ => []
/-- The callbacks that an event registers for a group. -/
def registers (group : Bytes) : Event κ → List κ
  | .handshake _ | .notify _ => []
  | .register other callback => if other = group then [callback] else []
/-- The numbers reported for a group. -/
def reported (group : Bytes) (events : List (Event κ)) : List Int64 := events.flatMap (reports group)
/-- The callbacks registered for a group. -/
def registered (group : Bytes) (events : List (Event κ)) : List κ := events.flatMap (registers group)

/-- The number is known exactly if there is one, and is the greatest. -/
def Greatest (numbers : List Int64) (known : Option Int64) : Prop :=
  (known = none ↔ numbers = []) ∧ ∀ n, known = some n → n ∈ numbers ∧ ∀ m ∈ numbers, m ≤ n

/-- The calls for an event after others: each callback of the group once, where the event is
    a notification of a number greater than all before. -/
def announced (before : List (Event κ)) : Event κ → List (Invocation κ)
  | .notify info =>
    if ∀ m ∈ reported info.group before, m < info.blockNumber then
      (registered info.group before).map (fun callback => ⟨callback,info.group,info.blockNumber⟩)
    else []
  | .handshake _ | .register _ _ => []

/-- What the callback at a position of those of the group is called with. -/
def heard (group : Bytes) (position : Nat) (rounds : List (List (Invocation κ))) : List (κ × Int64) :=
  rounds.filterMap (fun round => round[position]?.bind (fun call =>
    if call.groupID = group then some (call.callback,call.blockNumber) else none))

/-- The part of an event that is about a group. -/
def about (group : Bytes) : Event κ → List (Event κ)
  | .handshake groupBlockNumber => [.handshake (groupBlockNumber.filter (fun entry => entry.1 = group))]
  | .notify info => if info.group = group then [.notify info] else []
  | .register other callback => if other = group then [.register other callback] else []

/-! ### One update -/

variable {numbers : Table Bytes Int64} {group : Bytes} {blockNumber : Int64}

/-- An update stores a number that is new, and leaves every other. -/
theorem update_spec (numbers : Table Bytes Int64) (group : Bytes) (blockNumber : Int64) :
    let updated := updateGroupBlockNumber numbers group blockNumber
    (updated.2.1 = true ↔ ∀ current ∈ numbers.lookup group, current < blockNumber) ∧
    (updated.2.2 = true ↔ ∀ current ∈ numbers.lookup group, current ≤ blockNumber) ∧
    updated.1 = if updated.2.1 then numbers.insert group blockNumber else numbers := by
  intro updated
  cases found : numbers.lookup group with
  | none =>
    have value : updated = (numbers.insert group blockNumber,true,true) := by
      simp only [updated,updateGroupBlockNumber,found]
    simp [value]
  | some current =>
    have value : updated = if current < blockNumber then (numbers.insert group blockNumber,true,true)
        else if blockNumber = current then (numbers,false,true) else (numbers,false,false) := by
      simp only [updated,updateGroupBlockNumber,found]
    by_cases less : current < blockNumber
    · simp [value,less,Int64.le_of_lt less]
    · by_cases same : blockNumber = current
      · subst same
        simp [value,less]
      · have greater : ¬ current ≤ blockNumber := by
          intro le
          exact same (Int64.le_antisymm (Int64.not_lt.mp less) le)
        simp [value,less,same,greater]

/-- A new number is the highest. -/
theorem highest_of_new (numbers : Table Bytes Int64) (group : Bytes) (blockNumber : Int64)
    (new : (updateGroupBlockNumber numbers group blockNumber).2.1 = true) :
    (updateGroupBlockNumber numbers group blockNumber).2.2 = true := by
  obtain ⟨isNew,isHighest,_⟩ := update_spec numbers group blockNumber
  exact isHighest.mpr (fun current known => Int64.le_of_lt (isNew.mp new current known))

/-- A thread that runs both sections of a notification with no other thread between them
    does to the numbers and the nodes what the whole function does. -/
theorem notify_alone {b : BlockNumbers.State} {s : Notifier κ} (numbers : b.group2BlockNumber = s.group2BlockNumber)
    (nodes : b.group2LatestBlockNumberNodes = s.group2LatestBlockNumberNodes) {thread : Nat}
    (idle : b.handlers.lookup thread = none) (info : BlockNumberInfo) :
    ∃ ls after, (ls = [.notify thread info] ∨ ls = [.notify thread info,.advance thread]) ∧
      BlockNumbers.service.run b ls = some after ∧
      after.group2BlockNumber = (onRecvBlockNotifier s info).1.group2BlockNumber ∧
      after.group2LatestBlockNumberNodes = (onRecvBlockNotifier s info).1.group2LatestBlockNumberNodes := by
  have new := highest_of_new b.group2BlockNumber info.group info.blockNumber
  obtain ⟨updated,value⟩ : ∃ updated, updated = updateGroupBlockNumber b.group2BlockNumber info.group info.blockNumber := ⟨_,rfl⟩
  rw [← value] at new
  obtain ⟨numbersAfter,isNewBlock,isHighestBlock⟩ := updated
  have notified : BlockNumbers.service.step b (.notify thread info) = some
      { b with
        group2BlockNumber := numbersAfter
        handlers := if isHighestBlock then b.handlers.insert thread (.notifying info isNewBlock) else b.handlers
        reported := info :: b.reported } := by
    simp only [BlockNumbers.service,BlockNumbers.step,idle,Option.isNone_none,if_true,← value]
  simp only [onRecvBlockNotifier,updateNodes,← numbers,← nodes,← value]
  cases isHighestBlock with
  | false =>
    have old : isNewBlock = false := by
      by_contra isNew
      cases new (Bool.not_eq_false _ ▸ isNew)
    refine ⟨_,_,.inl rfl,by rw [System.run,notified]; rfl,rfl,?_⟩
    simp [old]
  | true =>
    obtain ⟨middle,stepped,counted,kept,entered⟩ : ∃ middle, BlockNumbers.service.step b (.notify thread info) = some middle ∧
        middle.group2BlockNumber = numbersAfter ∧ middle.group2LatestBlockNumberNodes = b.group2LatestBlockNumberNodes ∧
        middle.handlers.lookup thread = some (.notifying info isNewBlock) := ⟨_,notified,rfl,rfl,AList.lookup_insert _⟩
    refine ⟨_,BlockNumbers.advance middle thread (.notifying info isNewBlock),.inr rfl,?_,counted,?_⟩
    · rw [System.run,stepped,Option.bind_some,System.run]
      simp only [BlockNumbers.service,BlockNumbers.step,entered,Option.map_some]
      rfl
    · cases isNewBlock with
      | false => simp [BlockNumbers.advance,BlockNumbers.nodesOf,kept]
      | true => simp [BlockNumbers.advance,kept,AList.insert_insert]

private theorem lookup_update (numbers : Table Bytes Int64) (group other : Bytes) (blockNumber : Int64) :
    (updateGroupBlockNumber numbers group blockNumber).1.lookup other =
      if other = group ∧ ∀ current ∈ numbers.lookup group, current < blockNumber then some blockNumber
      else numbers.lookup other := by
  obtain ⟨new,_,updated⟩ := update_spec numbers group blockNumber
  rw [updated]
  by_cases greater : ∀ current ∈ numbers.lookup group, current < blockNumber
  · rw [if_pos (new.mpr greater),lookup_insert_if]
    by_cases same : other = group
    · rw [if_pos same,if_pos ⟨same,greater⟩]
    · rw [if_neg same,if_neg (fun both => same both.1)]
  · rw [if_neg (fun isNew => greater (new.mp isNew)),if_neg (fun both => greater both.2)]

/-- Exactly a number greater than the greatest is greater than all. -/
theorem exceeds_iff {all : List Int64} {known : Option Int64} (greatest : Greatest all known) :
    (∀ current ∈ known, current < blockNumber) ↔ ∀ m ∈ all, m < blockNumber := by
  obtain ⟨none_iff,some_spec⟩ := greatest
  cases known with
  | none => simp [none_iff.mp rfl]
  | some current =>
    obtain ⟨member,bound⟩ := some_spec current rfl
    simp only [Option.mem_some_iff,forall_eq']
    exact ⟨fun less m listed => Int64.lt_of_le_of_lt (bound m listed) less,fun all => all current member⟩

/-- The greatest number after one more. -/
theorem greatest_update {all : List Int64} (greatest : Greatest all (numbers.lookup group)) (other : Bytes) (blockNumber : Int64) :
    Greatest (all ++ if other = group then [blockNumber] else [])
      ((updateGroupBlockNumber numbers other blockNumber).1.lookup group) := by
  rw [lookup_update]
  by_cases same : other = group
  · subst same
    simp only [if_true,true_and]
    obtain ⟨none_iff,some_spec⟩ := greatest
    by_cases greater : ∀ current ∈ numbers.lookup other, current < blockNumber
    · rw [if_pos greater]
      refine ⟨by simp,?_⟩
      rintro n ⟨⟩
      refine ⟨by simp,fun m listed => ?_⟩
      rcases List.mem_append.mp listed with old | new
      · exact Int64.le_of_lt ((exceeds_iff ⟨none_iff,some_spec⟩).mp greater m old)
      · exact List.mem_singleton.mp new ▸ Int64.le_refl _
    · rw [if_neg greater]
      have known : numbers.lookup other ≠ none := fun absent => greater (by simp [absent])
      refine ⟨iff_of_false known (by simp),fun n found => ?_⟩
      obtain ⟨member,bound⟩ := some_spec n found
      refine ⟨List.mem_append_left _ member,fun m listed => ?_⟩
      rcases List.mem_append.mp listed with old | new
      · exact bound m old
      · rw [List.mem_singleton.mp new]
        refine Int64.not_lt.mp (fun less => greater ?_)
        rw [found]
        simpa using less
  · rw [if_neg same,List.append_nil,if_neg (fun both => same both.1.symm)]
    exact greatest

/-! ### Events -/

variable {s t : Notifier κ}

/-- The greatest number after an event. -/
theorem greatest_handle {all : List Int64} (greatest : Greatest all (getBlockNumber s group)) (e : Event κ) :
    Greatest (all ++ reports group e) (getBlockNumber (handle s e).1 group) := by
  cases e with
  | handshake groupBlockNumber =>
    simp only [getBlockNumber,handle,updateGroupBlockNumbers,reports] at greatest ⊢
    generalize s.group2BlockNumber = numbers at greatest ⊢
    induction groupBlockNumber generalizing all numbers with
    | nil => simpa using greatest
    | cons entry rest ih =>
      have first := ih _ (greatest_update greatest entry.1 entry.2)
      rw [List.append_assoc] at first
      rw [List.foldl_cons,List.filterMap_cons]
      by_cases same : entry.1 = group
      · simpa [same] using first
      · simpa [same] using first
  | notify info => exact greatest_update greatest info.group info.blockNumber
  | register other callback =>
    rw [reports,List.append_nil]
    exact greatest

/-- The callbacks after an event. -/
theorem callbacksOf_handle (s : Notifier κ) (group : Bytes) (e : Event κ) :
    callbacksOf (handle s e).1 group = callbacksOf s group ++ registers group e := by
  cases e with
  | handshake groupBlockNumber => exact (List.append_nil _).symm
  | notify info => exact (List.append_nil _).symm
  | register other callback =>
    simp only [handle,registerBlockNumberNotifier,callbacksOf,registers,lookup_insert_if]
    by_cases same : other = group
    · subst same
      simp
    · simp [same,Ne.symm same]

/-- What a service keeps of the events it has handled. -/
structure Follows (events : List (Event κ)) (s : Notifier κ) : Prop where
  numbers : ∀ group, Greatest (reported group events) (getBlockNumber s group)
  callbacks : ∀ group, callbacksOf s group = registered group events

private theorem follows_fresh : Follows ([] : List (Event κ)) fresh where
  numbers group := ⟨iff_of_true rfl rfl,by rintro n ⟨⟩⟩
  callbacks group := rfl
private theorem follows_handle {events : List (Event κ)} (follows : Follows events s) (e : Event κ) :
    Follows (events ++ [e]) (handle s e).1 where
  numbers group := by
    have one := greatest_handle (follows.numbers group) e
    simpa [reported] using one
  callbacks group := by
    rw [callbacksOf_handle,follows.callbacks]
    simp [registered]

/-- The calls for an event. -/
theorem handle_calls {events : List (Event κ)} (follows : Follows events s) (e : Event κ) :
    (handle s e).2 = announced events e := by
  cases e with
  | handshake groupBlockNumber => rfl
  | notify info =>
    obtain ⟨new,_,_⟩ := update_spec s.group2BlockNumber info.group info.blockNumber
    have exceeds := new.trans (exceeds_iff (follows.numbers info.group))
    simp only [handle,onRecvBlockNotifier,announced,follows.callbacks]
    exact if_congr exceeds rfl rfl
  | register group callback => rfl

/-- After more events. -/
theorem follows_after {events : List (Event κ)} (follows : Follows events s) (more : List (Event κ)) :
    Follows (events ++ more) (after s more) := by
  induction more generalizing events s with
  | nil => rwa [List.append_nil]
  | cons e rest ih =>
    have next := ih (follows_handle follows e)
    rwa [List.append_assoc,List.singleton_append] at next
private theorem rounds_append (s : Notifier κ) (before later : List (Event κ)) :
    rounds s (before ++ later) = rounds s before ++ rounds (after s before) later := by
  induction before generalizing s with
  | nil => rfl
  | cons e rest ih => rw [List.cons_append,rounds,rounds,after,ih,List.cons_append]
private theorem rounds_length (s : Notifier κ) (events : List (Event κ)) : (rounds s events).length = events.length := by
  induction events generalizing s with
  | nil => rfl
  | cons e rest ih => rw [rounds,List.length_cons,List.length_cons,ih]

/-! ### What a callback hears -/

private theorem heard_cons (group : Bytes) (position : Nat) (round : List (Invocation κ)) (later : List (List (Invocation κ))) :
    heard group position (round :: later) = heard group position [round] ++ heard group position later := by
  rw [heard,heard,heard,← List.filterMap_append,List.singleton_append]

/-- What is heard of one event is a number greater than all before. -/
theorem greater_of_heard {before : List (Event κ)} {e : Event κ} {position : Nat} {call : κ × Int64}
    (member : call ∈ heard group position [announced before e]) :
    call.2 ∈ reports group e ∧ (∀ m ∈ reported group before, m < call.2) ∧ heard group position [announced before e] = [call] := by
  cases e with
  | handshake groupBlockNumber => simp [announced,heard] at member
  | register other callback => simp [announced,heard] at member
  | notify info =>
    rw [announced] at member ⊢
    by_cases greater : ∀ m ∈ reported info.group before, m < info.blockNumber
    · rw [if_pos greater] at member ⊢
      obtain ⟨round,listed,found⟩ := List.mem_filterMap.mp member
      rw [List.mem_singleton] at listed
      subst listed
      obtain ⟨invocation,called,same⟩ := Option.bind_eq_some_iff.mp found
      rw [List.getElem?_map,Option.map_eq_some_iff] at called
      obtain ⟨callback,known,rfl⟩ := called
      obtain ⟨mine,value⟩ := Option.ite_none_right_eq_some.mp same
      cases mine
      cases value
      refine ⟨by simp [reports],greater,?_⟩
      simp [heard,known]
    · rw [if_neg greater] at member
      simp [heard] at member

/-- What a callback hears increases. -/
theorem heard_increasing (group : Bytes) (position : Nat) (events : List (Event κ)) {before : List (Event κ)}
    (follows : Follows before s) :
    ((heard group position (rounds s events)).map Prod.snd).Pairwise (· < ·) ∧
      ∀ call ∈ heard group position (rounds s events), ∀ m ∈ reported group before, m < call.2 := by
  induction events generalizing before s with
  | nil => exact ⟨.nil,by simp [rounds,heard]⟩
  | cons e rest ih =>
    obtain ⟨increasing,above⟩ := ih (follows_handle follows e)
    have reportedMore : reported group (before ++ [e]) = reported group before ++ reports group e := by simp [reported]
    rw [reportedMore] at above
    rw [rounds,heard_cons,handle_calls follows]
    have later : ∀ call ∈ heard group position (rounds (handle s e).1 rest), ∀ m ∈ reported group before, m < call.2 :=
      fun call member m listed => above call member m (List.mem_append_left _ listed)
    cases first : heard group position [announced before e] with
    | nil => exact ⟨increasing,later⟩
    | cons call more =>
      obtain ⟨reports,greater,single⟩ := greater_of_heard (first ▸ List.mem_cons_self : call ∈ _)
      obtain rfl : more = [] := (List.cons.inj (first.symm.trans single)).2
      constructor
      · rw [List.singleton_append,List.map_cons,List.pairwise_cons]
        refine ⟨fun x member => ?_,increasing⟩
        obtain ⟨next,heardNext,rfl⟩ := List.mem_map.mp member
        exact above next heardNext call.2 (List.mem_append_right _ reports)
      · intro x member
        rcases List.mem_append.mp member with here | there
        · exact List.mem_singleton.mp here ▸ greater
        · exact later x there

/-! ### One group -/

/-- Two services have the number and the callbacks of the group in common. -/
structure Alike (group : Bytes) (s t : Notifier κ) : Prop where
  numbers : s.group2BlockNumber.lookup group = t.group2BlockNumber.lookup group
  callbacks : callbacksOf s group = callbacksOf t group

private theorem lookup_update_congr {numbers others : Table Bytes Int64} (same : numbers.lookup group = others.lookup group)
    (blockNumber : Int64) : (updateGroupBlockNumber numbers group blockNumber).1.lookup group =
      (updateGroupBlockNumber others group blockNumber).1.lookup group := by
  rw [lookup_update,lookup_update,same]

private theorem alike_handshake (alike : Alike group s t) (groupBlockNumber : List (Bytes × Int64)) :
    Alike group (updateGroupBlockNumbers s groupBlockNumber)
      (updateGroupBlockNumbers t (groupBlockNumber.filter (fun entry => entry.1 = group))) := by
  refine ⟨?_,alike.callbacks⟩
  simp only [updateGroupBlockNumbers]
  have same := alike.numbers
  generalize s.group2BlockNumber = numbers at same ⊢
  generalize t.group2BlockNumber = others at same ⊢
  induction groupBlockNumber generalizing numbers others with
  | nil => exact same
  | cons entry rest ih =>
    by_cases mine : entry.1 = group
    · rw [List.filter_cons_of_pos (by simpa using mine),List.foldl_cons,List.foldl_cons]
      refine ih _ _ ?_
      rw [mine]
      exact lookup_update_congr same entry.2
    · rw [List.filter_cons_of_neg (by simpa using mine),List.foldl_cons]
      refine ih _ _ ?_
      rw [lookup_update,if_neg (fun both => mine both.1.symm)]
      exact same

/-- An event does to its part about a group what it does to the group. -/
theorem alike_handle (alike : Alike group s t) (position : Nat) (e : Event κ) :
    Alike group (handle s e).1 (after t (about group e)) ∧
      heard group position [(handle s e).2] = heard group position (rounds t (about group e)) := by
  cases e with
  | handshake groupBlockNumber => exact ⟨alike_handshake alike groupBlockNumber,rfl⟩
  | notify info =>
    by_cases mine : info.group = group
    · subst mine
      have flag : (updateGroupBlockNumber s.group2BlockNumber info.group info.blockNumber).2.1 =
          (updateGroupBlockNumber t.group2BlockNumber info.group info.blockNumber).2.1 := by
        rw [Bool.eq_iff_iff,(update_spec _ _ _).1,(update_spec _ _ _).1,alike.numbers]
      simp only [about,if_true,after,rounds,handle,onRecvBlockNotifier,flag,alike.callbacks,and_true]
      exact ⟨lookup_update_congr alike.numbers info.blockNumber,alike.callbacks⟩
    · simp only [about,mine,if_false,after,rounds]
      refine ⟨⟨?_,alike.callbacks⟩,?_⟩
      · simp only [handle,onRecvBlockNotifier]
        rw [lookup_update,if_neg (fun both => mine both.1.symm)]
        exact alike.numbers
      · simp only [handle,onRecvBlockNotifier]
        split
        · cases known : (callbacksOf s info.group)[position]? <;> simp [heard,known,mine]
        · simp [heard]
  | register other callback =>
    by_cases mine : other = group
    · simp only [about,mine,if_true,after,rounds]
      refine ⟨⟨alike.numbers,?_⟩,rfl⟩
      rw [callbacksOf_handle,callbacksOf_handle,alike.callbacks]
    · simp only [about,mine,if_false,after,rounds]
      refine ⟨⟨alike.numbers,?_⟩,rfl⟩
      rw [callbacksOf_handle,registers,if_neg mine,List.append_nil,alike.callbacks]

private theorem after_append (s : Notifier κ) (before later : List (Event κ)) : after s (before ++ later) = after (after s before) later := by
  induction before generalizing s with
  | nil => rfl
  | cons e rest ih => exact ih (handle s e).1

/-- The events of other groups change nothing for a group. -/
theorem alike_after (alike : Alike group s t) (position : Nat) (events : List (Event κ)) :
    Alike group (after s events) (after t (events.flatMap (about group))) ∧
      heard group position (rounds s events) = heard group position (rounds t (events.flatMap (about group))) := by
  induction events generalizing s t with
  | nil => exact ⟨alike,rfl⟩
  | cons e rest ih =>
    obtain ⟨next,here⟩ := alike_handle alike position e
    obtain ⟨last,later⟩ := ih next
    rw [List.flatMap_cons,after_append,rounds_append,rounds,heard_cons,here,later]
    exact ⟨last,by rw [heard,heard,heard,List.filterMap_append]⟩

/-- The number of a group is known exactly if one was reported for it, and is the greatest.
    For each event, every callback that was registered for the group is called once where the
    event is a notification of a greater number than all before, with that number, and
    otherwise none is called. What a callback hears increases, and the events of other groups
    change neither the number nor what is heard. -/
theorem announced_of_greatest (events : List (Event κ)) (group : Bytes) :
    Greatest (reported group events) (getBlockNumber (after fresh events) group) ∧
    (∀ before e later, events = before ++ e :: later → (rounds fresh events)[before.length]? = some (announced before e)) ∧
    ∀ position, ((heard group position (rounds fresh events)).map Prod.snd).Pairwise (· < ·) ∧
      heard group position (rounds fresh events) = heard group position (rounds fresh (events.flatMap (about group))) ∧
      getBlockNumber (after fresh events) group = getBlockNumber (after fresh (events.flatMap (about group))) group := by
  refine ⟨(follows_after follows_fresh events).numbers group,?_,fun position => ?_⟩
  · rintro before e later rfl
    have follows := follows_after follows_fresh before
    rw [rounds_append,List.getElem?_append_right (by rw [rounds_length]),rounds_length,Nat.sub_self,rounds,handle_calls follows]
    rfl
  · obtain ⟨alike,same⟩ := alike_after (⟨rfl,rfl⟩ : Alike group fresh fresh) position events
    exact ⟨(heard_increasing group position events follows_fresh).1,same,alike.numbers⟩

/-! ### Notifications as texts -/

/-- The value that `BlockNumberInfo::toJson` writes: the number stands for the node too. -/
def infoJson (info : BlockNumberInfo) : Json :=
  .object [(lit "blockNumber",.int info.blockNumber),(lit "group",.string info.group),(lit "nodeName",.int info.blockNumber)]
/-- `BlockNumberInfo::toJson`. -/
def toJson (J : Jsoncpp) (info : BlockNumberInfo) : Bytes := J.write (infoJson info)

section
variable (R : Reader)

/-- The `try` block of `BlockNumberInfo::fromJson`: the members are assigned together. -/
def readInfo (root : Json) : Call (Option BlockNumberInfo) :=
  root.field "blockNumber" (fun json => do
    let blockNumber ← R.asInt64 json
    root.field "group" (fun json => do
      let group ← R.asString json
      root.field "nodeName" (fun json => do
        let node ← R.asString json
        .ok (some ⟨group,node,blockNumber⟩)) (.ok none)) (.ok none)) (.ok none)
/-- `BlockNumberInfo::fromJson`: whether it succeeds, and the object. -/
def fromJson (info : BlockNumberInfo) (text : Bytes) : Call Bool × BlockNumberInfo :=
  match R.parse text with
  | none => (.ok false,info)
  | some root =>
    match readInfo R root with
    | .ok (some after) => (.ok true,after)
    | .ok none | .error (.throws _) => (.ok false,info)
    | .error failure => (.error failure,info)

/-- `onRecvBlockNotifier` on a text. -/
def onRecvText (s : Notifier κ) (text : Bytes) : Call (Notifier κ × List (Invocation κ)) :=
  match fromJson R ⟨[],[],0⟩ text with
  | (.ok true,info) => .ok (onRecvBlockNotifier s info)
  | (.ok false,_) => .ok (s,[])
  | (.error failure,_) => .error failure
/-- The service and the calls of callbacks after texts. -/
def receiveTexts (s : Notifier κ) : List Bytes → Call (Notifier κ × List (List (Invocation κ)))
  | [] => .ok (s,[])
  | text :: rest => do
    let (s,calls) ← onRecvText R s text
    let (s,later) ← receiveTexts s rest
    .ok (s,calls :: later)
end

/-- Two services agree on the numbers and on the nodes. -/
structure Agree (s t : Notifier κ) : Prop where
  numbers : ∀ group, s.group2BlockNumber.lookup group = t.group2BlockNumber.lookup group
  nodes : ∀ group, s.group2LatestBlockNumberNodes.lookup group = t.group2LatestBlockNumberNodes.lookup group

/-- The nodes that have the greatest number of a group. -/
def nodesOf (s : Notifier κ) (group : Bytes) : Finset Bytes := (s.group2LatestBlockNumberNodes.lookup group).getD ∅

/-- The number of the notification is not the greatest of its group, or the node has the
    number for its name, or the number is known and both are among its nodes. -/
def Named (s : Notifier κ) (info : BlockNumberInfo) : Prop :=
  (∃ current ∈ getBlockNumber s info.group, info.blockNumber < current) ∨
  info.node = intText info.blockNumber.toInt ∨
  (getBlockNumber s info.group = some info.blockNumber ∧ info.node ∈ nodesOf s info.group ∧
    intText info.blockNumber.toInt ∈ nodesOf s info.group)
/-- Each notification is so where it comes. -/
def AllNamed (s : Notifier κ) : List BlockNumberInfo → Prop
  | [] => True
  | info :: rest => Named s info ∧ AllNamed (onRecvBlockNotifier s info).1 rest

/-- The notification that the text of one is read as. -/
def renamed (info : BlockNumberInfo) : BlockNumberInfo := { info with node := intText info.blockNumber.toInt }

private theorem insert_eq_iff {x y : Bytes} {X : Finset Bytes} : insert x X = insert y X ↔ x = y ∨ (x ∈ X ∧ y ∈ X) := by
  constructor
  · intro same
    have left : x ∈ insert y X := same ▸ Finset.mem_insert_self x X
    have right : y ∈ insert x X := same ▸ Finset.mem_insert_self y X
    rcases Finset.mem_insert.mp left with equal | inside
    · exact .inl equal
    · rcases Finset.mem_insert.mp right with equal | other
      · exact .inl equal.symm
      · exact .inr ⟨inside,other⟩
  · rintro (equal | ⟨left,right⟩)
    · rw [equal]
    · rw [Finset.insert_eq_self.mpr left,Finset.insert_eq_self.mpr right]

/-- The nodes after a notification. -/
theorem lookup_nodes (s : Notifier κ) (info : BlockNumberInfo) (group : Bytes) :
    (onRecvBlockNotifier s info).1.group2LatestBlockNumberNodes.lookup group =
      if group = info.group ∧ ¬∃ current ∈ getBlockNumber s info.group, info.blockNumber < current then
        some (insert info.node (if getBlockNumber s info.group = some info.blockNumber then nodesOf s info.group else ∅))
      else s.group2LatestBlockNumberNodes.lookup group := by
  obtain ⟨new,highest,_⟩ := update_spec s.group2BlockNumber info.group info.blockNumber
  have both := highest_of_new s.group2BlockNumber info.group info.blockNumber
  simp only [onRecvBlockNotifier,updateNodes]
  generalize updateGroupBlockNumber s.group2BlockNumber info.group info.blockNumber = updated at new highest both ⊢
  obtain ⟨numbers,isNewBlock,isHighestBlock⟩ := updated
  have lower : (¬∃ current ∈ getBlockNumber s info.group, info.blockNumber < current) ↔ isHighestBlock = true := by
    rw [highest]
    simp only [getBlockNumber,not_exists,not_and,Int64.not_lt]
  simp only [lower]
  cases isHighestBlock with
  | false =>
    have old : isNewBlock = false := by
      by_contra isNew
      cases both (Bool.not_eq_false _ ▸ isNew)
    simp [old]
  | true =>
    have same : isNewBlock = false ↔ getBlockNumber s info.group = some info.blockNumber := by
      rw [← Bool.not_eq_true,new,getBlockNumber]
      have below := highest.mp rfl
      cases known : s.group2BlockNumber.lookup info.group with
      | none => simp
      | some current =>
        rw [known] at below
        have le := below current rfl
        simp only [Option.mem_some_iff,forall_eq',Option.some.injEq,Int64.not_lt]
        exact ⟨fun ge => Int64.le_antisymm le ge,fun equal => equal ▸ Int64.le_refl _⟩
    cases isNewBlock with
    | true =>
      have different : getBlockNumber s info.group ≠ some info.blockNumber := fun equal => by cases same.mpr equal
      simp only [Bool.or_self,if_true,and_true,if_neg different,lookup_insert_if,Option.getD_some]
      split <;> rfl
    | false =>
      simp only [Bool.false_or,if_true,and_true,if_pos (same.mp rfl),lookup_insert_if,nodesOf,Bool.false_eq_true,if_false]

/-- A notification and its text: the numbers and the calls are the same, and the nodes
    exactly if the text names the node. -/
theorem agree_notify {s t : Notifier κ} (numbers : s.group2BlockNumber = t.group2BlockNumber)
    (callbacks : s.group2callbacks = t.group2callbacks) (agree : Agree s t) (info : BlockNumberInfo) :
    (onRecvBlockNotifier s info).1.group2BlockNumber = (onRecvBlockNotifier t (renamed info)).1.group2BlockNumber ∧
    (onRecvBlockNotifier s info).2 = (onRecvBlockNotifier t (renamed info)).2 ∧
    (Agree (onRecvBlockNotifier s info).1 (onRecvBlockNotifier t (renamed info)).1 ↔ Named s info) := by
  have number : ∀ group, getBlockNumber t group = getBlockNumber s group := fun group => by
    rw [getBlockNumber,getBlockNumber,numbers]
  have known : ∀ group, nodesOf t group = nodesOf s group := fun group => by rw [nodesOf,nodesOf,agree.nodes]
  have after : (onRecvBlockNotifier s info).1.group2BlockNumber =
      (onRecvBlockNotifier t (renamed info)).1.group2BlockNumber := by
    simp only [onRecvBlockNotifier,renamed,numbers]
  refine ⟨after,by simp only [onRecvBlockNotifier,renamed,callbacksOf,numbers,callbacks]; rfl,?_⟩
  have other : ∀ group, (onRecvBlockNotifier t (renamed info)).1.group2LatestBlockNumberNodes.lookup group =
      if group = info.group ∧ ¬∃ current ∈ getBlockNumber s info.group, info.blockNumber < current then
        some (insert (intText info.blockNumber.toInt)
          (if getBlockNumber s info.group = some info.blockNumber then nodesOf s info.group else ∅))
      else s.group2LatestBlockNumberNodes.lookup group := fun group => by
    simp only [lookup_nodes,renamed,number,known,agree.nodes]
  have named : (∀ group, (onRecvBlockNotifier s info).1.group2LatestBlockNumberNodes.lookup group =
      (onRecvBlockNotifier t (renamed info)).1.group2LatestBlockNumberNodes.lookup group) ↔ Named s info := by
    simp only [lookup_nodes s,other]
    by_cases lower : ∃ current ∈ getBlockNumber s info.group, info.blockNumber < current
    · refine iff_of_true (fun group => ?_) (.inl lower)
      rw [if_neg (fun both => both.2 lower),if_neg (fun both => both.2 lower)]
    · obtain ⟨X,old⟩ : ∃ X, X = if getBlockNumber s info.group = some info.blockNumber then nodesOf s info.group else ∅ := ⟨_,rfl⟩
      rw [← old]
      have here : (∀ group, (if group = info.group ∧ ¬∃ current ∈ getBlockNumber s info.group, info.blockNumber < current then
            some (insert info.node X) else s.group2LatestBlockNumberNodes.lookup group) =
          if group = info.group ∧ ¬∃ current ∈ getBlockNumber s info.group, info.blockNumber < current then
            some (insert (intText info.blockNumber.toInt) X) else s.group2LatestBlockNumberNodes.lookup group) ↔
          insert info.node X = insert (intText info.blockNumber.toInt) X := by
        refine ⟨fun all => ?_,fun same group => by rw [same]⟩
        have one := all info.group
        rwa [if_pos ⟨rfl,lower⟩,if_pos ⟨rfl,lower⟩,Option.some.injEq] at one
      rw [here,insert_eq_iff,Named,or_iff_right lower,old]
      by_cases equal : getBlockNumber s info.group = some info.blockNumber
      · rw [if_pos equal,and_iff_right equal]
      · rw [if_neg equal]
        simp [equal]
  exact ⟨fun agreeAfter => named.mp agreeAfter.nodes,fun isNamed => ⟨fun group => by rw [after],named.mpr isNamed⟩⟩

section
variable {R : Reader} (documented : R.Documented)
include documented

/-- What is read from the text that `toJson` writes. -/
theorem fromJson_toJson {info : BlockNumberInfo} (inverts : Inverts R (infoJson info)) (before : BlockNumberInfo) :
    fromJson R before (toJson R.toJsoncpp info) = (.ok true,renamed info) := by
  obtain ⟨read,parsed,same⟩ := inverts
  rw [infoJson] at same
  cases same with
  | number number => cases number
  | object pairs =>
    rcases pairs with _ | ⟨⟨_,number⟩,_ | ⟨⟨_,group⟩,_ | ⟨⟨_,node⟩,_ | _⟩⟩⟩
    rw [fixed_string _ _ group] at parsed
    have first := number_of_same number rfl
    have last := number_of_same node rfl
    simp only [fromJson,toJson,parsed,readInfo]
    rw [field_member _ _ rfl,documented.int64_reads _ _ first,ok_bind]
    rw [field_member _ _ rfl,(documented.string_reads info.group).2,ok_bind]
    rw [field_member _ _ rfl,(documented.number_string _ _ last).2,ok_bind]
    rfl

private theorem onRecvText_toJson {info : BlockNumberInfo} (inverts : Inverts R (infoJson info)) (s : Notifier κ) :
    onRecvText R s (toJson R.toJsoncpp info) = .ok (onRecvBlockNotifier s (renamed info)) := by
  rw [onRecvText,fromJson_toJson documented inverts]

/-- The texts are handled as the notifications that they are read as. -/
theorem receiveTexts_toJson (s : Notifier κ) {infos : List BlockNumberInfo} (inverts : ∀ info ∈ infos, Inverts R (infoJson info)) :
    receiveTexts R s (infos.map (toJson R.toJsoncpp)) =
      .ok (after s ((infos.map renamed).map .notify),rounds s ((infos.map renamed).map .notify)) := by
  induction infos generalizing s with
  | nil => rfl
  | cons info rest ih =>
    obtain ⟨first,later⟩ := List.forall_mem_cons.mp inverts
    rw [List.map_cons,receiveTexts,onRecvText_toJson documented first,ok_bind]
    simp only [ih _ later,ok_bind]
    rfl
end

/-- After notifications and their texts, as long as each names its node. -/
theorem agree_after {s t : Notifier κ} (numbers : s.group2BlockNumber = t.group2BlockNumber)
    (callbacks : s.group2callbacks = t.group2callbacks) (agree : Agree s t) (infos : List BlockNumberInfo) :
    (∀ before later, infos = before ++ later →
      Agree (after s (before.map .notify)) (after t ((before.map renamed).map .notify)) ∧
      rounds t ((before.map renamed).map .notify) = rounds s (before.map .notify)) ↔ AllNamed s infos := by
  induction infos generalizing s t with
  | nil =>
    refine iff_of_true (fun before later split => ?_) trivial
    obtain ⟨rfl,rfl⟩ := List.append_eq_nil_iff.mp split.symm
    exact ⟨agree,rfl⟩
  | cons info rest ih =>
    obtain ⟨numbersAfter,calls,named⟩ := agree_notify numbers callbacks agree info
    rw [AllNamed,← named]
    constructor
    · intro all
      have next := (all [info] rest rfl).1
      refine ⟨next,(ih numbersAfter callbacks next).mp (fun before later split => ?_)⟩
      obtain ⟨agreeLater,callsLater⟩ := all (info :: before) later (by rw [split]; rfl)
      exact ⟨agreeLater,(List.cons.inj callsLater).2⟩
    · rintro ⟨next,later⟩ before rest' split
      cases before with
      | nil => exact ⟨agree,rfl⟩
      | cons first before =>
        obtain ⟨rfl,same⟩ := List.cons.inj split
        obtain ⟨agreeLater,callsLater⟩ := (ih numbersAfter callbacks next).mpr later before rest' same
        refine ⟨agreeLater,?_⟩
        simp only [List.map_cons,rounds,handle]
        rw [← calls]
        exact congrArg _ callsLater

/-- The texts of notifications leave the numbers and the nodes that the notifications leave,
    with the same calls of callbacks. -/
def SameOutcome (R : Reader) (s : Notifier κ) (infos : List BlockNumberInfo) : Prop :=
  ∃ t calls, receiveTexts R s (infos.map (toJson R.toJsoncpp)) = .ok (t,calls) ∧
    Agree (after s (infos.map .notify)) t ∧ calls = rounds s (infos.map .notify)

/-- The texts have the outcome of the notifications, after each of them, exactly if each has
    no effect on the nodes, or its number for the name of its node. -/
theorem texts_agree_iff {R : Reader} (documented : R.Documented) (s : Notifier κ) (infos : List BlockNumberInfo)
    (inverts : ∀ info ∈ infos, Inverts R (infoJson info)) :
    (∀ before later, infos = before ++ later → SameOutcome R s before) ↔ AllNamed s infos := by
  rw [← agree_after rfl rfl ⟨fun _ => rfl,fun _ => rfl⟩ infos]
  have outcome : ∀ before later, infos = before ++ later → (SameOutcome R s before ↔
      Agree (after s (before.map .notify)) (after s ((before.map renamed).map .notify)) ∧
      rounds s ((before.map renamed).map .notify) = rounds s (before.map .notify)) := by
    rintro before later rfl
    have received := receiveTexts_toJson documented s (fun info member => inverts info (List.mem_append_left later member))
    rw [SameOutcome,received]
    constructor
    · rintro ⟨_,_,⟨⟩,both⟩
      exact both
    · exact fun both => ⟨_,_,rfl,both⟩
  exact ⟨fun all before later split => (outcome before later split).mp (all before later split),
    fun all before later split => (outcome before later split).mpr (all before later split)⟩

/-- A notification whose node is named like its number, an older one of another node, and one with the next number. -/
def inOrder : List BlockNumberInfo := [⟨lit "group",lit "11",11⟩,⟨lit "group",lit "node",9⟩,⟨lit "group",lit "12",12⟩]
/-- A reader of their texts. -/
def readerOf (infos : List BlockNumberInfo) : Reader :=
  { Reader.reference .null with
    toJsoncpp := Jsoncpp.reference (fun text => (infos.map infoJson).find? (fun json => writeValue json = text)) }
theorem readerOf_documented (infos : List BlockNumberInfo) : (readerOf infos).Documented where
  toDocumented := jsoncpp_documented _
  int64_reads := (reader_documented .null).int64_reads

theorem texts_agree_inOrder : SameOutcome (readerOf inOrder) (fresh : Notifier Nat) (inOrder.take 2) ∧
    SameOutcome (readerOf inOrder) (fresh : Notifier Nat) inOrder := by
  have inverts : ∀ info ∈ inOrder, Inverts (readerOf inOrder) (infoJson info) := by
    simp only [inOrder,List.forall_mem_cons]
    exact ⟨⟨_,rfl,same_refl _⟩,⟨_,rfl,same_refl _⟩,⟨_,rfl,same_refl _⟩,by simp⟩
  have all := (texts_agree_iff (readerOf_documented inOrder) (fresh : Notifier Nat) inOrder inverts).mpr
    -- the one in the middle is older than the first
    ⟨.inr (.inl (by decide)),.inl ⟨11,rfl,by decide⟩,.inr (.inl (by decide)),trivial⟩
  exact ⟨all (inOrder.take 2) (inOrder.drop 2) rfl,all inOrder [] rfl⟩

/-- A notification of a node that is not named like its number. -/
def otherName : BlockNumberInfo := ⟨lit "group",lit "node",11⟩

/-- The text names a node that does not exist. -/
theorem texts_differ :
    (∀ info ∈ [otherName], Inverts (readerOf [otherName]) (infoJson info)) ∧ (readerOf [otherName]).Documented ∧
      ¬ SameOutcome (readerOf [otherName]) (fresh : Notifier Nat) [otherName] := by
  have inverts : ∀ info ∈ [otherName], Inverts (readerOf [otherName]) (infoJson info) :=
    fun info member => by rw [List.mem_singleton.mp member]; exact ⟨_,rfl,same_refl _⟩
  refine ⟨inverts,readerOf_documented _,?_⟩
  rintro ⟨t,calls,received,agree,_⟩
  rw [receiveTexts_toJson (readerOf_documented _) _ inverts] at received
  cases received
  have nodes := agree.nodes (lit "group")
  revert nodes
  decide

end CppSdk.BlockNotifier

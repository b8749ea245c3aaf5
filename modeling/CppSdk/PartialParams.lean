import CppSdk.MemberLogs

/-!
The parameters of a subscription over an object. `fromJsonString` assigns each value as it is
read, to what the object holds: no trace is left exactly if what it held is no more than what
the text gives or, where the text fails half way, is what was read (`traceless_params_iff`).
Into a fresh object there is no such condition, and a request assigns its parameters whole.
-/
namespace CppSdk.PartialParams
open CppSdk.ByteString CppSdk.Runtime CppSdk.JsonValues CppSdk.WriteLogs CppSdk.EventParams CppSdk.StagedParses CppSdk.MemberLogs
open CppSdk.SubscribeRequests (EventSubParams)

/-! ### The values of a text -/

section
variable (R : Reader)

/-- What a text holds of the parameters, value by value. -/
abbrev Input := Log Failure Building

def logBlock (make : Int64 → Building) (json : Json) : Input Unit := do
  let block ← (R.asInt64 json : Call Int64)
  Log.write (make block)
def logAddress (json : Json) : Input Unit := do
  let address ← (R.asString json : Call Bytes)
  Log.write (.addAddress address)
def logTopic (index : Nat) (json : Json) : Input Unit := do
  let topic ← (R.asString json : Call Bytes)
  Log.write (.addTopic index topic)
def logIndex (index : Nat) : Json → Input Unit
  | .null => pure ()
  | .array elements => elements.forM (logTopic R index)
  | json => logTopic R index json
def logTopics (index : Nat) : List Json → Input Unit
  | [] => pure ()
  | json :: rest => do
    logIndex R index json
    logTopics (index + 1) rest
def logAddresses (json : Json) : Input Unit := do (← (json.items : Call (List Json))).forM (logAddress R)
def logTopicLists (json : Json) : Input Unit := do logTopics R 0 (← (json.items : Call (List Json)))
/-- The values that are read, up to the first that cannot be. -/
def logParams (jParams : Json) : Input Unit := do
  logMember jParams "fromBlock" (logBlock R .setFromBlock)
  logMember jParams "toBlock" (logBlock R .setToBlock)
  logMember jParams "addresses" (logAddresses R)
  logMember jParams "topics" (logTopicLists R)
end

section
variable {R : Reader}

private theorem logs_readMember {jParams : Json} {key : String} {read : Json → Reading Unit} {log : Json → Input Unit}
    (each : ∀ json, Logs build (read json) (log json)) : Logs build (readMember jParams key read) (logMember jParams key log) :=
  logs_member each
private theorem logs_topic (index : Nat) (json : Json) : Logs build (readTopic R index json) (logTopic R index json) :=
  logs_bind (logs_lift _) (fun topic => logs_write (Building.addTopic index topic))
private theorem logs_index (index : Nat) (json : Json) : Logs build (readIndex R index json) (logIndex R index json) := by
  cases json with
  | null => exact logs_pure ()
  | array elements => exact logs_forM elements (logs_topic index)
  | _ => exact logs_topic index _
private theorem logs_topics (index : Nat) (elements : List Json) : Logs build (readTopics R index elements) (logTopics R index elements) := by
  induction elements generalizing index with
  | nil => exact logs_pure ()
  | cons json rest ih => exact logs_bind (logs_index index json) (fun _ => ih (index + 1))

/-- The readers write what the text holds, and end as it says. -/
theorem logs_params (jParams : Json) : Logs build (readParams R jParams) (logParams R jParams) := by
  refine logs_bind (logs_readMember (fun json => ?_)) (fun _ => logs_bind (logs_readMember (fun json => ?_))
    (fun _ => logs_bind (logs_readMember (fun json => ?_)) (fun _ => logs_readMember (fun json => ?_))))
  · exact logs_bind (logs_lift _) (fun block => logs_write (Building.setFromBlock block))
  · exact logs_bind (logs_lift _) (fun block => logs_write (Building.setToBlock block))
  · exact logs_bind (logs_lift _) (fun items => logs_forM items
      (fun item => logs_bind (logs_lift _) (fun address => logs_write (Building.addAddress address))))
  · exact logs_bind (logs_lift _) (fun items => logs_topics 0 items)

/-- What cannot be read is an exception. -/
theorem fails_params (throws : ThrowsOnly R) (jParams : Json) : (logParams R jParams).Fails Thrown := by
  have topic : ∀ index json, (logTopic R index json).Fails Thrown := fun index json =>
    Log.fails_bind (Log.fails_lift (throws.asString json)) (fun topic => Log.fails_write _)
  have topics : ∀ elements index, (logTopics R index elements).Fails Thrown := by
    intro elements
    induction elements with
    | nil => exact fun index => Log.fails_pure ()
    | cons json rest ih =>
      intro index
      refine Log.fails_bind ?_ (fun _ => ih (index + 1))
      cases json with
      | null => exact Log.fails_pure ()
      | array elements => exact Log.fails_forM (topic index)
      | _ => exact topic index _
  refine Log.fails_bind (fails_member (fun json => ?_)) (fun _ => Log.fails_bind (fails_member (fun json => ?_))
    (fun _ => Log.fails_bind (fails_member (fun json => ?_)) (fun _ => fails_member (fun json => ?_))))
  · exact Log.fails_bind (Log.fails_lift (throws.asInt64 json)) (fun block => Log.fails_write _)
  · exact Log.fails_bind (Log.fails_lift (throws.asInt64 json)) (fun block => Log.fails_write _)
  · exact Log.fails_bind (Log.fails_lift (raises_items json)) (fun items => Log.fails_forM
      (fun item => Log.fails_bind (Log.fails_lift (throws.asString item)) (fun address => Log.fails_write _)))
  · exact Log.fails_bind (Log.fails_lift (raises_items json)) (fun items => topics items 0)

/-! ### What the values are -/

def fromBlocks (input : List Building) : List Int64 := input.filterMap (fun | .setFromBlock block => some block | _ => none)
def toBlocks (input : List Building) : List Int64 := input.filterMap (fun | .setToBlock block => some block | _ => none)
def addressesIn (input : List Building) : List Bytes := input.filterMap (fun | .addAddress address => some address | _ => none)
def topicsIn (input : List Building) : List (Nat × Bytes) :=
  input.filterMap (fun | .addTopic index topic => some (index,topic) | _ => none)

private theorem addTopics_congr {p q : EventSubParams} (same : p.topics = q.topics) (calls : List (Nat × Bytes)) :
    (addTopics p calls).topics = (addTopics q calls).topics := by
  induction calls generalizing p q with
  | nil => exact same
  | cons call rest ih => exact ih (by simp only [addTopic,same])

/-- The object after the values. -/
theorem foldl_build (input : List Building) (p : EventSubParams) : input.foldl build p =
    ⟨(fromBlocks input).getLast?.getD p.fromBlock,(toBlocks input).getLast?.getD p.toBlock,
      p.addresses ∪ (addressesIn input).toFinset,(addTopics p (topicsIn input)).topics⟩ := by
  induction input generalizing p with
  | nil => simp [fromBlocks,toBlocks,addressesIn,topicsIn,addTopics]
  | cons value rest ih =>
    rw [List.foldl_cons,ih]
    cases value with
    | setFromBlock block =>
      rw [build,addTopics_congr (show (setFromBlock p block).topics = p.topics from rfl)]
      simp [setFromBlock,fromBlocks,toBlocks,addressesIn,topicsIn,List.getLast?_cons]
    | setToBlock block =>
      rw [build,addTopics_congr (show (setToBlock p block).topics = p.topics from rfl)]
      simp [setToBlock,fromBlocks,toBlocks,addressesIn,topicsIn,List.getLast?_cons]
    | addAddress address =>
      rw [build,addTopics_congr (show (addAddress p address).topics = p.topics from rfl)]
      simp [addAddress,fromBlocks,toBlocks,addressesIn,topicsIn,Finset.insert_union]
    | addTopic index topic => rfl

/-- Each block is given once at most, and the topics come in the order of their indexes. -/
structure Ordered (input : List Building) : Prop where
  fromBlock : (fromBlocks input).length ≤ 1
  toBlock : (toBlocks input).length ≤ 1
  topics : (topicsIn input).Pairwise (fun a b => a.1 ≤ b.1)

private theorem writes_block (jParams : Json) (key : String) (make : Int64 → Building) :
    (logMember jParams key (logBlock R make)).writes = [] ∨ ∃ block, (logMember jParams key (logBlock R make)).writes = [make block] := by
  rw [logMember,Log.lift_bind_writes]
  cases jParams.isMember (lit key) with
  | error failure => exact .inl rfl
  | ok found =>
    cases found with
    | false => exact .inl rfl
    | true =>
      simp only [if_true]
      rw [logBlock,Log.lift_bind_writes]
      cases R.asInt64 ((jParams.member (lit key)).getD .null) with
      | error failure => exact .inl rfl
      | ok block => exact .inr ⟨block,rfl⟩
private theorem writes_index (index : Nat) (json : Json) : (logIndex R index json).Writes (fun w => ∃ t, w = .addTopic index t) := by
  have topic : ∀ json, (logTopic R index json).Writes (fun w => ∃ t, w = .addTopic index t) := fun json =>
    Log.writes_bind (Log.writes_lift _) (fun t => Log.writes_write ⟨t,rfl⟩)
  cases json with
  | null => exact Log.writes_pure ()
  | array elements => exact Log.writes_forM topic
  | _ => exact topic _

private theorem mem_topicsIn {input : List Building} {call : Nat × Bytes} : call ∈ topicsIn input ↔ .addTopic call.1 call.2 ∈ input := by
  simp only [topicsIn,List.mem_filterMap]
  constructor
  · rintro ⟨value,member,made⟩
    cases value with
    | addTopic index topic =>
      cases made
      exact member
    | _ => cases made
  · exact fun member => ⟨_,member,rfl⟩

private theorem ordered_topics (index : Nat) (elements : List Json) :
    (topicsIn (logTopics R index elements).writes).Pairwise (fun a b => a.1 ≤ b.1) ∧
      ∀ w ∈ (logTopics R index elements).writes, ∃ i t, index ≤ i ∧ w = .addTopic i t := by
  induction elements generalizing index with
  | nil => exact ⟨.nil,List.forall_mem_nil _⟩
  | cons json rest ih =>
    obtain ⟨sorted,above⟩ := ih (index + 1)
    have here := writes_index (R := R) index json
    obtain ⟨more,which,split⟩ := Log.writes_then (logIndex R index json) (logTopics R (index + 1) rest)
    have later : (topicsIn more).Pairwise (fun a b => a.1 ≤ b.1) ∧ ∀ w ∈ more, ∃ i t, index + 1 ≤ i ∧ w = .addTopic i t := by
      rcases which with rfl | rfl
      · exact ⟨.nil,List.forall_mem_nil _⟩
      · exact ⟨sorted,above⟩
    have first : ∀ call ∈ topicsIn (logIndex R index json).writes, call.1 = index := by
      intro call member
      obtain ⟨t,same⟩ := here _ (mem_topicsIn.mp member)
      exact (Building.addTopic.inj same).1
    rw [logTopics,split]
    constructor
    · simp only [topicsIn,List.filterMap_append] at first later ⊢
      refine List.pairwise_append.mpr ⟨?_,later.1,?_⟩
      · have any : (topicsIn (logIndex R index json).writes).Pairwise (fun _ _ => True) := List.pairwise_of_forall (fun _ _ => trivial)
        exact any.imp_of_mem (fun one two _ => by rw [first _ one,first _ two])
      · intro a one b two
        obtain ⟨i,t,greater,same⟩ := later.2 _ (mem_topicsIn.mp two)
        rw [first a one,(Building.addTopic.inj same).1]
        omega
    · intro w member
      rcases List.mem_append.mp member with one | two
      · obtain ⟨t,same⟩ := here w one
        exact ⟨index,t,Nat.le_refl _,same⟩
      · obtain ⟨i,t,greater,same⟩ := later.2 w two
        exact ⟨i,t,by omega,same⟩

private theorem writes_addresses (jParams : Json) :
    (logMember jParams "addresses" (logAddresses R)).Writes (fun w => ∃ address, w = .addAddress address) :=
  writes_member (fun _ => Log.writes_bind (Log.writes_lift _) (fun _ => Log.writes_forM
    (fun _ => Log.writes_bind (Log.writes_lift _) (fun address => Log.writes_write ⟨address,rfl⟩))))
private theorem writes_topics (jParams : Json) :
    (∀ w ∈ (logMember jParams "topics" (logTopicLists R)).writes, ∃ index topic, w = .addTopic index topic) ∧
      (topicsIn (logMember jParams "topics" (logTopicLists R)).writes).Pairwise (fun a b => a.1 ≤ b.1) := by
  rw [logMember,Log.lift_bind_writes]
  cases jParams.isMember (lit "topics") with
  | error failure => exact ⟨List.forall_mem_nil _,.nil⟩
  | ok found =>
    cases found with
    | false => exact ⟨List.forall_mem_nil _,.nil⟩
    | true =>
      simp only [if_true]
      rw [logTopicLists,Log.lift_bind_writes]
      cases ((jParams.member (lit "topics")).getD .null).items with
      | error failure => exact ⟨List.forall_mem_nil _,.nil⟩
      | ok items =>
        obtain ⟨sorted,all⟩ := ordered_topics (R := R) 0 items
        refine ⟨fun w member => ?_,sorted⟩
        obtain ⟨i,t,_,same⟩ := all w member
        exact ⟨i,t,same⟩

/-- What the four members give. -/
structure Parts (first last addresses topics : List Building) : Prop where
  first : first = [] ∨ ∃ block, first = [.setFromBlock block]
  last : last = [] ∨ ∃ block, last = [.setToBlock block]
  addresses : ∀ w ∈ addresses, ∃ address, w = .addAddress address
  topics : ∀ w ∈ topics, ∃ index topic, w = .addTopic index topic

section
variable {first last addresses topics : List Building} (parts : Parts first last addresses topics)
include parts

/-- Each of the four is found again. -/
theorem projections_of_parts :
    fromBlocks (first ++ (last ++ (addresses ++ topics))) = fromBlocks first ∧
    toBlocks (first ++ (last ++ (addresses ++ topics))) = toBlocks last ∧
    addressesIn (first ++ (last ++ (addresses ++ topics))) = addressesIn addresses ∧
    topicsIn (first ++ (last ++ (addresses ++ topics))) = topicsIn topics := by
  obtain ⟨one,two,three,four⟩ := parts
  have address : ∀ {α : Type} {f : Building → Option α}, (∀ a, f (.addAddress a) = none) → addresses.filterMap f = [] :=
    fun skips => List.filterMap_eq_nil_iff.mpr (fun w member => by obtain ⟨a,rfl⟩ := three w member; exact skips a)
  have topic : ∀ {α : Type} {f : Building → Option α}, (∀ i t, f (.addTopic i t) = none) → topics.filterMap f = [] :=
    fun skips => List.filterMap_eq_nil_iff.mpr (fun w member => by obtain ⟨i,t,rfl⟩ := four w member; exact skips i t)
  have others : fromBlocks addresses = [] ∧ toBlocks addresses = [] ∧ topicsIn addresses = [] :=
    ⟨address (fun _ => rfl),address (fun _ => rfl),address (fun _ => rfl)⟩
  have another : fromBlocks topics = [] ∧ toBlocks topics = [] ∧ addressesIn topics = [] :=
    ⟨topic (fun _ _ => rfl),topic (fun _ _ => rfl),topic (fun _ _ => rfl)⟩
  simp only [fromBlocks,toBlocks,addressesIn,topicsIn,List.filterMap_append] at others another ⊢
  rw [others.1,others.2.1,others.2.2,another.1,another.2.1,another.2.2]
  rcases one with rfl | ⟨_,rfl⟩ <;> rcases two with rfl | ⟨_,rfl⟩ <;> simp

private theorem ordered_of_parts (sorted : (topicsIn topics).Pairwise (fun a b => a.1 ≤ b.1)) :
    Ordered (first ++ (last ++ (addresses ++ topics))) := by
  obtain ⟨fromBlock,toBlock,_,listed⟩ := projections_of_parts parts
  refine ⟨?_,?_,listed ▸ sorted⟩
  · rw [fromBlock]
    rcases parts.first with rfl | ⟨_,rfl⟩ <;> simp [fromBlocks]
  · rw [toBlock]
    rcases parts.last with rfl | ⟨_,rfl⟩ <;> simp [toBlocks]

end

/-- The values come in the order of the reader. -/
theorem ordered_params (R : Reader) (jParams : Json) : Ordered (logParams R jParams).writes := by
  have one := writes_block (R := R) jParams "fromBlock" .setFromBlock
  have two := writes_block (R := R) jParams "toBlock" .setToBlock
  have three := writes_addresses (R := R) jParams
  obtain ⟨four,sorted⟩ := writes_topics (R := R) jParams
  have nothing : (topicsIn []).Pairwise (fun a b => a.1 ≤ b.1) := .nil
  obtain ⟨_,which,split⟩ := Log.writes_then (logMember jParams "fromBlock" (logBlock R .setFromBlock)) (do
    logMember jParams "toBlock" (logBlock R .setToBlock)
    logMember jParams "addresses" (logAddresses R)
    logMember jParams "topics" (logTopicLists R))
  rw [logParams,split]
  rcases which with rfl | rfl
  · exact ordered_of_parts (show Parts _ [] [] [] from ⟨one,.inl rfl,List.forall_mem_nil _,List.forall_mem_nil _⟩) nothing
  obtain ⟨_,which,split⟩ := Log.writes_then (logMember jParams "toBlock" (logBlock R .setToBlock)) (do
    logMember jParams "addresses" (logAddresses R)
    logMember jParams "topics" (logTopicLists R))
  rw [split]
  rcases which with rfl | rfl
  · exact ordered_of_parts (show Parts _ _ [] [] from ⟨one,two,List.forall_mem_nil _,List.forall_mem_nil _⟩) nothing
  obtain ⟨_,which,split⟩ := Log.writes_then (logMember jParams "addresses" (logAddresses R)) (logMember jParams "topics" (logTopicLists R))
  rw [split]
  rcases which with rfl | rfl
  · exact ordered_of_parts (show Parts _ _ _ [] from ⟨one,two,three,List.forall_mem_nil _⟩) nothing
  · exact ordered_of_parts ⟨one,two,three,four⟩ sorted

end

/-! ### Topics over old topics -/

section
variable {p : EventSubParams} {calls : List (Nat × Bytes)}

/-- After calls in the order of their indexes there are their topics, and of the old ones
    those up to the first index. -/
theorem mem_addTopics_over (sorted : calls.Pairwise (fun a b => a.1 ≤ b.1)) {i : Nat} {t : Bytes} :
    t ∈ (addTopics p calls).topics.getD i ∅ ↔ (i,t) ∈ calls ∨ (t ∈ p.topics.getD i ∅ ∧ ∀ call ∈ calls, i ≤ call.1) := by
  induction calls generalizing p with
  | nil => simp [addTopics]
  | cons call rest ih =>
    obtain ⟨larger,later⟩ := List.pairwise_cons.mp sorted
    have step : addTopics p (call :: rest) = addTopics (addTopic p call.1 call.2).1 rest := rfl
    rw [step,ih later,mem_addTopic,List.mem_cons,List.forall_mem_cons]
    constructor
    · rintro (listed | ⟨here | ⟨old,below⟩,all⟩)
      · exact .inl (.inr listed)
      · exact .inl (.inl here)
      · exact .inr ⟨old,below,all⟩
    · rintro ((here | listed) | ⟨old,below,all⟩)
      · refine .inr ⟨.inl here,fun other member => ?_⟩
        rw [(Prod.mk.inj here).1]
        exact larger other member
      · exact .inl listed
      · exact .inr ⟨.inr ⟨old,below⟩,all⟩

private theorem topics_ext {topics others : List (Finset Bytes)} (size : topics.length = others.length)
    (content : ∀ i t, t ∈ topics.getD i ∅ ↔ t ∈ others.getD i ∅) : topics = others := by
  refine List.ext_getElem size (fun i one two => ?_)
  have same : topics.getD i ∅ = others.getD i ∅ := Finset.ext (content i)
  rwa [List.getD_eq_getElem _ _ one,List.getD_eq_getElem _ _ two] at same

/-- The topics are already those that the calls leave: as many sets as up to the last index,
    with the topics of the calls and, after the first index, no others. -/
def Repeats (topics : List (Finset Bytes)) (calls : List (Nat × Bytes)) : Prop :=
  ∀ last, calls.getLast? = some last → topics.length = last.1 + 1 ∧ (∀ call ∈ calls, call.2 ∈ topics.getD call.1 ∅) ∧
    ∀ i t, t ∈ topics.getD i ∅ → (i,t) ∈ calls ∨ ∀ call ∈ calls, i ≤ call.1
/-- There are no topics but those of the calls up to the first index, and none at all where
    there are no calls. -/
def Clears (topics : List (Finset Bytes)) (calls : List (Nat × Bytes)) : Prop :=
  (calls = [] → topics = []) ∧ ∀ i t, t ∈ topics.getD i ∅ → (∀ call ∈ calls, i ≤ call.1) → (i,t) ∈ calls

private theorem repeats_iff (sorted : calls.Pairwise (fun a b => a.1 ≤ b.1)) : (addTopics p calls).topics = p.topics ↔ Repeats p.topics calls := by
  have content := fun i t => mem_addTopics_over (p := p) sorted (i := i) (t := t)
  rcases List.eq_nil_or_concat calls with rfl | ⟨front,final,rfl⟩
  · exact iff_of_true rfl (fun last none => by cases none)
  · rw [List.concat_eq_append] at sorted content ⊢
    have size := addTopics_concat_length p front final
    constructor
    · rintro same last found
      rw [List.getLast?_append,List.getLast?_singleton,Option.some_or,Option.some.injEq] at found
      subst found
      rw [same] at size content
      refine ⟨size,fun call member => (content call.1 call.2).mpr (.inl member),fun i t old => ?_⟩
      exact ((content i t).mp old).imp_right And.right
    · intro again
      obtain ⟨length,here,only⟩ := again final (by simp)
      refine topics_ext (size.trans length.symm) (fun i t => (content i t).trans ⟨?_,fun old => ?_⟩)
      · rintro (listed | ⟨old,_⟩)
        · exact here (i,t) listed
        · exact old
      · exact (only i t old).imp_right (fun below => ⟨old,below⟩)

private theorem clears_iff (sorted : calls.Pairwise (fun a b => a.1 ≤ b.1)) :
    Accumulates calls (addTopics p calls).topics ↔ Clears p.topics calls := by
  have content := fun i t => mem_addTopics_over (p := p) sorted (i := i) (t := t)
  constructor
  · intro accumulates
    refine ⟨?_,fun i t old below => (accumulates.content i t).mp ((content i t).mpr (.inr ⟨old,below⟩))⟩
    rintro rfl
    refine List.eq_nil_of_length_eq_zero (Nat.eq_zero_of_not_pos (fun inside => ?_))
    obtain ⟨call,member,_⟩ := (accumulates.size 0).mp inside
    cases member
  · rintro ⟨empty,only⟩
    refine ⟨fun i => ?_,fun i t => (content i t).trans ⟨?_,.inl⟩⟩
    · rcases List.eq_nil_or_concat calls with rfl | ⟨front,final,rfl⟩
      · rw [show (addTopics p []).topics = p.topics from rfl,empty rfl]
        simp
      · rw [List.concat_eq_append] at sorted ⊢
        rw [addTopics_concat_length]
        constructor
        · exact fun inside => ⟨final,by simp,Nat.lt_succ_iff.mp inside⟩
        · rintro ⟨call,member,below⟩
          rcases List.mem_append.mp member with early | late
          · have smaller := (List.pairwise_append.mp sorted).2.2 call early final (List.mem_singleton_self _)
            omega
          · rw [List.mem_singleton.mp late] at below
            omega
    · rintro (listed | ⟨old,below⟩)
      · exact listed
      · exact only i t old below

end

section
variable {R : Reader}

/-! ### What a text says -/

/-- The strings of the elements. -/
def Strings (R : Reader) : List Json → List Bytes → Prop := List.Forall₂ (fun json text => R.asString json = .ok text)
/-- The topics of one index. -/
def elementsIn : Json → List Json
  | .null => []
  | .array elements => elements
  | json => [json]
/-- The topics of the elements from an index on, each with its index. -/
inductive TopicsOf (R : Reader) : Nat → List Json → List (Nat × Bytes) → Prop where
  | nil (index : Nat) : TopicsOf R index [] []
  | cons {index : Nat} {json : Json} {rest : List Json} {texts : List Bytes} {calls : List (Nat × Bytes)} :
    Strings R (elementsIn json) texts → TopicsOf R (index + 1) rest calls →
    TopicsOf R index (json :: rest) (texts.map (fun text => (index,text)) ++ calls)

/-- The object holds what the value says, in every field that it has. -/
structure HoldsParams (R : Reader) (jParams : Json) (p : EventSubParams) : Prop where
  fromBlock : ∀ json, jParams.member (lit "fromBlock") = some json → R.asInt64 json = .ok p.fromBlock
  toBlock : ∀ json, jParams.member (lit "toBlock") = some json → R.asInt64 json = .ok p.toBlock
  addresses : ∀ json, jParams.member (lit "addresses") = some json →
    ∃ items texts, json.items = .ok items ∧ Strings R items texts ∧ p.addresses = texts.toFinset
  topics : ∀ json, jParams.member (lit "topics") = some json →
    ∃ items calls, json.items = .ok items ∧ TopicsOf R 0 items calls ∧ Accumulates calls p.topics

private theorem strings_unique {items : List Json} {texts others : List Bytes} (one : Strings R items texts) (two : Strings R items others) :
    texts = others :=
  List.right_unique_forall₂' (fun _ _ _ read again => Except.ok.inj (read.symm.trans again)) one two
private theorem topicsOf_unique {index : Nat} {items : List Json} {calls others : List (Nat × Bytes)} (one : TopicsOf R index items calls)
    (two : TopicsOf R index items others) : calls = others := by
  induction one generalizing others with
  | nil =>
    cases two
    rfl
  | cons strings _ ih =>
    cases two with
    | cons again rest => rw [strings_unique strings again,ih rest]

private theorem block_ok {json : Json} {make : Int64 → Building} (ends : (logBlock R make json).outcome = .ok ()) :
    ∃ block, R.asInt64 json = .ok block ∧ (logBlock R make json).writes = [make block] := by
  obtain ⟨block,read,_,written⟩ := Log.lift_bind_ok ends
  exact ⟨block,read,written⟩
/-- A loop over strings. -/
theorem strings_ok {make : Bytes → Building} {items : List Json} (ends : (items.forM (fun json => do
    let text ← (R.asString json : Call Bytes)
    Log.write (make text) : Json → Input Unit)).outcome = .ok ()) :
    ∃ texts, Strings R items texts ∧ (items.forM (fun json => do
      let text ← (R.asString json : Call Bytes)
      Log.write (make text) : Json → Input Unit)).writes = texts.map make := by
  obtain ⟨texts,strings,written⟩ := Log.forM_ok (P := fun json text => R.asString json = .ok text) (fun json ended => by
    obtain ⟨text,read,_,written⟩ := Log.lift_bind_ok ended
    exact ⟨text,read,written⟩) ends
  exact ⟨texts,strings,written.trans List.map_eq_flatMap.symm⟩
private theorem index_ok {index : Nat} {json : Json} (ends : (logIndex R index json).outcome = .ok ()) :
    ∃ texts, Strings R (elementsIn json) texts ∧ (logIndex R index json).writes = texts.map (.addTopic index) := by
  have single : ∀ {json}, (logTopic R index json).outcome = .ok () →
      ∃ texts, Strings R [json] texts ∧ (logTopic R index json).writes = texts.map (.addTopic index) := by
    intro json ends
    obtain ⟨text,read,_,written⟩ := Log.lift_bind_ok ends
    exact ⟨[text],.cons read .nil,written⟩
  cases json with
  | null => exact ⟨[],.nil,rfl⟩
  | array elements => exact strings_ok ends
  | _ => exact single ends
private theorem topics_ok {index : Nat} {items : List Json} (ends : (logTopics R index items).outcome = .ok ()) :
    ∃ calls, TopicsOf R index items calls ∧ (logTopics R index items).writes = calls.map (fun call => .addTopic call.1 call.2) := by
  induction items generalizing index with
  | nil => exact ⟨[],.nil index,rfl⟩
  | cons json rest ih =>
    obtain ⟨_,first,later⟩ := Log.bind_ok_iff.mp ends
    obtain ⟨texts,strings,written⟩ := index_ok first
    obtain ⟨calls,topics,others⟩ := ih later
    refine ⟨_,.cons strings topics,?_⟩
    rw [logTopics,Log.bind_of_ok first,written,others,List.map_append,List.map_map]
    rfl

/-- What has been read of a value whose every part can be read. -/
structure ReadsParams (R : Reader) (jParams : Json) (input : List Building) : Prop where
  fromBlock : ∀ json, jParams.member (lit "fromBlock") = some json → ∃ block, R.asInt64 json = .ok block ∧ fromBlocks input = [block]
  toBlock : ∀ json, jParams.member (lit "toBlock") = some json → ∃ block, R.asInt64 json = .ok block ∧ toBlocks input = [block]
  addresses : ∀ json, jParams.member (lit "addresses") = some json →
    ∃ items, json.items = .ok items ∧ Strings R items (addressesIn input)
  topics : ∀ json, jParams.member (lit "topics") = some json →
    ∃ items, json.items = .ok items ∧ TopicsOf R 0 items (topicsIn input)

private theorem addresses_ok {json : Json} (ends : (logAddresses R json).outcome = .ok ()) :
    ∃ items texts, json.items = .ok items ∧ Strings R items texts ∧ (logAddresses R json).writes = texts.map .addAddress := by
  obtain ⟨items,listed,each,written⟩ := Log.lift_bind_ok ends
  obtain ⟨texts,strings,more⟩ := strings_ok each
  exact ⟨items,texts,listed,strings,written.trans more⟩
private theorem topicLists_ok {json : Json} (ends : (logTopicLists R json).outcome = .ok ()) :
    ∃ items calls, json.items = .ok items ∧ TopicsOf R 0 items calls ∧
      (logTopicLists R json).writes = calls.map (fun call => .addTopic call.1 call.2) := by
  obtain ⟨items,listed,each,written⟩ := Log.lift_bind_ok ends
  obtain ⟨calls,topics,more⟩ := topics_ok each
  exact ⟨items,calls,listed,topics,written.trans more⟩

private theorem params_ok {jParams : Json} (ends : (logParams R jParams).outcome = .ok ()) :
    ReadsParams R jParams (logParams R jParams).writes := by
  obtain ⟨_,one,rest⟩ := Log.bind_ok_iff.mp ends
  obtain ⟨_,two,rest⟩ := Log.bind_ok_iff.mp rest
  obtain ⟨_,three,four⟩ := Log.bind_ok_iff.mp rest
  have split : (logParams R jParams).writes = (logMember jParams "fromBlock" (logBlock R .setFromBlock)).writes ++
      ((logMember jParams "toBlock" (logBlock R .setToBlock)).writes ++
        ((logMember jParams "addresses" (logAddresses R)).writes ++ (logMember jParams "topics" (logTopicLists R)).writes)) := by
    rw [logParams,Log.bind_of_ok one,Log.bind_of_ok two,Log.bind_of_ok three]
  obtain ⟨fromBlock,toBlock,addresses,topics⟩ := projections_of_parts
    ⟨writes_block (R := R) jParams "fromBlock" .setFromBlock,writes_block (R := R) jParams "toBlock" .setToBlock,
      writes_addresses (R := R) jParams,(writes_topics (R := R) jParams).1⟩
  rw [split]
  constructor
  · intro json present
    obtain ⟨each,written⟩ := member_ok one present
    obtain ⟨block,read,made⟩ := block_ok each
    exact ⟨block,read,by rw [fromBlock,written,made]; rfl⟩
  · intro json present
    obtain ⟨each,written⟩ := member_ok two present
    obtain ⟨block,read,made⟩ := block_ok each
    exact ⟨block,read,by rw [toBlock,written,made]; rfl⟩
  · intro json present
    obtain ⟨each,written⟩ := member_ok three present
    obtain ⟨items,texts,listed,strings,made⟩ := addresses_ok each
    refine ⟨items,listed,?_⟩
    rw [addresses,written,made,addressesIn,List.filterMap_map]
    simpa [Function.comp_def] using strings
  · intro json present
    obtain ⟨each,written⟩ := member_ok four present
    obtain ⟨items,calls,listed,read,made⟩ := topicLists_ok each
    refine ⟨items,listed,?_⟩
    rw [topics,written,made,topicsIn,List.filterMap_map]
    simpa [Function.comp_def] using read

/-! ### What is left of the object -/

/-- The object held no addresses and no topics that the text does not give, in the members
    that the text has. -/
structure Covered (root : Json) (input : List Building) (p : EventSubParams) : Prop where
  addresses : (root.member (lit "addresses")).isSome = true → ∀ address ∈ p.addresses, address ∈ addressesIn input
  topics : (root.member (lit "topics")).isSome = true → Clears p.topics (topicsIn input)
/-- The values say what the object held. -/
structure Repeated (input : List Building) (p : EventSubParams) : Prop where
  fromBlock : ∀ block ∈ fromBlocks input, block = p.fromBlock
  toBlock : ∀ block ∈ toBlocks input, block = p.toBlock
  addresses : ∀ address ∈ addressesIn input, address ∈ p.addresses
  topics : Repeats p.topics (topicsIn input)
/-- Of a text that can be read the object held nothing else, and of one that fails half way
    it held all that comes before the failure. -/
def Unmixed (R : Reader) (p : EventSubParams) (text : Bytes) : Prop :=
  ∀ root, R.parse text = some root →
    ((logParams R root).outcome = .ok () → Covered root (logParams R root).writes p) ∧
    ((logParams R root).outcome ≠ .ok () → Repeated (logParams R root).writes p)

/-- What the object holds after a text that can be read. -/
theorem holds_iff {root : Json} {input : List Building} (reads : ReadsParams R root input) (ordered : Ordered input)
    (p : EventSubParams) : HoldsParams R root (input.foldl build p) ↔ Covered root input p := by
  rw [foldl_build]
  constructor
  · intro holds
    constructor
    · intro present address old
      obtain ⟨json,found⟩ := Option.isSome_iff_exists.mp present
      obtain ⟨items,listed,strings⟩ := reads.addresses json found
      obtain ⟨others,texts,again,othersRead,same⟩ := holds.addresses json found
      rw [listed,Except.ok.injEq] at again
      subst again
      rw [strings_unique othersRead strings] at same
      exact List.mem_toFinset.mp (Finset.union_eq_right.mp same old)
    · intro present
      obtain ⟨json,found⟩ := Option.isSome_iff_exists.mp present
      obtain ⟨items,listed,topics⟩ := reads.topics json found
      obtain ⟨others,calls,again,othersRead,accumulates⟩ := holds.topics json found
      rw [listed,Except.ok.injEq] at again
      subst again
      rw [topicsOf_unique othersRead topics] at accumulates
      exact (clears_iff ordered.topics).mp accumulates
  · intro covered
    constructor
    · intro json found
      obtain ⟨block,read,only⟩ := reads.fromBlock json found
      rw [read,only]
      rfl
    · intro json found
      obtain ⟨block,read,only⟩ := reads.toBlock json found
      rw [read,only]
      rfl
    · intro json found
      obtain ⟨items,listed,strings⟩ := reads.addresses json found
      refine ⟨items,_,listed,strings,Finset.union_eq_right.mpr (fun address old => ?_)⟩
      exact List.mem_toFinset.mpr (covered.addresses (Option.isSome_iff_exists.mpr ⟨json,found⟩) address old)
    · intro json found
      obtain ⟨items,listed,topics⟩ := reads.topics json found
      exact ⟨items,_,listed,topics,(clears_iff ordered.topics).mpr (covered.topics (Option.isSome_iff_exists.mpr ⟨json,found⟩))⟩

/-- What the object is after a text that fails half way. -/
theorem unchanged_iff {input : List Building} (ordered : Ordered input) (p : EventSubParams) :
    input.foldl build p = p ↔ Repeated input p := by
  have blocks := getLast_repeats ordered.fromBlock p.fromBlock
  have last := getLast_repeats ordered.toBlock p.toBlock
  have addresses : p.addresses ∪ (addressesIn input).toFinset = p.addresses ↔ ∀ address ∈ addressesIn input, address ∈ p.addresses := by
    rw [Finset.union_eq_left]
    exact forall_congr' (fun address => by rw [List.mem_toFinset])
  have topics := repeats_iff (p := p) ordered.topics
  rw [foldl_build]
  constructor
  · intro same
    have fields := EventSubParams.mk.inj same
    exact ⟨blocks.mp fields.1,last.mp fields.2.1,addresses.mp fields.2.2.1,topics.mp fields.2.2.2⟩
  · intro repeated
    rw [blocks.mpr repeated.fromBlock,last.mpr repeated.toBlock,addresses.mpr repeated.addresses,topics.mpr repeated.topics]

/-- `EventSubParams::fromJsonString` leaves no trace exactly if it mixes nothing. -/
theorem traceless_params_iff (throws : ThrowsOnly R) (p : EventSubParams) (text : Bytes) :
    Traceless (· = ·) (fun after => ∃ root, R.parse text = some root ∧ HoldsParams R root after) p (fromJsonString R p text) ↔
      Unmixed R p text := by
  rw [fromJsonString,Unmixed]
  cases parsed : R.parse text with
  | none => exact iff_of_true (.inr ⟨rfl,rfl⟩) (fun _ found => by cases found)
  | some root =>
    have ran := logs_params (R := R) root p
    have ordered := ordered_params R root
    have fails := fails_params throws root
    simp only [fromJson,ran,Option.some.injEq,forall_eq',exists_eq_left',Traceless]
    cases ends : (logParams R root).outcome with
    | ok result =>
      simp [holds_iff (params_ok ends) ordered]
    | error failure =>
      obtain ⟨_,rfl⟩ := fails failure ends
      simp [unchanged_iff ordered]

/-- There is nothing to mix with in a fresh object. -/
theorem covered_fresh (root : Json) (input : List Building) : Covered root input fresh :=
  ⟨fun _ _ old => by simp [fresh] at old,fun _ => ⟨fun _ => rfl,fun i t old => by simp [fresh] at old⟩⟩

/-! ### A request -/

/-- The request that a value is. -/
structure HoldsRequest (R : Reader) (root : Json) (q : EventSubSubRequest) : Prop where
  id : Holds R.asString root "id" q.id
  group : Holds R.asString root "group" q.group
  params : ∃ json, root.member (lit "params") = some json ∧ HoldsParams R json q.params

private theorem holdsRequest_of_readRequest {q after : EventSubSubRequest} {root : Json} (read : readRequest R q root = .ok (some after)) :
    HoldsRequest R root after := by
  obtain ⟨_,id,read⟩ := field_some read
  obtain ⟨_,idRead,read⟩ := bind_ok.mp read
  obtain ⟨_,group,read⟩ := field_some read
  obtain ⟨_,groupRead,read⟩ := bind_ok.mp read
  obtain ⟨json,params,read⟩ := field_some read
  have ran := logs_params (R := R) json fresh
  rw [ran] at read
  cases ends : (logParams R json).outcome with
  | error failure =>
    rw [ends] at read
    cases read
  | ok result =>
    rw [ends] at read
    cases read
    refine ⟨⟨_,id,idRead⟩,⟨_,group,groupRead⟩,json,params,?_⟩
    exact (holds_iff (params_ok ends) (ordered_params R json) fresh).mpr (covered_fresh _ _)
private theorem raises_readRequest (throws : ThrowsOnly R) (q : EventSubSubRequest) (root : Json) : Raises (readRequest R q root) := by
  refine raises_field _ _ (fun id => raises_bind (throws.asString id) (fun _ _ => ?_)) (raises_ok _)
  refine raises_field _ _ (fun group => raises_bind (throws.asString group) (fun _ _ => ?_)) (raises_ok _)
  refine raises_field _ _ (fun json => ?_) (raises_ok _)
  rw [logs_params (R := R) json fresh]
  cases ends : (logParams R json).outcome with
  | ok result => exact raises_ok _
  | error failure =>
    rintro _ ⟨⟩
    exact fails_params throws json failure ends

/-- `EventSubSubRequest::fromJson` leaves no trace. -/
theorem traceless_request (throws : ThrowsOnly R) (q : EventSubSubRequest) (text : Bytes) :
    Traceless (· = ·) (fun after => ∃ root, R.parse text = some root ∧ HoldsRequest R root after) q (q.fromJson R text) := by
  have same : q.fromJson R text = staged (readRequest R q) q (R.parse text) := by
    rw [EventSubSubRequest.fromJson]
    cases R.parse text with
    | none => rfl
    | some root =>
      dsimp only [staged]
      rcases readRequest R q root with ⟨_ | _ | _ | _⟩ | ⟨_ | _⟩ <;> rfl
  rw [same]
  exact traceless_staged (raises_readRequest throws q) (fun _ _ read => holdsRequest_of_readRequest read) q (R.parse text)

end

end CppSdk.PartialParams

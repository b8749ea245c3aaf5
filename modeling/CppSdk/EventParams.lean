import CppSdk.SubscribeRequests
import CppSdk.JsonValues

/-!
The parameters of a subscription as the user builds them and as JSON. Every call of
`addTopic` cuts the topics to the index it is given, so they accumulate as long as no topic
is followed by one of a smaller index (`accumulates_iff`). What the calls build survives
the writers and the readers (`params_survive`).
-/
namespace CppSdk.EventParams
open CppSdk.ByteString CppSdk.Runtime CppSdk.JsonValues CppSdk.Transition
open CppSdk.SubscribeRequests (EventSubParams eventLogTopicsMaxIndex)

/-! ### Building the parameters -/

/-- A fresh object. -/
def fresh : EventSubParams := ⟨-1,-1,∅,[]⟩

def setFromBlock (p : EventSubParams) (fromBlock : Int64) : EventSubParams := { p with fromBlock := fromBlock }
def setToBlock (p : EventSubParams) (toBlock : Int64) : EventSubParams := { p with toBlock := toBlock }
def addAddress (p : EventSubParams) (address : Bytes) : EventSubParams := { p with addresses := insert address p.addresses }

/-- `resize` of the topics: a vector that is too long is cut. -/
def resize (topics : List (Finset Bytes)) (size : Nat) : List (Finset Bytes) :=
  topics.take size ++ List.replicate (size - topics.length) ∅
/-- `EventSubParams::addTopic`. The index is below the largest `size_t`. -/
def addTopic (p : EventSubParams) (index : Nat) (topic : Bytes) : EventSubParams × Bool :=
  ({ p with topics := (resize p.topics (index + 1)).modify index (insert topic) },decide (index < eventLogTopicsMaxIndex))

/-- The topics after calls of `addTopic`, in their order. -/
def addTopics (p : EventSubParams) (calls : List (Nat × Bytes)) : EventSubParams :=
  calls.foldl (fun p call => (addTopic p call.1 call.2).1) p

@[simp] theorem resize_length (topics : List (Finset Bytes)) (size : Nat) : (resize topics size).length = size := by
  simp [resize]
  omega
/-- The sets below the new size stay; there are empty ones after the old size. -/
theorem getD_resize (topics : List (Finset Bytes)) (size i : Nat) :
    (resize topics size).getD i ∅ = if i < size then topics.getD i ∅ else ∅ := by
  by_cases inside : i < size
  · by_cases old : i < topics.length
    · have front : i < (topics.take size).length := by rw [List.length_take]; omega
      simp [resize,List.getD_eq_getElem?_getD,List.getElem?_append_left front,inside]
    · have back : (topics.take size).length ≤ i := by rw [List.length_take]; omega
      have absent : topics[i]? = none := List.getElem?_eq_none (Nat.not_lt.mp old)
      simp only [resize,List.getD_eq_getElem?_getD,List.getElem?_append_right back,List.getElem?_replicate,absent,inside]
      split <;> rfl
  · rw [if_neg inside,List.getD_eq_default]
    rw [resize_length]
    exact Nat.not_lt.mp inside

private theorem addTopic_length (p : EventSubParams) (index : Nat) (topic : Bytes) :
    (addTopic p index topic).1.topics.length = index + 1 := by
  simp [addTopic]

/-- A call leaves the sets before its index, adds its topic at it and drops the sets after it. -/
theorem mem_addTopic {p : EventSubParams} {index i : Nat} {topic t : Bytes} :
    t ∈ (addTopic p index topic).1.topics.getD i ∅ ↔ (i,t) = (index,topic) ∨ (t ∈ p.topics.getD i ∅ ∧ i ≤ index) := by
  have kept := getD_resize p.topics (index + 1) i
  by_cases same : i = index
  · subst same
    have inside : i < (resize p.topics (i + 1)).length := by simp
    rw [List.getD_eq_getElem _ _ inside,if_pos (Nat.lt_succ_self i)] at kept
    have here : i < ((resize p.topics (i + 1)).modify i (insert topic)).length := by simp
    simp only [addTopic]
    rw [List.getD_eq_getElem _ _ here,List.getElem_modify_eq,kept]
    simp
  · have other : ((resize p.topics (index + 1)).modify index (insert topic)).getD i ∅ = (resize p.topics (index + 1)).getD i ∅ := by
      rw [List.getD_eq_getElem?_getD,List.getD_eq_getElem?_getD,List.getElem?_modify_ne _ _ (Ne.symm same)]
    simp only [addTopic,other,kept,Prod.mk.injEq,same,false_and,false_or]
    by_cases inside : i < index + 1
    · simp [inside,Nat.lt_succ_iff.mp inside]
    · simp [inside,Nat.not_le.mpr (Nat.lt_of_succ_le (Nat.not_lt.mp inside))]

/-! ### Accumulation -/

/-- The topics are those of the calls: there is a set for every index up to the largest
    one, with all the topics of the index. -/
structure Accumulates (calls : List (Nat × Bytes)) (topics : List (Finset Bytes)) : Prop where
  size : ∀ i, i < topics.length ↔ ∃ call ∈ calls, i ≤ call.1
  content : ∀ i t, t ∈ topics.getD i ∅ ↔ (i,t) ∈ calls

/-- Some call with the index and the topic has none of a smaller index after it. -/
def Lasts (calls : List (Nat × Bytes)) (call : Nat × Bytes) : Prop :=
  ∃ before after, calls = before ++ call :: after ∧ ∀ later ∈ after, call.1 ≤ later.1

private theorem lasts_concat {calls : List (Nat × Bytes)} {last call : Nat × Bytes} :
    Lasts (calls ++ [last]) call ↔ call = last ∨ (Lasts calls call ∧ call.1 ≤ last.1) := by
  constructor
  · rintro ⟨before,after,split,larger⟩
    rcases List.eq_nil_or_concat after with rfl | ⟨after,other,rfl⟩
    · exact .inl (List.append_inj_right' split rfl |> List.cons.inj |>.1).symm
    · have regroup : before ++ call :: after.concat other = (before ++ call :: after) ++ [other] := by simp
      rw [regroup] at split
      obtain ⟨rest,same⟩ := List.append_inj' split rfl
      obtain rfl := List.head_eq_of_cons_eq same
      exact .inr ⟨⟨before,after,rest,fun later member => larger later (by simp [member])⟩,larger last (by simp)⟩
  · rintro (rfl | ⟨⟨before,after,rfl,larger⟩,smaller⟩)
    · exact ⟨calls,[],rfl,by simp⟩
    · refine ⟨before,after ++ [last],by simp,fun later member => ?_⟩
      rcases List.mem_append.mp member with early | late
      · exact larger later early
      · exact List.mem_singleton.mp late ▸ smaller
private theorem mem_of_lasts {calls : List (Nat × Bytes)} {call : Nat × Bytes} (lasts : Lasts calls call) : call ∈ calls := by
  obtain ⟨before,after,rfl,_⟩ := lasts
  simp

/-- What is left of the calls: the topics that last. -/
theorem mem_addTopics {calls : List (Nat × Bytes)} {i : Nat} {t : Bytes} :
    t ∈ (addTopics fresh calls).topics.getD i ∅ ↔ Lasts calls (i,t) := by
  induction calls using List.reverseRecOn with
  | nil => simp [addTopics,fresh,Lasts]
  | append_singleton calls last ih =>
    rw [addTopics,List.foldl_append,List.foldl_cons,List.foldl_nil,mem_addTopic,lasts_concat]
    exact or_congr Iff.rfl (and_congr_left' ih)

/-- There are sets up to the index of the last call. -/
theorem addTopics_concat_length (p : EventSubParams) (calls : List (Nat × Bytes)) (last : Nat × Bytes) :
    (addTopics p (calls ++ [last])).topics.length = last.1 + 1 := by
  rw [addTopics,List.foldl_append,List.foldl_cons,List.foldl_nil,addTopic_length]

/-- The topics accumulate exactly if each of them is given once without a smaller index
    after it. -/
theorem accumulates_iff (calls : List (Nat × Bytes)) :
    Accumulates calls (addTopics fresh calls).topics ↔ ∀ call ∈ calls, Lasts calls call := by
  constructor
  · exact fun accumulates call member => mem_addTopics.mp ((accumulates.content call.1 call.2).mpr member)
  · intro last
    have content : ∀ i t, t ∈ (addTopics fresh calls).topics.getD i ∅ ↔ (i,t) ∈ calls :=
      fun i t => mem_addTopics.trans ⟨mem_of_lasts,last (i,t)⟩
    refine ⟨fun i => ⟨fun inside => ?_,?_⟩,content⟩
    · rcases List.eq_nil_or_concat calls with rfl | ⟨front,final,rfl⟩
      · exact absurd inside (Nat.not_lt_zero i)
      · rw [List.concat_eq_append,addTopics_concat_length] at inside
        exact ⟨final,by simp,Nat.lt_succ_iff.mp inside⟩
    · rintro ⟨call,member,below⟩
      by_contra outside
      have nothing : (addTopics fresh calls).topics.getD call.1 ∅ = ∅ := List.getD_eq_default _ _ (by omega)
      have here := (content call.1 call.2).mpr member
      rw [nothing] at here
      simp at here

/-- A topic of index 1 before one of index 0. -/
theorem accumulates_breaks : ¬ ∀ calls : List (Nat × Bytes), Accumulates calls (addTopics fresh calls).topics := by
  intro all
  have content := (all [(1,[98]),(0,[97])]).content 1 [98]
  exact absurd (content.mpr (by simp)) (by decide)

/-! ### Runs of calls -/

/-- A call of the user that builds parameters. -/
inductive Building where
  | setFromBlock (fromBlock : Int64)
  | setToBlock (toBlock : Int64)
  | addAddress (address : Bytes)
  | addTopic (index : Nat) (topic : Bytes)

def build (p : EventSubParams) : Building → EventSubParams
  | .setFromBlock fromBlock => setFromBlock p fromBlock
  | .setToBlock toBlock => setToBlock p toBlock
  | .addAddress address => addAddress p address
  | .addTopic index topic => (addTopic p index topic).1

/-- An object and the calls of its user. -/
def params : System EventSubParams Building := ⟨fresh,fun p call => some (build p call)⟩
/-- The indexes are below 2^31. -/
def Indexed (_ : EventSubParams) : Building → Prop
  | .addTopic index _ => index < 2 ^ 31
  | .setFromBlock _ | .setToBlock _ | .addAddress _ => True

/-- The last set is not empty: there is no set after the last topic. -/
def Filled (p : EventSubParams) : Prop := p.topics.getLast? ≠ some ∅

private theorem filled_addTopic (p : EventSubParams) (index : Nat) (topic : Bytes) : Filled (addTopic p index topic).1 := by
  intro last
  have size := addTopic_length p index topic
  rw [List.getLast?_eq_getElem?,size,Nat.add_sub_cancel] at last
  have member : topic ∈ (addTopic p index topic).1.topics.getD index ∅ := mem_addTopic.mpr (.inl rfl)
  rw [List.getD_eq_getElem?_getD,last] at member
  simp at member

/-- What the calls build is filled. -/
theorem filled_of_reachable {p : EventSubParams} (reachable : params.Reachable Indexed p) : Filled p := by
  refine invariant_of_reachable (by simp [Filled,params,fresh]) ?_ reachable
  intro p call next filled _ stepped
  cases stepped
  cases call with
  | addTopic index topic => exact filled_addTopic p index topic
  | setFromBlock _ | setToBlock _ | addAddress _ => exact filled

private theorem empty_of_filled {p : EventSubParams} (filled : Filled p) {topics : List (Finset Bytes)} {empty : Nat}
    (split : p.topics = topics ++ List.replicate empty ∅) : topics = p.topics := by
  cases empty with
  | zero => simpa using split.symm
  | succ empty =>
    refine absurd ?_ filled
    rw [split,List.replicate_succ',← List.append_assoc,List.getLast?_append]
    simp

/-! ### Writing -/

/-- The strings of a `std::set`, in its order. -/
def strings (texts : Finset Bytes) : List Json := (texts.sort (· ≤ ·)).map .string
/-- A set of topics: null where it is empty. -/
def jInTopics (inTopics : Finset Bytes) : Json := if inTopics = ∅ then .null else .array (strings inTopics)
/-- The members that both writers write, in the order of their names. -/
def writeParams (p : EventSubParams) (fromBlock : Int64) : Json :=
  .object [(lit "addresses",.array (strings p.addresses)),(lit "fromBlock",.int fromBlock),(lit "toBlock",.int p.toBlock),
    (lit "topics",.array (p.topics.map jInTopics))]
/-- `EventSubParams::toJson`. -/
def toJson (p : EventSubParams) : Json := writeParams p p.fromBlock
/-- `EventSubParams::toJsonString`. -/
def toJsonString (J : Jsoncpp) (p : EventSubParams) : Bytes := J.write (toJson p)

/-- `EventSubSubRequest`; of the state of its task, the current block. -/
structure EventSubSubRequest where
  id : Bytes
  group : Bytes
  params : EventSubParams
  currentBlockNumber : Int64

/-- The value that `EventSubSubRequest::generateJson` writes. -/
def requestJson (q : EventSubSubRequest) : Json :=
  let fromBlock := if 0 < q.currentBlockNumber then q.currentBlockNumber + 1 else q.params.fromBlock
  .object [(lit "group",.string q.group),(lit "id",.string q.id),(lit "params",writeParams q.params fromBlock)]
/-- `EventSubSubRequest::generateJson`. -/
def generateJson (J : Jsoncpp) (q : EventSubSubRequest) : Bytes := J.write (requestJson q)

/-! ### Reading -/

/-- Jsoncpp with `asInt64`. -/
structure Reader extends Jsoncpp where
  asInt64 : Json → Call Int64
/-- Its documented behaviour on numbers that an `int64_t` holds. -/
structure Reader.Documented (R : Reader) : Prop extends R.toJsoncpp.Documented where
  int64_reads : ∀ json (i : Int64), json.number = some i.toInt → R.asInt64 json = .ok i

/-- A method of `EventSubParams`. -/
abbrev Reading := Method Failure EventSubParams

section
variable (R : Reader)

/-- A member, where there is one. -/
def readMember (jParams : Json) (key : String) (read : Json → Reading Unit) : Reading Unit := do
  if ← (jParams.isMember (lit key) : Call Bool) then read ((jParams.member (lit key)).getD .null)
/-- `addAddress` with the string of a value. -/
def readAddress (json : Json) : Reading Unit := do
  let address ← (R.asString json : Call Bytes)
  modify (fun p => addAddress p address)
/-- `addTopic` with the string of a value. -/
def readTopic (index : Nat) (json : Json) : Reading Unit := do
  let topic ← (R.asString json : Call Bytes)
  modify (fun p => (addTopic p index topic).1)
/-- One element of the topics. -/
def readIndex (index : Nat) : Json → Reading Unit
  | .null => pure ()
  | .array elements => elements.forM (readTopic R index)
  | json => readTopic R index json
/-- The elements of the topics from an index on. -/
def readTopics (index : Nat) : List Json → Reading Unit
  | [] => pure ()
  | json :: rest => do
    readIndex R index json
    readTopics (index + 1) rest
/-- What both readers read. -/
def readParams (jParams : Json) : Reading Unit := do
  readMember jParams "fromBlock" (fun json => do
    let block ← (R.asInt64 json : Call Int64)
    modify (fun p => setFromBlock p block))
  readMember jParams "toBlock" (fun json => do
    let block ← (R.asInt64 json : Call Int64)
    modify (fun p => setToBlock p block))
  readMember jParams "addresses" (fun json => do (← (json.items : Call (List Json))).forM (readAddress R))
  readMember jParams "topics" (fun json => do readTopics R 0 (← (json.items : Call (List Json))))
/-- `EventSubParams::fromJson`. -/
def fromJson (jParams : Json) : Reading Unit := readParams R jParams

/-- `EventSubParams::fromJsonString`: whether it succeeds, and the object. -/
def fromJsonString (p : EventSubParams) (text : Bytes) : Call Bool × EventSubParams :=
  match R.parse text with
  | none => (.ok false,p)
  | some root =>
    match (fromJson R root).run p with
    | (.ok (),after) => (.ok true,after)
    | (.error (.throws _),after) => (.ok false,after)
    | (.error failure,after) => (.error failure,after)

/-- The `try` block of `EventSubSubRequest::fromJson`: the request with what it has read. -/
def readRequest (q : EventSubSubRequest) (root : Json) : Call (Option EventSubSubRequest) :=
  root.field "id" (fun json => do
    let id ← R.asString json
    root.field "group" (fun json => do
      let group ← R.asString json
      root.field "params" (fun json =>
        match (readParams R json).run fresh with
        | (.ok (),params) => .ok (some { q with id := id,group := group,params := params })
        | (.error failure,_) => .error failure) (.ok none)) (.ok none)) (.ok none)
/-- `EventSubSubRequest::fromJson`: whether it succeeds, and the request. -/
def EventSubSubRequest.fromJson (q : EventSubSubRequest) (text : Bytes) : Call Bool × EventSubSubRequest :=
  match R.parse text with
  | none => (.ok false,q)
  | some root =>
    match readRequest R q root with
    | .ok (some after) => (.ok true,after)
    | .ok none | .error (.throws _) => (.ok false,q)
    | .error failure => (.error failure,q)
end

/-! ### Read again -/

mutual
/-- The same value up to the kind of its numbers: of a number that it reads, Jsoncpp makes an
    `intValue` or a `uintValue` by its size. -/
inductive Same : Json → Json → Prop where
  | null : Same .null .null
  | number {json read : Json} {i : Int} : json.number = some i → read.number = some i → Same json read
  | real (text : Bytes) : Same (.real text) (.real text)
  | string (text : Bytes) : Same (.string text) (.string text)
  | boolean (b : Bool) : Same (.boolean b) (.boolean b)
  | array {elements read : List Json} : List.Forall₂ Same elements read → Same (.array elements) (.array read)
  | object {members read : List (Bytes × Json)} : List.Forall₂ SameMember members read → Same (.object members) (.object read)
/-- A member with the same name and value. -/
inductive SameMember : Bytes × Json → Bytes × Json → Prop where
  | named (key : Bytes) {json read : Json} : Same json read → SameMember (key,json) (key,read)
end

/-- The reader of Jsoncpp inverts its writer on a value. -/
def Inverts (R : Reader) (json : Json) : Prop := ∃ read, R.parse (R.write json) = some read ∧ Same json read

mutual
theorem same_refl : ∀ json, Same json json
  | .null => .null
  | .int i => .number (i := i.toInt) rfl rfl
  | .uint u => .number (i := u.toNat) rfl rfl
  | .real text => .real text
  | .string text => .string text
  | .boolean b => .boolean b
  | .array elements => .array (sameElements_refl elements)
  | .object members => .object (sameMembers_refl members)
private theorem sameElements_refl : ∀ elements, List.Forall₂ Same elements elements
  | [] => .nil
  | json :: rest => .cons (same_refl json) (sameElements_refl rest)
private theorem sameMembers_refl : ∀ members, List.Forall₂ SameMember members members
  | [] => .nil
  | (key,json) :: rest => .cons (.named key (same_refl json)) (sameMembers_refl rest)
end

/-- A number is read as the number. -/
theorem number_of_same {json read : Json} {i : Int} (same : Same json read) (number : json.number = some i) :
    read.number = some i := by
  cases same with
  | number written found =>
    rw [number] at written
    cases written
    exact found
  | null | real | string | boolean | array | object => cases number

/-- A value without numbers is read as it is. -/
def Fixed (json : Json) : Prop := ∀ read, Same json read → read = json

theorem fixed_null : Fixed .null := by
  intro read same
  cases same with
  | null => rfl
  | number number => cases number
theorem fixed_string (text : Bytes) : Fixed (.string text) := by
  intro read same
  cases same with
  | string => rfl
  | number number => cases number
private theorem fixed_array {elements : List Json} (all : ∀ json ∈ elements, Fixed json) : Fixed (.array elements) := by
  intro read same
  cases same with
  | number number => cases number
  | array pairs =>
    congr 1
    induction pairs with
    | nil => rfl
    | cons same _ ih =>
      obtain ⟨first,rest⟩ := List.forall_mem_cons.mp all
      rw [first _ same,ih rest]

private theorem fixed_strings (texts : Finset Bytes) : Fixed (.array (strings texts)) := by
  refine fixed_array (fun json member => ?_)
  obtain ⟨text,_,rfl⟩ := List.mem_map.mp member
  exact fixed_string text
private theorem fixed_topics (topics : List (Finset Bytes)) : Fixed (.array (topics.map jInTopics)) := by
  refine fixed_array (fun json member => ?_)
  obtain ⟨inTopics,_,rfl⟩ := List.mem_map.mp member
  unfold jInTopics
  split
  · exact fixed_null
  · exact fixed_strings inTopics

/-- The parameters as they are read: only the numbers can be of another kind. -/
theorem same_writeParams {p : EventSubParams} {fromBlock : Int64} {read : Json} (same : Same (writeParams p fromBlock) read) :
    ∃ first last : Json, first.number = some fromBlock.toInt ∧ last.number = some p.toBlock.toInt ∧
      read = .object [(lit "addresses",.array (strings p.addresses)),(lit "fromBlock",first),(lit "toBlock",last),
        (lit "topics",.array (p.topics.map jInTopics))] := by
  cases same with
  | number number => cases number
  | object pairs =>
    rcases pairs with _ | ⟨⟨_,addresses⟩,_ | ⟨⟨_,first⟩,_ | ⟨⟨_,last⟩,_ | ⟨⟨_,topics⟩,_ | _⟩⟩⟩⟩
    rw [fixed_strings _ _ addresses,fixed_topics _ _ topics]
    exact ⟨_,_,number_of_same first rfl,number_of_same last rfl,rfl⟩

/-! ### What is read -/

section
variable {R : Reader}

/-- A loop over strings that each change the object. -/
theorem run_strings {step : Json → Reading Unit} {change : EventSubParams → Bytes → EventSubParams}
    (each : ∀ text p, (step (.string text)).run p = (.ok (),change p text)) (texts : List Bytes) (p : EventSubParams) :
    ((texts.map Json.string).forM step).run p = (.ok (),texts.foldl change p) := by
  induction texts generalizing p with
  | nil => rfl
  | cons text texts ih => exact (run_bind (each text p)).trans (ih (change p text))

private theorem run_readMember {members : List (Bytes × Json)} {key : String} {json : Json} (found : members.lookup (lit key) = some json)
    (read : Json → Reading Unit) (p : EventSubParams) : (readMember (.object members) key read).run p = (read json).run p := by
  have listed : (Json.object members).isMember (lit key) = .ok true := by simp [Json.isMember,found]
  rw [readMember,run_bind (run_lift listed)]
  simp [Json.member,found]

variable (documented : R.Documented)
include documented

private theorem run_readTopic (index : Nat) (topic : Bytes) (p : EventSubParams) :
    (readTopic R index (.string topic)).run p = (.ok (),(addTopic p index topic).1) := by
  rw [readTopic,run_bind (run_lift (documented.string_reads topic).2)]
  rfl

private theorem run_readAddress (address : Bytes) (p : EventSubParams) :
    (readAddress R (.string address)).run p = (.ok (),addAddress p address) := by
  rw [readAddress,run_bind (run_lift (documented.string_reads address).2)]
  rfl

/-- The topics of one index: null leaves the object as it is. -/
theorem run_readIndex (index : Nat) (inTopics : Finset Bytes) (p : EventSubParams) :
    (readIndex R index (jInTopics inTopics)).run p =
      (.ok (),addTopics p ((inTopics.sort (· ≤ ·)).map (fun topic => (index,topic)))) := by
  by_cases empty : inTopics = ∅
  · subst empty
    rw [jInTopics,if_pos rfl,Finset.sort_empty]
    rfl
  · rw [jInTopics,if_neg empty,readIndex,strings,run_strings (run_readTopic documented index),addTopics,List.foldl_map]

omit documented in
private theorem modify_last (base : List (Finset Bytes)) (last : Finset Bytes) (change : Finset Bytes → Finset Bytes) :
    (base ++ [last]).modify base.length change = base ++ [change last] := by
  induction base with
  | nil => rfl
  | cons first base ih => simp [ih]
omit documented in
/-- More topics of the last index. -/
theorem addTopics_last (p : EventSubParams) (base : List (Finset Bytes)) (last : Finset Bytes) (texts : List Bytes) :
    addTopics { p with topics := base ++ [last] } (texts.map (fun topic => (base.length,topic))) =
      { p with topics := base ++ [last ∪ texts.toFinset] } := by
  induction texts generalizing last with
  | nil => simp [addTopics]
  | cons text texts ih =>
    have kept : resize (base ++ [last]) (base.length + 1) = base ++ [last] := by simp [resize]
    have here : (addTopic { p with topics := base ++ [last] } base.length text).1 = { p with topics := base ++ [insert text last] } := by
      simp only [addTopic,kept,modify_last]
    have next := ih (insert text last)
    rw [addTopics] at next
    rw [List.map_cons,addTopics,List.foldl_cons,here,next,List.toFinset_cons,Finset.insert_union,Finset.union_insert]
omit documented in
/-- The topics of an index that is not yet reached. -/
theorem addTopics_index {p : EventSubParams} {index : Nat} (short : p.topics.length ≤ index) {texts : List Bytes}
    (some_text : texts ≠ []) : addTopics p (texts.map (fun topic => (index,topic))) =
      { p with topics := p.topics ++ List.replicate (index - p.topics.length) ∅ ++ [texts.toFinset] } := by
  obtain ⟨text,texts,rfl⟩ := List.exists_cons_of_ne_nil some_text
  obtain ⟨base,based⟩ : ∃ base, base = p.topics ++ List.replicate (index - p.topics.length) ∅ := ⟨_,rfl⟩
  have reached : base.length = index := by
    rw [based,List.length_append,List.length_replicate]
    omega
  have grown : resize p.topics (index + 1) = base ++ [∅] := by
    rw [resize,List.take_of_length_le (by omega),Nat.succ_sub short,List.replicate_succ',based,List.append_assoc]
  have first : (addTopic p index text).1 = { p with topics := base ++ [{text}] } := by
    simp only [addTopic,grown]
    rw [← reached,modify_last,insert_empty_eq]
  have rest := addTopics_last p base {text} texts
  rw [reached] at rest
  rw [← based,List.map_cons,addTopics,List.foldl_cons,first]
  rw [addTopics] at rest
  rw [rest,List.toFinset_cons,Finset.insert_eq]

/-- The topics are read up to the last index that has any. -/
theorem run_readTopics (rest before : List (Finset Bytes)) (p : EventSubParams) (empty : Nat)
    (sofar : before = p.topics ++ List.replicate empty ∅) :
    ∃ topics empty, (readTopics R before.length (rest.map jInTopics)).run p = (.ok (),{ p with topics := topics }) ∧
      before ++ rest = topics ++ List.replicate empty ∅ := by
  induction rest generalizing before p empty with
  | nil => exact ⟨p.topics,empty,rfl,by rw [List.append_nil,sofar]⟩
  | cons inTopics rest ih =>
    have size : (before ++ [inTopics]).length = before.length + 1 := by simp
    have step := run_readIndex documented before.length inTopics p
    rw [List.map_cons,readTopics,run_bind step,← size]
    by_cases none_here : inTopics = ∅
    · subst none_here
      rw [Finset.sort_empty]
      obtain ⟨topics,left,ran,split⟩ := ih (before ++ [∅]) p (empty + 1)
        (by rw [sofar,List.append_assoc,List.replicate_succ'])
      exact ⟨topics,left,ran,by rw [← split,List.append_assoc]; rfl⟩
    · have some_text : inTopics.sort (· ≤ ·) ≠ [] := by
        intro nothing
        apply none_here
        rw [← Finset.sort_toFinset inTopics (· ≤ ·),nothing,List.toFinset_nil]
      have short : p.topics.length ≤ before.length := by rw [sofar,List.length_append]; omega
      have gap : before.length - p.topics.length = empty := by rw [sofar,List.length_append,List.length_replicate]; omega
      rw [addTopics_index short some_text,Finset.sort_toFinset,gap,← sofar]
      obtain ⟨topics,left,ran,split⟩ := ih (before ++ [inTopics]) { p with topics := before ++ [inTopics] } 0 (by simp)
      exact ⟨topics,left,ran,by rw [← split,List.append_assoc]; rfl⟩

omit documented in
private theorem foldl_addAddress (p : EventSubParams) (texts : List Bytes) :
    texts.foldl addAddress p = { p with addresses := p.addresses ∪ texts.toFinset } := by
  induction texts generalizing p with
  | nil => simp
  | cons text texts ih => rw [List.foldl_cons,ih,addAddress,List.toFinset_cons,Finset.insert_union,Finset.union_insert]

/-- What the readers make of the parameters that are written. -/
theorem run_readParams {p : EventSubParams} {fromBlock : Int64} {read : Json} (filled : Filled p)
    (same : Same (writeParams p fromBlock) read) :
    (readParams R read).run fresh = (.ok (),{ p with fromBlock := fromBlock }) := by
  obtain ⟨first,last,firstNumber,lastNumber,rfl⟩ := same_writeParams same
  obtain ⟨topics,left,ran,split⟩ := run_readTopics documented p.topics [] ⟨fromBlock,p.toBlock,p.addresses,[]⟩ 0 rfl
  have firstRead := documented.int64_reads first fromBlock firstNumber
  have lastRead := documented.int64_reads last p.toBlock lastNumber
  have addresses := run_strings (run_readAddress documented) (p.addresses.sort (· ≤ ·)) ⟨fromBlock,p.toBlock,∅,[]⟩
  rw [foldl_addAddress,Finset.sort_toFinset,Finset.empty_union] at addresses
  rw [List.nil_append] at split
  rw [empty_of_filled filled split] at ran
  rw [readParams,run_bind (run_readMember rfl _ fresh |>.trans (run_bind (run_lift firstRead) |>.trans (run_modify _ _)))]
  rw [run_bind (run_readMember rfl _ _ |>.trans (run_bind (run_lift lastRead) |>.trans (run_modify _ _)))]
  rw [run_bind (run_readMember rfl _ _ |>.trans (run_bind (run_lift rfl) |>.trans addresses))]
  rw [run_readMember rfl]
  exact (run_bind (run_lift rfl)).trans ran

omit documented in
/-- The block that a request starts from. -/
theorem requestFrom_toInt {p : EventSubParams} {block : Int64} (below : block < Int64.maxValue) :
    (if 0 < block then block + 1 else p.fromBlock).toInt = if 0 < block.toInt then block.toInt + 1 else p.fromBlock.toInt := by
  rw [Int64.lt_iff_toInt_lt,Int64.toInt_maxValue] at below
  simp only [Int64.lt_iff_toInt_lt,Int64.toInt_zero]
  split
  · rw [Int64.toInt_add,Int64.toInt_one,Int.bmod_eq_of_le] <;> omega
  · rfl

/-- `fromJsonString` after `toJsonString`. -/
theorem fromJsonString_toJsonString {p : EventSubParams} (filled : Filled p) (inverts : Inverts R (toJson p)) :
    fromJsonString R fresh (toJsonString R.toJsoncpp p) = (.ok true,p) := by
  obtain ⟨read,parsed,same⟩ := inverts
  have ran := run_readParams documented filled same
  simp only [fromJsonString,toJsonString,parsed,fromJson,ran]

/-- `fromJson` after `generateJson`. -/
theorem fromJson_generateJson {q : EventSubSubRequest} (filled : Filled q.params) (inverts : Inverts R (requestJson q))
    (r : EventSubSubRequest) : r.fromJson R (generateJson R.toJsoncpp q) =
      (.ok true,{ r with
        id := q.id
        group := q.group
        params := { q.params with fromBlock := if 0 < q.currentBlockNumber then q.currentBlockNumber + 1 else q.params.fromBlock } }) := by
  obtain ⟨read,parsed,same⟩ := inverts
  rw [requestJson] at same
  cases same with
  | number number => cases number
  | object pairs =>
    rcases pairs with _ | ⟨⟨_,group⟩,_ | ⟨⟨_,id⟩,_ | ⟨⟨_,written⟩,_ | _⟩⟩⟩
    rw [fixed_string _ _ group,fixed_string _ _ id] at parsed
    have ran := run_readParams documented filled written
    simp only [EventSubSubRequest.fromJson,generateJson,parsed,readRequest]
    rw [field_member _ _ rfl,(documented.string_reads q.id).2,ok_bind]
    rw [field_member _ _ rfl,(documented.string_reads q.group).2,ok_bind]
    rw [field_member _ _ rfl,ran]

/-- The parameters of a subscription survive their JSON: those that the calls of the user
    build are read from a text of their own, and from that of a request with the number after
    the current block where there is one. The request holds what `toJson` writes for these. -/
theorem params_survive {p : EventSubParams} (reachable : params.Reachable Indexed p) :
    (Inverts R (toJson p) → fromJsonString R fresh (toJsonString R.toJsoncpp p) = (.ok true,p)) ∧
    ∀ q r : EventSubSubRequest, q.params = p → q.currentBlockNumber < Int64.maxValue →
      ∃ fromBlock : Int64,
        fromBlock.toInt = (if 0 < q.currentBlockNumber.toInt then q.currentBlockNumber.toInt + 1 else p.fromBlock.toInt) ∧
        (requestJson q).member (lit "params") = some (toJson { p with fromBlock := fromBlock }) ∧
        (Inverts R (requestJson q) → r.fromJson R (generateJson R.toJsoncpp q) =
          (.ok true,{ r with id := q.id,group := q.group,params := { p with fromBlock := fromBlock } })) := by
  have filled := filled_of_reachable reachable
  refine ⟨fromJsonString_toJsonString documented filled,?_⟩
  rintro q r rfl below
  exact ⟨_,requestFrom_toInt below,rfl,fun inverts => fromJson_generateJson documented filled inverts r⟩

end

/-- The request of a task holds the parameters that `SubscribeRequests` has in it. -/
theorem member_requestJson (id group : Bytes) (p : EventSubParams) (task : EventSub.Task) (own : task.fromBlock = p.fromBlock) :
    (requestJson ⟨id,group,p,task.currentBlockNumber⟩).member (lit "params") =
      some (toJson (SubscribeRequests.generateJson p task)) := by
  simp only [SubscribeRequests.generateJson,EventSub.Task.requestFrom,own]
  rfl

/-- Jsoncpp that reads one text. -/
def Reader.reference (read : Json) : Reader where
  toJsoncpp := Jsoncpp.reference (fun _ => some read)
  asInt64 json :=
    match json.number with
    | some i => if Int64.minValue.toInt ≤ i ∧ i ≤ Int64.maxValue.toInt then .ok (Int64.ofInt i) else throws (lit "out of range")
    | none => throws (lit "Value is not convertible to Int64.")

theorem reader_documented (read : Json) : (Reader.reference read).Documented where
  toDocumented := jsoncpp_documented _
  int64_reads json i number := by
    have inside : Int64.minValue.toInt ≤ i.toInt ∧ i.toInt ≤ Int64.maxValue.toInt := ⟨Int64.minValue_le_toInt i,Int64.toInt_le i⟩
    simp only [Reader.reference,number]
    rw [if_pos inside,Int64.ofInt_toInt]

/-- Parameters with a topic of index 2 alone. -/
def sparse : EventSubParams := ⟨5,-1,{[98]},[∅,∅,{[97]}]⟩

theorem params_survive_sparse :
    fromJsonString (Reader.reference (toJson sparse)) fresh (toJsonString (Reader.reference (toJson sparse)).toJsoncpp sparse) =
      (.ok true,sparse) ∧
    ∃ fromBlock : Int64, fromBlock.toInt = 8 ∧
      EventSubSubRequest.fromJson (Reader.reference (requestJson ⟨[1],[2],sparse,7⟩)) ⟨[],[],fresh,0⟩
        (generateJson (Reader.reference (requestJson ⟨[1],[2],sparse,7⟩)).toJsoncpp ⟨[1],[2],sparse,7⟩) =
          (.ok true,⟨[1],[2],{ sparse with fromBlock := fromBlock },0⟩) := by
  have reachable : params.Reachable Indexed sparse := by
    refine ⟨[.addTopic 2 [97],.setFromBlock 5,.addAddress [98]],?_,rfl⟩
    exact obeys_of_step (by simp [Indexed]) rfl (obeys_of_step trivial rfl (obeys_of_step trivial rfl trivial))
  refine ⟨(params_survive (reader_documented _) reachable).1 ⟨_,rfl,same_refl _⟩,?_⟩
  obtain ⟨fromBlock,value,_,read⟩ := (params_survive (reader_documented (requestJson ⟨[1],[2],sparse,7⟩)) reachable).2
    ⟨[1],[2],sparse,7⟩ ⟨[],[],fresh,0⟩ rfl (by decide)
  exact ⟨fromBlock,by rw [value]; rfl,read ⟨_,rfl,same_refl _⟩⟩

end CppSdk.EventParams

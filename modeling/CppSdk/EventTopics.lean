import CppSdk.AbiCodec

/-!
Events by topic. The topic of an event is the whole hash of its signature; the look-up
compares the first eight digits with the string it is given.
-/
namespace CppSdk.EventTopics
open CppSdk.ByteString CppSdk.Runtime CppSdk.Tables CppSdk.JsonValues CppSdk.MethodDefinition CppSdk.AbiDefinition
open CppSdk.AbiCodec

/-- The topic of an event: the 64 digits of the hash of its signature. -/
def topicOf (H : Hash) (event : ContractABIMethodDefinition) : Bytes := toHex (event.signatureHash H)

section
variable (C : ContractABICodec) (abi : Bytes)

/-- The event that `decodeEventByTopic` decodes with. -/
def eventByTopic (eventTopic : Bytes) : Call ContractABIMethodDefinition := do
  getEventByTopic C.methodOrder C.H (← buildABI C.J abi) eventTopic

/-- A topic of an event finds an event of that topic, which decodes the data; any other
    string is refused. -/
def FoundByTopic (events : List ContractABIMethodDefinition) (topic : Bytes) : Prop :=
  if ∃ event ∈ events, topicOf C.H event = topic then
    ∃ event ∈ events, topicOf C.H event = topic ∧ eventByTopic C abi topic = .ok event ∧
      ∀ data, decodeEventByTopic C abi topic data = decodeDefinition C event data
  else ∃ what, eventByTopic C abi topic = throws what ∧ ∀ data, decodeEventByTopic C abi topic data = throws what

end

private theorem topicOf_length (H : Hash) (event : ContractABIMethodDefinition) : (topicOf H event).length = 64 := by
  rw [topicOf,toHex_length,ContractABIMethodDefinition.signatureHash,H.size]
private theorem methodID_eq (H : Hash) (event : ContractABIMethodDefinition) :
    event.getMethodIDAsString H = (topicOf H event).take 8 := rfl
private theorem methodID_length (H : Hash) (event : ContractABIMethodDefinition) : (event.getMethodIDAsString H).length = 8 := by
  rw [methodID_eq,List.length_take,topicOf_length]
  rfl

private theorem decodeEventByTopic_eq (C : ContractABICodec) (abi topic data : Bytes) :
    decodeEventByTopic C abi topic data = (eventByTopic C abi topic >>= fun event => decodeDefinition C event data) := by
  rw [decodeEventByTopic,eventByTopic]
  cases buildABI C.J abi <;> rfl

/-- The ABI, as the definitions of its methods and events. -/
structure ParsedABI (J : Jsoncpp) (abi : Bytes) (methods : List ContractABIMethodDefinition) : Prop where
  parsed : ∃ jAbi elements, J.parse abi = some jAbi ∧ jAbi.items = .ok elements ∧ buildMethods J elements = .ok methods

private theorem buildABI_parsed {J : Jsoncpp} {abi : Bytes} {methods : List ContractABIMethodDefinition}
    (whole : ParsedABI J abi methods) : buildABI J abi = .ok (methods.foldl addDefinition {}) := by
  obtain ⟨jAbi,elements,parsed,listed,built⟩ := whole.parsed
  simp only [buildABI,parsed,buildABIJson,listed,built,ok_bind]

section
variable {C : ContractABICodec} {abi : Bytes} {methods : List ContractABIMethodDefinition}

/-- The events among the methods. -/
def eventsOf (methods : List ContractABIMethodDefinition) : List ContractABIMethodDefinition :=
  methods.filter (fun method => method.type = lit "event")

/-- What the look-up does with a string. -/
theorem eventByTopic_cases (whole : ParsedABI C.J abi methods) (topic : Bytes) :
    (∃ event ∈ eventsOf methods, event.getMethodIDAsString C.H = topic ∧ eventByTopic C abi topic = .ok event) ∨
      ((∀ event ∈ eventsOf methods, event.getMethodIDAsString C.H ≠ topic) ∧
        ∃ what, eventByTopic C abi topic = throws what) := by
  have held : ∀ event, event ∈ definitions (methods.foldl addDefinition {}).events ↔ event ∈ eventsOf methods := by
    intro event
    have empty : event ∉ definitions (∅ : Table Bytes (List ContractABIMethodDefinition)) :=
      fun member => (nomatch member)
    rw [eventsOf,List.mem_filter,decide_eq_true_iff]
    exact mem_events.trans (or_iff_right empty)
  have called : eventByTopic C abi topic = getEventByTopic C.methodOrder C.H (methods.foldl addDefinition {}) topic := by
    rw [eventByTopic,buildABI_parsed whole,ok_bind]
  rcases findByID_cases C.methodOrder C.H (methods.foldl addDefinition {}).events topic
    (lit "event topic not exist in the contract abi, topic: ") with ⟨event,member,named,found⟩ | ⟨none,refused⟩
  · exact .inl ⟨event,(held event).mp member,named,called.trans found⟩
  · exact .inr ⟨fun event member => none event ((held event).mpr member),_,called.trans refused⟩

/-- A string is treated as a topic exactly when it is neither the topic of an event nor the
    first eight digits of one. -/
theorem getEventByTopic_iff (whole : ParsedABI C.J abi methods) (topic : Bytes) :
    FoundByTopic C abi (eventsOf methods) topic ↔
      ∀ event ∈ eventsOf methods, topicOf C.H event ≠ topic ∧ (topicOf C.H event).take 8 ≠ topic := by
  have cases := eventByTopic_cases whole topic
  constructor
  · intro found event member
    unfold FoundByTopic at found
    split at found
    · -- a topic has 64 digits, and what the look-up compares with has eight
      rename_i isTopic
      obtain ⟨other,_,isTopic⟩ := isTopic
      obtain ⟨event',_,_,called,_⟩ := found
      rcases cases with ⟨event'',_,named,_⟩ | ⟨_,what,refused⟩
      · have size := methodID_length C.H event''
        rw [named,← isTopic,topicOf_length] at size
        cases size
      · cases called.symm.trans refused
    · rename_i noTopic
      refine ⟨fun same => noTopic ⟨event,member,same⟩,fun same => ?_⟩
      obtain ⟨what,refused,_⟩ := found
      rcases cases with ⟨event',_,_,called⟩ | ⟨none,_⟩
      · cases called.symm.trans refused
      · exact none event member same
  · intro other
    have noTopic : ¬ ∃ event ∈ eventsOf methods, topicOf C.H event = topic :=
      fun ⟨event,member,same⟩ => (other event member).1 same
    rw [FoundByTopic,if_neg noTopic]
    rcases cases with ⟨event,member,named,_⟩ | ⟨_,what,refused⟩
    · exact absurd named (other event member).2
    · refine ⟨what,refused,fun data => ?_⟩
      rw [decodeEventByTopic_eq,refused]
      rfl

end

/-! ### An event -/

/-- A codec of the reference libraries, with a hash of zeros. -/
def zeroCodec (parse : Bytes → Option Json) : ContractABICodec where
  J := Jsoncpp.reference parse
  M := Multiprecision.reference
  U := Utilities.reference
  base64DecodeBytes := fun _ => throws (lit "invalid base64 string")
  H := ⟨fun _ => List.replicate 32 0,fun _ => List.length_replicate⟩
  ndebug := true
  indeterminate := false
  methodOrder := ⟨fun m => m.entries.map (fun e => (e.1,e.2)),fun _ => .refl _⟩
  memberOrder := ⟨fun m => m.entries.map (fun e => (e.1,e.2)),fun _ => .refl _⟩

/-- An ABI of one event. -/
def transferABI : Json :=
  .array [.object [(lit "name",.string (lit "Transfer")),(lit "type",.string (lit "event")),(lit "inputs",.array [])]]
/-- Its text. -/
def transferText : Bytes := writeValue transferABI
/-- The reference codec, with a parser of that text. -/
def transferCodec : ContractABICodec := zeroCodec (fun text => if text = transferText then some transferABI else none)
/-- Its event. -/
def transferEvent : ContractABIMethodDefinition := { name := lit "Transfer",type := lit "event",inputs := [] }

private theorem parse_transfer : transferCodec.J.parse transferText = some transferABI := by
  show (if transferText = transferText then some transferABI else none) = some transferABI
  exact if_pos rfl
private theorem transfer_parsed : ParsedABI transferCodec.J transferText [transferEvent] where
  parsed := ⟨transferABI,_,parse_transfer,rfl,rfl⟩

/-- The topic of the event is refused. -/
theorem transfer_refused : ¬ FoundByTopic transferCodec transferText [transferEvent]
    (List.replicate 64 48) := by
  have isTopic : ∃ event ∈ [transferEvent],
      topicOf transferCodec.H event = List.replicate 64 48 :=
    ⟨transferEvent,List.mem_cons_self,by decide +kernel⟩
  rw [FoundByTopic,if_pos isTopic]
  rintro ⟨event,_,_,called,_⟩
  rcases eventByTopic_cases transfer_parsed (List.replicate 64 48) with ⟨event',_,named,_⟩ | ⟨_,what,refused⟩
  · have size := methodID_length transferCodec.H event'
    rw [named] at size
    cases size
  · cases called.symm.trans refused
/-- A string that names no event is treated as one. -/
theorem getEventByTopic_none : FoundByTopic transferCodec transferText (eventsOf [transferEvent])
    (lit "Transfer") := by
  refine (getEventByTopic_iff transfer_parsed (lit "Transfer")).mpr ?_
  intro event member
  have same : event = transferEvent := by simpa [eventsOf] using (List.mem_filter.mp member).1
  subst same
  exact ⟨by decide +kernel,by decide +kernel⟩

end CppSdk.EventTopics

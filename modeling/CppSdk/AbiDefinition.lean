import CppSdk.MethodDefinition
import CppSdk.Tables

/-!
The definition of a contract: its methods and its events by name, with their overloads.
-/
namespace CppSdk.AbiDefinition
open CppSdk.ByteString CppSdk.Runtime CppSdk.JsonValues CppSdk.MethodDefinition CppSdk.Tables

/-! ### The tables -/

/-- `ContractABIDefinition`. -/
structure ContractABIDefinition where
  methods : Table Bytes (List ContractABIMethodDefinition) := ∅
  events : Table Bytes (List ContractABIMethodDefinition) := ∅

/-- `m[name].push_back(method)`. -/
def pushBack (name : Bytes) (method : ContractABIMethodDefinition) (m : Table Bytes (List ContractABIMethodDefinition)) :
    Table Bytes (List ContractABIMethodDefinition) := m.insert name ((m.lookup name).getD [] ++ [method])
/-- `addMethod`. -/
def addMethod (name : Bytes) (method : ContractABIMethodDefinition) (abi : ContractABIDefinition) : ContractABIDefinition :=
  { abi with methods := pushBack name method abi.methods }
/-- `addEvent`. -/
def addEvent (event : ContractABIMethodDefinition) (abi : ContractABIDefinition) : ContractABIDefinition :=
  { abi with events := pushBack event.name event abi.events }

/-- Where `buildABI` puts a method. One of an unrecognized type is passed over. -/
def addDefinition (abi : ContractABIDefinition) (method : ContractABIMethodDefinition) : ContractABIDefinition :=
  if method.type = lit "constructor" then addMethod (lit "constructor") method abi
  else if method.type = lit "fallback" then addMethod (lit "fallback") method abi
  else if method.type = lit "receive" then addMethod (lit "receive") method abi
  else if method.type = lit "function" then addMethod method.name method abi
  else if method.type = lit "event" then addEvent method abi
  else abi

section
variable (J : Jsoncpp)

/-- The loop of `buildABI` over the methods. -/
def buildMethods : List Json → Call (List ContractABIMethodDefinition)
  | [] => .ok []
  | jMethod :: rest => do .ok ((← buildMethod J jMethod) :: (← buildMethods rest))
/-- `buildABI` of a JSON value. -/
def buildABIJson (jAbi : Json) : Call ContractABIDefinition := do
  let methods ← buildMethods J (← jAbi.items)
  .ok (methods.foldl addDefinition {})
/-- `buildABI`. -/
def buildABI (abi : Bytes) : Call ContractABIDefinition :=
  match J.parse abi with
  | some jAbi => buildABIJson J jAbi
  | none => throws (lit "invalid JSON string")

end

/-! ### Look-ups -/

/-- `getMethod`. -/
def getMethod (abi : ContractABIDefinition) (methodName : Bytes) (allowOverload : Bool) :
    Call (List ContractABIMethodDefinition) :=
  match abi.methods.lookup methodName with
  | none => throws (lit "method not exist in the contract abi, method: " ++ methodName)
  | some methods =>
    if !allowOverload && methods.length != 1 then
      throws (methodName ++ lit " is an overloaded method, please use \"getMethodByMethodID\" instead")
    else .ok methods
/-- `getEvent`. -/
def getEvent (abi : ContractABIDefinition) (eventName : Bytes) (allowOverload : Bool) :
    Call (List ContractABIMethodDefinition) :=
  match abi.events.lookup eventName with
  | none => throws (lit "event not exist in the contract abi, event: " ++ eventName)
  | some events =>
    if !allowOverload && events.length != 1 then
      throws (eventName ++ lit " is an overloaded event, please use \"getEventByTopic\" instead")
    else .ok events

/-- The loops over all overloads, up to the first one with the identifier. -/
def findByID (iteration : Iteration Bytes (List ContractABIMethodDefinition)) (H : Hash)
    (m : Table Bytes (List ContractABIMethodDefinition)) (id error : Bytes) : Call ContractABIMethodDefinition :=
  match ((iteration.order m).flatMap Prod.snd).find? (fun method => method.getMethodIDAsString H == id) with
  | some method => .ok method
  | none => throws (error ++ id)
/-- `getMethodByMethodID`. -/
def getMethodByMethodID (iteration : Iteration Bytes (List ContractABIMethodDefinition)) (H : Hash)
    (abi : ContractABIDefinition) (methodID : Bytes) : Call ContractABIMethodDefinition :=
  findByID iteration H abi.methods methodID (lit "methodID not exist in the contract abi, methodID: ")
/-- `getEventByTopic`. -/
def getEventByTopic (iteration : Iteration Bytes (List ContractABIMethodDefinition)) (H : Hash)
    (abi : ContractABIDefinition) (eventTopic : Bytes) : Call ContractABIMethodDefinition :=
  findByID iteration H abi.events eventTopic (lit "event topic not exist in the contract abi, topic: ")

/-! ### What the tables hold -/

/-- All methods of a table. -/
def definitions (m : Table Bytes (List ContractABIMethodDefinition)) : List ContractABIMethodDefinition := (values m).flatten

private theorem mem_definitions {m : Table Bytes (List ContractABIMethodDefinition)} {method : ContractABIMethodDefinition} :
    method ∈ definitions m ↔ ∃ name, method ∈ (m.lookup name).getD [] := by
  rw [definitions,List.mem_flatten]
  constructor
  · rintro ⟨methods,listed,member⟩
    obtain ⟨name,found⟩ := mem_values.mp listed
    exact ⟨name,by rwa [found]⟩
  · rintro ⟨name,member⟩
    cases found : m.lookup name with
    | none => simp [found] at member
    | some methods => exact ⟨methods,mem_values.mpr ⟨name,found⟩,by simpa [found] using member⟩
private theorem mem_pushBack {name : Bytes} {method other : ContractABIMethodDefinition}
    {m : Table Bytes (List ContractABIMethodDefinition)} :
    other ∈ definitions (pushBack name method m) ↔ other ∈ definitions m ∨ other = method := by
  have at_name : ∀ name', other ∈ ((pushBack name method m).lookup name').getD [] ↔
      other ∈ (m.lookup name').getD [] ∨ (name' = name ∧ other = method) := by
    intro name'
    rw [pushBack,lookup_insert_if]
    by_cases same : name' = name
    · subst same
      simp
    · simp [same]
  simp only [mem_definitions,at_name,exists_or,exists_eq_left]

/-- The events of a definition are the methods that are events. -/
theorem mem_events {methods : List ContractABIMethodDefinition} {abi : ContractABIDefinition}
    {event : ContractABIMethodDefinition} : event ∈ definitions (methods.foldl addDefinition abi).events ↔
      event ∈ definitions abi.events ∨ (event ∈ methods ∧ event.type = lit "event") := by
  have step : ∀ (abi : ContractABIDefinition) (method : ContractABIMethodDefinition),
      event ∈ definitions (addDefinition abi method).events ↔
        event ∈ definitions abi.events ∨ (event = method ∧ method.type = lit "event") := by
    intro abi method
    unfold addDefinition
    split_ifs with constructor fallback receive function isEvent
    · simp [addMethod,constructor,(by decide : lit "constructor" ≠ lit "event")]
    · simp [addMethod,fallback,(by decide : lit "fallback" ≠ lit "event")]
    · simp [addMethod,receive,(by decide : lit "receive" ≠ lit "event")]
    · simp [addMethod,function,(by decide : lit "function" ≠ lit "event")]
    · simp [addEvent,isEvent,mem_pushBack]
    · simp [isEvent]
  induction methods generalizing abi with
  | nil => simp
  | cons method methods ih =>
    refine (ih.trans (or_congr_left (step abi method))).trans ?_
    simp only [List.mem_cons]
    constructor
    · rintro ((old | ⟨rfl,isEvent⟩) | ⟨later,isEvent⟩)
      · exact .inl old
      · exact .inr ⟨.inl rfl,isEvent⟩
      · exact .inr ⟨.inr later,isEvent⟩
    · rintro (old | ⟨rfl | later,isEvent⟩)
      · exact .inl (.inl old)
      · exact .inl (.inr ⟨rfl,isEvent⟩)
      · exact .inr ⟨later,isEvent⟩

section
variable (iteration : Iteration Bytes (List ContractABIMethodDefinition)) (H : Hash)

private theorem mem_iteration {m : Table Bytes (List ContractABIMethodDefinition)} {method : ContractABIMethodDefinition} :
    method ∈ (iteration.order m).flatMap Prod.snd ↔ method ∈ definitions m := by
  rw [List.mem_flatMap,definitions,List.mem_flatten]
  constructor
  · rintro ⟨⟨name,methods⟩,listed,member⟩
    exact ⟨methods,mem_values.mpr ⟨name,(mem_order iteration).mp listed⟩,member⟩
  · rintro ⟨methods,listed,member⟩
    obtain ⟨name,found⟩ := mem_values.mp listed
    exact ⟨(name,methods),(mem_order iteration).mpr found,member⟩

/-- The loop ends at a method with the identifier, or there is none. -/
theorem findByID_cases (m : Table Bytes (List ContractABIMethodDefinition)) (id error : Bytes) :
    (∃ method ∈ definitions m, method.getMethodIDAsString H = id ∧ findByID iteration H m id error = .ok method) ∨
      ((∀ method ∈ definitions m, method.getMethodIDAsString H ≠ id) ∧
        findByID iteration H m id error = throws (error ++ id)) := by
  unfold findByID
  cases found : ((iteration.order m).flatMap Prod.snd).find? (fun method => method.getMethodIDAsString H == id) with
  | some method =>
    have member := (mem_iteration iteration).mp (List.mem_of_find?_eq_some found)
    have named := List.find?_some found
    simp only [beq_iff_eq] at named
    exact .inl ⟨method,member,named,rfl⟩
  | none =>
    refine .inr ⟨fun method member same => ?_,rfl⟩
    have other := List.find?_eq_none.mp found method ((mem_iteration iteration).mpr member)
    exact other (beq_iff_eq.mpr same)

end

end CppSdk.AbiDefinition

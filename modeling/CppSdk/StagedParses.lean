import CppSdk.BlockNotifier

/-!
What a parse over an object leaves of it. Three of the parsers read into locals and assign at
the end: whatever the text, the object is as it was or holds what the text says.
-/
namespace CppSdk.StagedParses
open CppSdk.ByteString CppSdk.Runtime CppSdk.JsonValues CppSdk.EventParams
open CppSdk.SubscribeRequests (EventSubParams)
open CppSdk.BlockNumbers (BlockNumberInfo)

/-- A parse of a text over an object leaves no trace: it fails and the object is as it was, or
    it succeeds and the object holds what the text says. -/
def Traceless {σ : Type} (same : σ → σ → Prop) (holds : σ → Prop) (before : σ) (parsed : Call Bool × σ) : Prop :=
  (parsed.1 = .ok true ∧ holds parsed.2) ∨ (parsed.1 = .ok false ∧ same parsed.2 before)

/-! ### Exceptions -/

/-- The failure is an exception. -/
def Thrown (failure : Failure) : Prop := ∃ what, failure = .throws what
/-- The call fails by exceptions only. -/
def Raises {α : Type} (call : Call α) : Prop := ∀ failure, call = .error failure → Thrown failure

/-- The functions of Jsoncpp fail by exceptions. -/
structure ThrowsOnly (R : Reader) : Prop where
  asInt64 : ∀ json, Raises (R.asInt64 json)
  asInt : ∀ json, Raises (R.asInt json)
  asString : ∀ json, Raises (R.asString json)

theorem raises_ok {α : Type} (a : α) : Raises (.ok a : Call α) := nofun
theorem raises_throws {α : Type} (what : Bytes) : Raises (throws what : Call α) :=
  fun _ failed => ⟨what,(Except.error.inj failed).symm⟩
theorem raises_bind {α β : Type} {call : Call α} {next : α → Call β} (first : Raises call)
    (later : ∀ a, call = .ok a → Raises (next a)) : Raises (call >>= next) := by
  cases called : call with
  | ok a => exact later a called
  | error failure =>
    rw [called] at first
    exact fun _ same => first _ (congrArg Except.error (Except.error.inj same))
theorem raises_isMember (json : Json) (key : Bytes) : Raises (json.isMember key) := by
  cases json with
  | object | null => exact raises_ok _
  | _ => exact raises_throws _
theorem raises_items (json : Json) : Raises json.items := by
  cases json with
  | object members =>
    cases members with
    | nil => exact raises_ok _
    | cons => exact raises_throws _
  | _ => exact raises_ok _
theorem raises_field {α : Type} (json : Json) (key : String) {read : Json → Call α} {missing : Call α}
    (each : ∀ value, Raises (read value)) (without : Raises missing) : Raises (json.field key read missing) := by
  refine raises_bind (raises_isMember json _) (fun found _ => ?_)
  cases found with
  | true => exact each _
  | false => exact without

/-- Where a member is required, it has been read. -/
theorem field_some {α : Type} {json : Json} {key : String} {read : Json → Call (Option α)} {a : α}
    (ends : json.field key read (.ok none) = .ok (some a)) :
    ∃ value, json.member (lit key) = some value ∧ read value = .ok (some a) := by
  cases json with
  | object members =>
    cases listed : members.lookup (lit key) with
    | none =>
      rw [field_absent _ _ listed] at ends
      cases ends
    | some value =>
      have found : (Json.object members).member (lit key) = some value := listed
      exact ⟨value,found,(field_member read _ found).symm.trans ends⟩
  | null => cases ends
  | _ => cases ends

/-! ### The parsers that assign at the end -/

/-- A parse that assigns what it has read where it has read all of it. -/
def staged {σ : Type} (read : Json → Call (Option σ)) (before : σ) : Option Json → Call Bool × σ
  | none => (.ok false,before)
  | some root =>
    match read root with
    | .ok (some after) => (.ok true,after)
    | .ok none | .error (.throws _) => (.ok false,before)
    | .error failure => (.error failure,before)

theorem traceless_staged {σ : Type} {read : Json → Call (Option σ)} {holds : Json → σ → Prop} (raises : ∀ root, Raises (read root))
    (reads : ∀ root after, read root = .ok (some after) → holds root after) (before : σ) (parsed : Option Json) :
    Traceless (· = ·) (fun after => ∃ root, parsed = some root ∧ holds root after) before (staged read before parsed) := by
  cases parsed with
  | none => exact .inr ⟨rfl,rfl⟩
  | some root =>
    rw [staged]
    cases ends : read root with
    | ok result =>
      cases result with
      | some after => exact .inl ⟨rfl,root,rfl,reads root after ends⟩
      | none => exact .inr ⟨rfl,rfl⟩
    | error failure =>
      obtain ⟨_,rfl⟩ := raises root failure ends
      exact .inr ⟨rfl,rfl⟩

/-- `EventSubResponse`. -/
structure EventSubResponse where
  id : Bytes
  status : Int32
  jResp : Json

section
variable (R : Reader)

/-- The `try` block of `EventSubResponse::fromJson`. -/
def readResponse (root : Json) : Call (Option EventSubResponse) :=
  root.field "id" (fun json => do
    let id ← R.asString json
    root.field "status" (fun json => do
      let status ← R.asInt json
      .ok (some ⟨id,status,root⟩)) (.ok none)) (.ok none)
/-- `EventSubResponse::fromJson`: whether it succeeds, and the response. -/
def EventSubResponse.fromJson (r : EventSubResponse) (text : Bytes) : Call Bool × EventSubResponse :=
  match R.parse text with
  | none => (.ok false,r)
  | some root =>
    match readResponse R root with
    | .ok (some after) => (.ok true,after)
    | .ok none | .error (.throws _) => (.ok false,r)
    | .error failure => (.error failure,r)

/-- A member of the value as a function reads it. -/
def Holds {α : Type} (read : Json → Call α) (root : Json) (key : String) (a : α) : Prop :=
  ∃ json, root.member (lit key) = some json ∧ read json = .ok a

/-- The notification that a value is. -/
structure HoldsInfo (root : Json) (info : BlockNumberInfo) : Prop where
  blockNumber : Holds R.asInt64 root "blockNumber" info.blockNumber
  group : Holds R.asString root "group" info.group
  nodeName : Holds R.asString root "nodeName" info.node
/-- The response that a value is. -/
structure HoldsResponse (root : Json) (r : EventSubResponse) : Prop where
  id : Holds R.asString root "id" r.id
  status : Holds R.asInt root "status" r.status
  jResp : r.jResp = root

end

section
variable {R : Reader}

private theorem holdsInfo_of_readInfo {root : Json} {info : BlockNumberInfo} (read : BlockNotifier.readInfo R root = .ok (some info)) :
    HoldsInfo R root info := by
  obtain ⟨_,number,read⟩ := field_some read
  obtain ⟨blockNumber,numberRead,read⟩ := bind_ok.mp read
  obtain ⟨_,group,read⟩ := field_some read
  obtain ⟨groupID,groupRead,read⟩ := bind_ok.mp read
  obtain ⟨_,node,read⟩ := field_some read
  obtain ⟨name,nodeRead,made⟩ := bind_ok.mp read
  cases made
  exact ⟨⟨_,number,numberRead⟩,⟨_,group,groupRead⟩,⟨_,node,nodeRead⟩⟩
private theorem raises_readInfo (throws : ThrowsOnly R) (root : Json) : Raises (BlockNotifier.readInfo R root) := by
  refine raises_field _ _ (fun number => raises_bind (throws.asInt64 number) (fun _ _ => ?_)) (raises_ok _)
  refine raises_field _ _ (fun group => raises_bind (throws.asString group) (fun _ _ => ?_)) (raises_ok _)
  exact raises_field _ _ (fun node => raises_bind (throws.asString node) (fun _ _ => raises_ok _)) (raises_ok _)
/-- `BlockNumberInfo::fromJson` leaves no trace. -/
theorem traceless_info (throws : ThrowsOnly R) (info : BlockNumberInfo) (text : Bytes) :
    Traceless (· = ·) (fun after => ∃ root, R.parse text = some root ∧ HoldsInfo R root after) info
      (BlockNotifier.fromJson R info text) := by
  have same : BlockNotifier.fromJson R info text = staged (BlockNotifier.readInfo R) info (R.parse text) := by
    rw [BlockNotifier.fromJson]
    cases R.parse text with
    | none => rfl
    | some root =>
      dsimp only [staged]
      rcases BlockNotifier.readInfo R root with ⟨_ | _ | _ | _⟩ | ⟨_ | _⟩ <;> rfl
  rw [same]
  exact traceless_staged (raises_readInfo throws) (fun _ _ read => holdsInfo_of_readInfo read) info (R.parse text)

private theorem holdsResponse_of_readResponse {root : Json} {r : EventSubResponse} (read : readResponse R root = .ok (some r)) :
    HoldsResponse R root r := by
  obtain ⟨_,id,read⟩ := field_some read
  obtain ⟨_,idRead,read⟩ := bind_ok.mp read
  obtain ⟨_,status,read⟩ := field_some read
  obtain ⟨_,statusRead,made⟩ := bind_ok.mp read
  cases made
  exact ⟨⟨_,id,idRead⟩,⟨_,status,statusRead⟩,rfl⟩
private theorem raises_readResponse (throws : ThrowsOnly R) (root : Json) : Raises (readResponse R root) := by
  refine raises_field _ _ (fun id => raises_bind (throws.asString id) (fun _ _ => ?_)) (raises_ok _)
  exact raises_field _ _ (fun status => raises_bind (throws.asInt status) (fun _ _ => raises_ok _)) (raises_ok _)
/-- `EventSubResponse::fromJson` leaves no trace. -/
theorem traceless_response (throws : ThrowsOnly R) (r : EventSubResponse) (text : Bytes) :
    Traceless (· = ·) (fun after => ∃ root, R.parse text = some root ∧ HoldsResponse R root after) r (r.fromJson R text) := by
  have same : r.fromJson R text = staged (readResponse R) r (R.parse text) := by
    rw [EventSubResponse.fromJson]
    cases R.parse text with
    | none => rfl
    | some root =>
      dsimp only [staged]
      rcases readResponse R root with ⟨_ | _ | _ | _⟩ | ⟨_ | _⟩ <;> rfl
  rw [same]
  exact traceless_staged (raises_readResponse throws) (fun _ _ read => holdsResponse_of_readResponse read) r (R.parse text)

end

end CppSdk.StagedParses

import CppSdk.AmopRequest
import CppSdk.AmopTopics

/-!
The senders and receivers of AMOP messages, and the callbacks of the topics. `publish` and
`broadcast` send a message that a receiver decodes exactly when `encode` takes the topic
(`publish_broadcast_iff`). `unsubscribe` does not touch the callbacks, so they follow the
subscriptions as long as no topic with a callback is unsubscribed (`follows_iff`).
-/
namespace CppSdk.AmopDispatch
open CppSdk.ByteString CppSdk.Tables CppSdk.Transition CppSdk.AmopRequest
open CppSdk.AmopTopics (addTopics removeTopic)

/-! ### The source -/

/-- The `amop::MessageType` of the messages that carry a request. -/
inductive MessageType where
  | amopRequest
  | amopBroadcast
  deriving DecidableEq

/-- A message of the websocket layer. -/
structure Message where
  packetType : MessageType
  seq : Bytes
  payload : Bytes
  deriving DecidableEq

/-- The members of `AMOP` that hold topics and callbacks. A `SubCallback` may be empty. -/
structure Amop where
  topics : Finset Bytes := ∅
  topic2Callback : Table Bytes (Option Nat) := ∅
  callback : Option Nat := none

/-- What a call of a sender does: the messages it hands to the service, and the errors it
    gives to the callback itself. -/
structure Effects where
  messages : List Message
  errors : List Bytes
  deriving DecidableEq

/-- The message of a sender. What `encode` returns is not looked at. -/
def buildMessage (packetType : MessageType) (seq topic data : Bytes) : Message :=
  let request : AMOPRequest := { topic := topic,data := data }
  ⟨packetType,seq,(encode request []).2⟩
/-- `AMOP::publish`. -/
def publish (seq topic data : Bytes) : Effects := ⟨[buildMessage .amopRequest seq topic data],[]⟩
/-- `AMOP::broadcast`. -/
def broadcast (seq topic data : Bytes) : Effects := ⟨[buildMessage .amopBroadcast seq topic data],[]⟩

/-- `AMOP::getCallbackByTopic`. -/
def getCallbackByTopic (a : Amop) (topic : Bytes) : Option Nat := (a.topic2Callback.lookup topic).join
/-- `AMOP::addTopicCallback`. -/
def addTopicCallback (a : Amop) (topic : Bytes) (callback : Option Nat) : Amop :=
  { a with topic2Callback := a.topic2Callback.insert topic callback }
/-- `AMOP::subscribe` of topics, as far as its own tables: what is sent to the sessions then is
    in `AmopTopics`. -/
def subscribe (a : Amop) (topics : Finset Bytes) : Amop := { a with topics := (addTopics a.topics topics).1 }
/-- `AMOP::subscribe` of a topic with a callback. -/
def subscribeWith (a : Amop) (topic : Bytes) (callback : Option Nat) : Amop :=
  addTopicCallback { a with topics := insert topic a.topics } topic callback
/-- `TopicManager::removeTopics`, as far as the topics that are left. -/
def removeTopics (topics : Finset Bytes) (removed : List Bytes) : Finset Bytes :=
  removed.foldl (fun topics topic => (removeTopic topics topic).1) topics
/-- `AMOP::unsubscribe`. -/
def unsubscribe (a : Amop) (topics : List Bytes) : Amop := { a with topics := removeTopics a.topics topics }
/-- `AMOP::setSubCallback`. -/
def setSubCallback (a : Amop) (callback : Option Nat) : Amop := { a with callback := callback }

/-- What a handler does with a message. -/
inductive Received where
  | undecoded
  | escaped (thrown : Thrown)
  | called (callback session : Nat) (seq data : Bytes)
  | unregistered (topic : Bytes)
  deriving DecidableEq

/-- The end of a handler: the callback is called, when there is one. -/
def deliver (callback : Option Nat) (session : Nat) (seq : Bytes) (request : AMOPRequest) : Received :=
  match callback with
  | some callback => .called callback session seq request.data
  | none => .unregistered request.topic
/-- The two handlers, which differ in their logs only. -/
def onRecv (C : Cropping) (a : Amop) (m : Message) (session : Nat) : Received :=
  match decode C {} m.payload with
  | (.error thrown,_) => .escaped thrown
  | (.ok ret,request) =>
    if ret < 0 then .undecoded
    else
      let callback := getCallbackByTopic a request.topic
      let callback := if callback.isNone && a.callback.isSome then a.callback else callback
      deliver callback session m.seq request
/-- `AMOP::onRecvAMOPRequest`. -/
def onRecvAMOPRequest (C : Cropping) (a : Amop) (m : Message) (session : Nat) : Received := onRecv C a m session
/-- `AMOP::onRecvAMOPBroadcast`. -/
def onRecvAMOPBroadcast (C : Cropping) (a : Amop) (m : Message) (session : Nat) : Received := onRecv C a m session
/-- The handler that `SdkFactory` registers for the type of the message. -/
def receive (C : Cropping) (a : Amop) (m : Message) (session : Nat) : Received :=
  match m.packetType with
  | .amopRequest => onRecvAMOPRequest C a m session
  | .amopBroadcast => onRecvAMOPBroadcast C a m session

/-! ### Receiving -/

variable {C : Cropping} {a : Amop}

/-- A frame goes to the callback of its topic or, where it has none, to the default. -/
theorem receive_of_frames {m : Message} {r : AMOPRequest} (frames : Frames r m.payload) (session : Nat) :
    receive C a m session = deliver ((getCallbackByTopic a r.topic).or a.callback) session m.seq r := by
  have decoded : decode C {} m.payload = (.ok m.payload.length,r) := by
    rw [decode_complete (complete_iff_frames.mpr ⟨r,frames⟩),fields_of_frames frames]
  have handled : receive C a m session = onRecv C a m session := by
    cases type : m.packetType <;> simp [receive,type,onRecvAMOPRequest,onRecvAMOPBroadcast]
  simp only [handled,onRecv,decoded]
  rw [if_neg (by omega)]
  cases own : getCallbackByTopic a r.topic with
  | some callback => simp
  | none => cases a.callback <;> simp

/-! ### Sending -/

/-- The message is decoded to the topic and the data, and goes to the callback of the topic. -/
structure Heard (C : Cropping) (a : Amop) (session : Nat) (topic data : Bytes) (m : Message) : Prop where
  decoded : ∃ r : AMOPRequest, decode C {} m.payload = (.ok m.payload.length,r) ∧ r.topic = topic ∧ r.data = data
  dispatched : receive C a m session =
    deliver ((getCallbackByTopic a topic).or a.callback) session m.seq { topic := topic,data := data }

/-- A call of a sender is all or nothing: it hands over one message, which is heard, or none,
    and then there is an error where the sender has a callback to report it. -/
def AllOrNothing (C : Cropping) (a : Amop) (session : Nat) (topic data : Bytes) (reports : Bool) (effects : Effects) :
    Prop :=
  (∃ m, effects.messages = [m] ∧ Heard C a session topic data m) ∨
    (effects.messages = [] ∧ (reports = true → effects.errors ≠ []))

private theorem heard_of_short {packetType : MessageType} {seq topic data : Bytes} (short : topic.length ≤ topicMaxLength)
    (session : Nat) : Heard C a session topic data (buildMessage packetType seq topic data) := by
  have written := encode_short (r := { topic := topic,data := data }) short []
  have frames : Frames { topic := topic,data := data } (buildMessage packetType seq topic data).payload :=
    ⟨short,by rw [buildMessage,written,List.nil_append]⟩
  refine ⟨⟨{ topic := topic,data := data },?_,rfl,rfl⟩,receive_of_frames frames session⟩
  rw [decode_complete (complete_iff_frames.mpr ⟨_,frames⟩),fields_of_frames frames]

/-- What `encode` refuses leaves the payload empty, and `decode` refuses the empty payload. -/
theorem unheard_of_long {packetType : MessageType} {seq topic data : Bytes} (long : topicMaxLength < topic.length)
    (session : Nat) : ¬ Heard C a session topic data (buildMessage packetType seq topic data) := by
  intro heard
  obtain ⟨r,decoded,_⟩ := heard.decoded
  have empty : (buildMessage packetType seq topic data).payload = [] := by
    rw [buildMessage,encode_long (r := { topic := topic,data := data }) long]
  rw [empty,decode_small (by decide)] at decoded
  simp at decoded

private theorem allOrNothing_iff {packetType : MessageType} {seq topic data : Bytes} {session : Nat} {reports : Bool} :
    AllOrNothing C a session topic data reports ⟨[buildMessage packetType seq topic data],[]⟩ ↔
      topic.length ≤ topicMaxLength := by
  constructor
  · rintro (⟨m,same,heard⟩ | ⟨nothing,_⟩)
    · by_contra long
      rw [List.cons.injEq] at same
      rw [← same.1] at heard
      exact unheard_of_long (Nat.not_le.mp long) session heard
    · cases nothing
  · exact fun short => .inl ⟨_,rfl,heard_of_short short session⟩

/-- `publish` and `broadcast` are all or nothing exactly for the topics that `encode` takes. -/
theorem publish_broadcast_iff (C : Cropping) (a : Amop) (session : Nat) (seq topic data : Bytes) :
    (AllOrNothing C a session topic data true (publish seq topic data) ↔ topic.length ≤ topicMaxLength) ∧
    (AllOrNothing C a session topic data false (broadcast seq topic data) ↔ topic.length ≤ topicMaxLength) :=
  ⟨allOrNothing_iff,allOrNothing_iff⟩

/-- A topic of 65536 bytes is published as an empty payload. -/
theorem publish_not_allOrNothing : ¬ ∀ (a : Amop) (session : Nat) (seq topic data : Bytes),
    AllOrNothing Cropping.reference a session topic data true (publish seq topic data) := by
  intro all
  have short := allOrNothing_iff.mp (all {} 0 [] (List.replicate 65536 97) [])
  rw [List.length_replicate] at short
  exact absurd short (by decide)

/-! ### Subscribing -/

/-- A call that changes the topics or the callbacks. -/
inductive Operation where
  | subscribe (topics : Finset Bytes)
  | subscribeWith (topic : Bytes) (callback : Option Nat)
  | unsubscribe (topics : List Bytes)
  | setSubCallback (callback : Option Nat)

/-- What the calls do to the client. -/
def perform (a : Amop) : Operation → Amop
  | .subscribe topics => subscribe a topics
  | .subscribeWith topic callback => subscribeWith a topic callback
  | .unsubscribe topics => unsubscribe a topics
  | .setSubCallback callback => setSubCallback a callback
/-- What the calls ask for: the callback of a subscription holds until its topic is
    unsubscribed. -/
def renew (given : Bytes → Option Nat) : Operation → Bytes → Option Nat
  | .subscribeWith topic callback => fun t => if t = topic then callback else given t
  | .unsubscribe topics => fun t => if t ∈ topics then none else given t
  | .subscribe _ | .setSubCallback _ => given

/-- The client, and the callback of the subscription of each topic as it stands. -/
structure State where
  amop : Amop
  given : Bytes → Option Nat

/-- The client and the calls of its user. -/
def client : System State Operation := ⟨⟨{},fun _ => none⟩,fun s l => some ⟨perform s.amop l,renew s.given l⟩⟩

/-- The callbacks follow the subscriptions: topics with a callback are subscribed, with this
    callback, and a message is handled by it or by the default. -/
structure Follows (C : Cropping) (s : State) : Prop where
  subscribed : ∀ topic callback, getCallbackByTopic s.amop topic = some callback → topic ∈ s.amop.topics
  current : ∀ topic, getCallbackByTopic s.amop topic = s.given topic
  delivered : ∀ m r session, Frames r m.payload →
    receive C s.amop m session = deliver ((s.given r.topic).or s.amop.callback) session m.seq r

/-- A topic with a callback is not unsubscribed. -/
def Kept (s : State) : Operation → Prop
  | .unsubscribe topics => ∀ topic ∈ topics, getCallbackByTopic s.amop topic = none
  | .subscribe _ | .subscribeWith _ _ | .setSubCallback _ => True

@[simp] theorem mem_removeTopics {topics : Finset Bytes} {removed : List Bytes} {topic : Bytes} :
    topic ∈ removeTopics topics removed ↔ topic ∈ topics ∧ topic ∉ removed := by
  unfold removeTopics
  induction removed generalizing topics with
  | nil => simp
  | cons first removed ih =>
    rw [List.foldl_cons,ih]
    simp only [removeTopic,Finset.mem_erase,List.mem_cons]
    tauto
private theorem getCallbackByTopic_addTopicCallback (topic t : Bytes) (callback : Option Nat) :
    getCallbackByTopic (addTopicCallback a topic callback) t = if t = topic then callback else getCallbackByTopic a t := by
  simp only [getCallbackByTopic,addTopicCallback,lookup_insert_if]
  split <;> simp

variable {s : State}

private theorem follows_of_current (subscribed : ∀ topic callback, getCallbackByTopic s.amop topic = some callback → topic ∈ s.amop.topics)
    (current : ∀ topic, getCallbackByTopic s.amop topic = s.given topic) : Follows C s where
  subscribed := subscribed
  current := current
  delivered m r session frames := by rw [receive_of_frames frames,current]

/-- A call keeps the callbacks with the subscriptions exactly if it does not unsubscribe a
    topic that has one. -/
theorem follows_step (follows : Follows C s) (l : Operation) :
    Kept s l ↔ Follows C ⟨perform s.amop l,renew s.given l⟩ := by
  have whole := follows.current
  cases l with
  | subscribe topics =>
    refine ⟨fun _ => follows_of_current (fun topic callback found => ?_) whole,fun _ => trivial⟩
    exact Finset.mem_union_left topics (follows.subscribed topic callback found)
  | subscribeWith topic callback =>
    refine ⟨fun _ => follows_of_current (fun t other found => ?_) (fun t => ?_),fun _ => trivial⟩
    · simp only [perform,subscribeWith,getCallbackByTopic_addTopicCallback] at found
      by_cases same : t = topic
      · exact same ▸ Finset.mem_insert_self topic s.amop.topics
      · rw [if_neg same] at found
        exact Finset.mem_insert_of_mem (follows.subscribed t other found)
    · simp only [perform,subscribeWith,getCallbackByTopic_addTopicCallback,renew]
      split
      · rfl
      · exact whole t
  | unsubscribe topics =>
    have same : ∀ topic, getCallbackByTopic (unsubscribe s.amop topics) topic = getCallbackByTopic s.amop topic := fun _ => rfl
    constructor
    · refine fun kept => follows_of_current (fun topic callback found => ?_) (fun topic => ?_)
      · have stays : topic ∉ topics := by
          intro member
          have absent := kept topic member
          exact absurd (absent.symm.trans found) (by simp)
        exact mem_removeTopics.mpr ⟨follows.subscribed topic callback found,stays⟩
      · by_cases member : topic ∈ topics
        · have absent := kept topic member
          simpa [perform,same,renew,member] using absent
        · simpa [perform,same,renew,member] using whole topic
    · intro after topic member
      cases found : getCallbackByTopic s.amop topic with
      | none => rfl
      | some callback => exact absurd member (mem_removeTopics.mp (after.subscribed topic callback found)).2
  | setSubCallback callback => exact ⟨fun _ => follows_of_current follows.subscribed whole,fun _ => trivial⟩

/-- In a run of calls the callbacks follow the subscriptions in every state exactly if no
    topic with a callback is unsubscribed. -/
theorem follows_iff (C : Cropping) (calls : List Operation) :
    client.Obeys Kept client.start calls ↔
      ∀ before after s, calls = before ++ after → client.run client.start before = some s → Follows C s := by
  refine obeys_iff_holds (fun s l => ⟨_,rfl⟩) (fun s l t follows stepped => ?_) ?_ calls
  · cases stepped
    exact follows_step follows l
  · exact follows_of_current (fun topic callback found => by cases found) (fun topic => rfl)

/-- A topic that is subscribed with a callback, unsubscribed and subscribed again without
    one: its messages still go to the callback. -/
theorem stale_callback : ¬ ∀ s, client.Reachable Any s → Follows Cropping.reference s := by
  intro all
  obtain ⟨s,reachable,checked⟩ := exists_of_run (M := client)
    (obeys_any _ [.subscribeWith [97] (some 1),.unsubscribe [[97]],.subscribe {[97]}])
    (fun s => decide (receive Cropping.reference s.amop ⟨.amopRequest,[],frame { topic := [97] }⟩ 0 = .called 1 0 [] [] ∧
      s.given [97] = none ∧ s.amop.callback = none)) (by decide +kernel)
  obtain ⟨called,given,callback⟩ := of_decide_eq_true checked
  have handled := (all s reachable).delivered ⟨.amopRequest,[],frame { topic := [97] }⟩ { topic := [97] } 0
    ⟨by decide,rfl⟩
  rw [called,given,callback] at handled
  cases handled

end CppSdk.AmopDispatch

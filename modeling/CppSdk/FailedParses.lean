import CppSdk.PartialHandshake
import CppSdk.PartialParams
import CppSdk.JsonReading

/-!
Failed parses. A notification, a response to an event subscription and a request are assigned
when all of the text has been read, so that a failure leaves no trace. The parameters of a
subscription and the response to a handshake are assigned as they are read, and a trace is left
wherever these values and what the object held are mixed (`traceless_iff`).
-/
namespace CppSdk.FailedParses
open CppSdk.ByteString CppSdk.Runtime CppSdk.JsonValues CppSdk.JsonReading CppSdk.StagedParses
open CppSdk.EventParams (Reader fresh fromJsonString EventSubSubRequest)
open CppSdk.SubscribeRequests (EventSubParams)
open CppSdk.BlockNumbers (BlockNumberInfo)
open CppSdk.Handshake (HandshakeResponse Codec decode echo)
open CppSdk.PartialParams (HoldsParams HoldsRequest)

section
variable {γ : Type} {R : Reader} {C : Codec γ}

/-- Which parses leave no trace, over any object and for any text. -/
theorem traceless_iff (throws : ThrowsOnly R) (codec : ∀ text, Raises (C.deserialize text)) (text : Bytes) :
    (∀ info : BlockNumberInfo, Traceless (· = ·) (fun after => ∃ root, R.parse text = some root ∧ HoldsInfo R root after) info
      (BlockNotifier.fromJson R info text)) ∧
    (∀ r : EventSubResponse, Traceless (· = ·) (fun after => ∃ root, R.parse text = some root ∧ HoldsResponse R root after) r
      (r.fromJson R text)) ∧
    (∀ q : EventSubSubRequest, Traceless (· = ·) (fun after => ∃ root, R.parse text = some root ∧ HoldsRequest R root after) q
      (q.fromJson R text)) ∧
    (∀ p : EventSubParams, Traceless (· = ·) (fun after => ∃ root, R.parse text = some root ∧ HoldsParams R root after) p
      (fromJsonString R p text) ↔ PartialParams.Unmixed R p text) ∧
    ∀ r : HandshakeResponse γ, Traceless PartialHandshake.Alike
      (fun after => ∃ root, R.parse text = some root ∧ PartialHandshake.HoldsResponse R C root after) r (decode R C r text) ↔
      PartialHandshake.Unmixed R C r text := by
  refine ⟨fun info => traceless_info throws info text,fun r => traceless_response throws r text,
    fun q => PartialParams.traceless_request throws q text,fun p => PartialParams.traceless_params_iff throws p text,
    fun r => PartialHandshake.traceless_decode_iff throws codec r text⟩

end

/-! ### Runs -/

private theorem readerOf_throwsOnly (values : List Json) : ThrowsOnly (readerOf values) where
  asInt64 json failure failed := by
    simp only [readerOf,Reader.reference] at failed
    split at failed
    · split at failed
      · cases failed
      · exact raises_throws _ failure failed
    · exact raises_throws _ failure failed
  asInt json failure failed := by
    simp only [readerOf,Jsoncpp.reference] at failed
    split at failed
    · split at failed
      · cases failed
      · exact raises_throws _ failure failed
    · exact raises_throws _ failure failed
  asString json failure failed := by
    simp only [readerOf,Jsoncpp.reference] at failed
    split at failed
    · cases failed
    · cases failed
    · cases failed
    · exact raises_throws _ failure failed

/-- A text that is both: parameters with a topic, and the groups of a node. -/
def whole : Json := .object [(lit "fromBlock",.int 7),(lit "groupInfoList",.array [.string (lit "group0")]),
  (lit "protocolVersion",.int 1),(lit "topics",.array [.string (lit "a")])]
/-- Parameters with a text for the last block. -/
def broken : Json := .object [(lit "fromBlock",.int 7),(lit "toBlock",.string (lit "x"))]

theorem traceless_whole :
    Traceless (· = ·) (fun after => ∃ root, (readerOf [whole]).parse (printValue quoted whole) = some root ∧
      HoldsParams (readerOf [whole]) root after) fresh (fromJsonString (readerOf [whole]) fresh (printValue quoted whole)) ∧
    Traceless PartialHandshake.Alike (fun after => ∃ root, (readerOf [whole]).parse (printValue quoted whole) = some root ∧
      PartialHandshake.HoldsResponse (readerOf [whole]) echo root after) (Handshake.fresh 9)
      (decode (readerOf [whole]) echo (Handshake.fresh 9) (printValue quoted whole)) := by
  obtain ⟨_,_,_,params,response⟩ := traceless_iff (C := echo) (readerOf_throwsOnly [whole]) (fun _ => raises_ok _) (printValue quoted whole)
  constructor
  · refine (params fresh).mpr (fun root parsed => ?_)
    cases (parse_head whole []).symm.trans parsed
    exact ⟨fun _ => PartialParams.covered_fresh _ _,fun fails => absurd rfl fails⟩
  · refine (response (Handshake.fresh 9)).mpr (fun root parsed => ?_)
    cases (parse_head whole []).symm.trans parsed
    exact ⟨fun _ => ⟨fun _ _ => rfl,fun _ _ _ _ => rfl⟩,fun fails => absurd rfl fails⟩

/-- A failure half way leaves the first block that was read, and a second response is appended
    to the groups of the first. -/
theorem traces_left :
    ThrowsOnly (readerOf [broken]) ∧
    ¬Traceless (· = ·) (fun after => ∃ root, (readerOf [broken]).parse (printValue quoted broken) = some root ∧
      HoldsParams (readerOf [broken]) root after) fresh (fromJsonString (readerOf [broken]) fresh (printValue quoted broken)) ∧
    ThrowsOnly (readerOf [whole]) ∧ (∀ text, Raises (echo.deserialize text)) ∧
    ¬Traceless PartialHandshake.Alike (fun after => ∃ root, (readerOf [whole]).parse (printValue quoted whole) = some root ∧
      PartialHandshake.HoldsResponse (readerOf [whole]) echo root after) ⟨[lit "group1"],∅,1⟩
      (decode (readerOf [whole]) echo ⟨[lit "group1"],∅,1⟩ (printValue quoted whole)) := by
  refine ⟨readerOf_throwsOnly _,?_,readerOf_throwsOnly _,fun _ => raises_ok _,?_⟩
  · intro traceless
    have unmixed := (PartialParams.traceless_params_iff (readerOf_throwsOnly _) _ _).mp traceless
    have repeated := (unmixed broken (parse_head broken [])).2 nofun
    have block := repeated.fromBlock 7 (List.mem_singleton_self _)
    exact absurd block (by decide)
  · intro traceless
    have unmixed := (PartialHandshake.traceless_decode_iff (readerOf_throwsOnly _) (fun _ => raises_ok _) _ _).mp traceless
    have covered := (unmixed whole (parse_head whole [])).1 rfl
    exact absurd (covered.groups _ rfl) nofun

end CppSdk.FailedParses

import CppSdk.StagedParses
import CppSdk.WriteLogs

/-!
Logs of what a method reads from the members of a JSON value.
-/
namespace CppSdk.MemberLogs
open CppSdk.ByteString CppSdk.Runtime CppSdk.JsonValues CppSdk.WriteLogs CppSdk.StagedParses

variable {W σ : Type}

/-- A member, where there is one. -/
def logMember (json : Json) (key : String) (log : Json → Log Failure W Unit) : Log Failure W Unit := do
  if ← (json.isMember (lit key) : Call Bool) then log ((json.member (lit key)).getD .null)

theorem logs_member {change : σ → W → σ} {json : Json} {key : String} {read : Json → Method Failure σ Unit} {log : Json → Log Failure W Unit}
    (each : ∀ json, Logs change (read json) (log json)) :
    Logs change (do if ← (json.isMember (lit key) : Call Bool) then read ((json.member (lit key)).getD .null) : Method Failure σ Unit)
      (logMember json key log) := by
  refine logs_bind (logs_lift _) (fun found => ?_)
  cases found with
  | true => exact each _
  | false => exact logs_pure ()
theorem fails_member {json : Json} {key : String} {log : Json → Log Failure W Unit} (each : ∀ json, (log json).Fails Thrown) :
    (logMember json key log).Fails Thrown := by
  refine Log.fails_bind (Log.fails_lift (raises_isMember json _)) (fun found => ?_)
  cases found with
  | true => exact each _
  | false => exact Log.fails_pure ()
theorem writes_member {P : W → Prop} {json : Json} {key : String} {log : Json → Log Failure W Unit} (each : ∀ json, (log json).Writes P) :
    (logMember json key log).Writes P := by
  refine Log.writes_bind (Log.writes_lift _) (fun found => ?_)
  cases found with
  | true => exact each _
  | false => exact Log.writes_pure ()
/-- A member is read where there is one. -/
theorem member_ok {json value : Json} {key : String} {log : Json → Log Failure W Unit} (ends : (logMember json key log).outcome = .ok ())
    (present : json.member (lit key) = some value) :
    (log value).outcome = .ok () ∧ (logMember json key log).writes = (log value).writes := by
  cases json with
  | object members =>
    have listed : members.lookup (lit key) = some value := present
    have isMember : (Json.object members).isMember (lit key) = .ok true := by rw [Json.isMember,listed]; rfl
    obtain ⟨_,found,ended,written⟩ := Log.lift_bind_ok ends
    rw [isMember,Except.ok.injEq] at found
    subst found
    rw [← logMember] at written
    simp only [if_true,present,Option.getD_some] at ended written
    exact ⟨ended,written⟩
  | _ => cases present

end CppSdk.MemberLogs

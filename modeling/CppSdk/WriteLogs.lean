import CppSdk.Runtime

/-!
Methods that assign to their object as they go, whatever it holds: each has a log of what it
writes and of how it ends, and its run is the log replayed on the object. The logs form a
monad of their own, and the rules below give the log of a method from those of its parts.
-/
namespace CppSdk.WriteLogs
open CppSdk.Runtime

/-- What is written in turn, and how it ends. -/
structure Log (ε W α : Type) where
  writes : List W
  outcome : Except ε α

variable {ε W α β σ : Type}

namespace Log

/-- One assignment. -/
def write (w : W) : Log ε W Unit := ⟨[w],.ok ()⟩

instance : Monad (Log ε W) where
  pure a := ⟨[],.ok a⟩
  bind log next :=
    match log.outcome with
    | .ok a => ⟨log.writes ++ (next a).writes,(next a).outcome⟩
    | .error e => ⟨log.writes,.error e⟩
instance : MonadLift (Except ε) (Log ε W) := ⟨fun call => ⟨[],call⟩⟩

theorem bind_of_ok {log : Log ε W α} {next : α → Log ε W β} {a : α} (ends : log.outcome = .ok a) :
    log >>= next = ⟨log.writes ++ (next a).writes,(next a).outcome⟩ := by
  change (match log.outcome with | .ok a => _ | .error e => _) = _
  rw [ends]
theorem bind_of_error {log : Log ε W α} {next : α → Log ε W β} {e : ε} (ends : log.outcome = .error e) :
    log >>= next = ⟨log.writes,.error e⟩ := by
  change (match log.outcome with | .ok a => _ | .error e => _) = _
  rw [ends]

/-- A sequence ends well exactly if its parts do. -/
theorem bind_ok_iff {log : Log ε W α} {next : α → Log ε W β} {b : β} :
    (log >>= next).outcome = .ok b ↔ ∃ a, log.outcome = .ok a ∧ (next a).outcome = .ok b := by
  cases ends : log.outcome with
  | ok a => simp [bind_of_ok ends]
  | error e => simp [bind_of_error ends]

theorem lift_bind_writes (call : Except ε α) (next : α → Log ε W β) :
    ((liftM call : Log ε W α) >>= next).writes = match call with | .ok a => (next a).writes | .error _ => [] := by
  cases call <;> rfl

theorem lift_bind_ok {call : Except ε α} {next : α → Log ε W β} {b : β} (ends : ((liftM call : Log ε W α) >>= next).outcome = .ok b) :
    ∃ a, call = .ok a ∧ (next a).outcome = .ok b ∧ ((liftM call : Log ε W α) >>= next).writes = (next a).writes := by
  cases call with
  | ok a => exact ⟨a,rfl,ends,rfl⟩
  | error e => cases ends

/-- After a part come the writes of the next, or none. -/
theorem writes_then (log : Log ε W α) (later : Log ε W β) :
    ∃ more, (more = [] ∨ more = later.writes) ∧ (log >>= fun _ => later).writes = log.writes ++ more := by
  cases ends : log.outcome with
  | ok a => exact ⟨later.writes,.inr rfl,by rw [bind_of_ok ends]⟩
  | error e => exact ⟨[],.inl rfl,by rw [bind_of_error ends,List.append_nil]⟩

/-- A loop that ends well has a value for each round, and writes what these make. -/
theorem forM_ok {f : α → Log ε W Unit} {P : α → β → Prop} {made : β → List W}
    (each : ∀ a, (f a).outcome = .ok () → ∃ b, P a b ∧ (f a).writes = made b) {list : List α} (ends : (list.forM f).outcome = .ok ()) :
    ∃ values, List.Forall₂ P list values ∧ (list.forM f).writes = values.flatMap made := by
  induction list with
  | nil => exact ⟨[],.nil,rfl⟩
  | cons a rest ih =>
    obtain ⟨_,first,later⟩ := bind_ok_iff.mp ends
    obtain ⟨b,here,written⟩ := each a first
    obtain ⟨values,all,others⟩ := ih later
    refine ⟨b :: values,.cons here all,?_⟩
    exact (congrArg writes (bind_of_ok first)).trans (congrArg₂ (· ++ ·) written others)

/-- All that is written has a property. -/
def Writes (P : W → Prop) (log : Log ε W α) : Prop := ∀ w ∈ log.writes, P w
/-- The failures have a property. -/
def Fails (P : ε → Prop) (log : Log ε W α) : Prop := ∀ e, log.outcome = .error e → P e

section
variable {P Q : W → Prop} {F : ε → Prop} {log : Log ε W α} {next : α → Log ε W β}

theorem writes_mono (weaker : ∀ w, P w → Q w) (all : Writes P log) : Writes Q log := fun w member => weaker w (all w member)
theorem writes_pure (a : α) : Writes P (pure a : Log ε W α) := nofun
theorem writes_lift (call : Except ε α) : Writes P (liftM call : Log ε W α) := nofun
theorem writes_write {w : W} (holds : P w) : Writes P (write w : Log ε W Unit) := fun _ member => List.mem_singleton.mp member ▸ holds
theorem writes_bind (first : Writes P log) (later : ∀ a, Writes P (next a)) : Writes P (log >>= next) := by
  cases ends : log.outcome with
  | ok a =>
    rw [bind_of_ok ends]
    intro w member
    exact (List.mem_append.mp member).elim (first w) (later a w)
  | error e =>
    rw [bind_of_error ends]
    exact first
theorem writes_forM {f : α → Log ε W Unit} {list : List α} (each : ∀ a, Writes P (f a)) : Writes P (list.forM f) := by
  induction list with
  | nil => exact writes_pure ()
  | cons a rest ih => exact writes_bind (each a) (fun _ => ih)

theorem fails_pure (a : α) : Fails F (pure a : Log ε W α) := nofun
theorem fails_write (w : W) : Fails F (write w : Log ε W Unit) := nofun
theorem fails_lift {call : Except ε α} (only : ∀ e, call = .error e → F e) : Fails F (liftM call : Log ε W α) := only
theorem fails_bind (first : Fails F log) (later : ∀ a, Fails F (next a)) : Fails F (log >>= next) := by
  cases ends : log.outcome with
  | ok a =>
    rw [bind_of_ok ends]
    exact later a
  | error e =>
    rw [bind_of_error ends]
    rintro _ ⟨⟩
    exact first e ends
theorem fails_forM {f : α → Log ε W Unit} {list : List α} (each : ∀ a, Fails F (f a)) : Fails F (list.forM f) := by
  induction list with
  | nil => exact fails_pure ()
  | cons a rest ih => exact fails_bind (each a) (fun _ => ih)
end

end Log

/-! ### Methods and their logs -/

/-- The method does what the log says, whatever its object holds. -/
def Logs (change : σ → W → σ) (method : Method ε σ α) (log : Log ε W α) : Prop :=
  ∀ s, method.run s = (log.outcome,log.writes.foldl change s)

section
variable {change : σ → W → σ} {method : Method ε σ α} {log : Log ε W α}

theorem logs_pure (a : α) : Logs change (pure a : Method ε σ α) (pure a) := fun _ => rfl
theorem logs_lift (call : Except ε α) : Logs change (liftM call : Method ε σ α) (liftM call) := by
  intro s
  cases call with
  | ok a => exact run_lift rfl
  | error e => exact run_lift_error rfl
theorem logs_write (w : W) : Logs change (modify (fun s => change s w) : Method ε σ Unit) (Log.write w) := fun _ => rfl
theorem logs_bind {next : α → Method ε σ β} {nextLog : α → Log ε W β} (first : Logs change method log)
    (later : ∀ a, Logs change (next a) (nextLog a)) : Logs change (method >>= next) (log >>= nextLog) := by
  intro s
  have ran := first s
  cases ends : log.outcome with
  | ok a =>
    rw [ends] at ran
    rw [run_bind ran,later,Log.bind_of_ok ends,List.foldl_append]
  | error e =>
    rw [ends] at ran
    rw [run_bind_error ran,Log.bind_of_error ends]
theorem logs_forM {f : β → Method ε σ Unit} {g : β → Log ε W Unit} (list : List β) (each : ∀ b, Logs change (f b) (g b)) :
    Logs change (list.forM f) (list.forM g) := by
  induction list with
  | nil => exact logs_pure ()
  | cons b rest ih => exact logs_bind (each b) (fun _ => ih)
end

/-- A value that is given once at most, over one that is held. -/
theorem getLast_repeats {given : List α} (once : given.length ≤ 1) (held : α) : given.getLast?.getD held = held ↔ ∀ a ∈ given, a = held := by
  match given,once with
  | [],_ => simp
  | [a],_ => simp

end CppSdk.WriteLogs

/-!
Step systems: a state, and for every label the state that a step with it leads to,
when there is one. A run is a list of labels. A run can be held to a condition on
its steps, and what every allowed step preserves holds at its end.
-/
namespace CppSdk.Transition

/-- A step system: its first state, and where a step with a label leads. -/
structure System (State Label : Type) where
  start : State
  step : State → Label → Option State

variable {State Label : Type}

/-- The state after a run. -/
def System.run (M : System State Label) : State → List Label → Option State
  | s, [] => some s
  | s, l :: ls => (M.step s l).bind (fun next => M.run next ls)

/-- Every step of the run is allowed in the state it is taken in. -/
def System.Obeys (M : System State Label) (allowed : State → Label → Prop) : State → List Label → Prop
  | _, [] => True
  | s, l :: ls => allowed s l ∧ ∀ next, M.step s l = some next → M.Obeys allowed next ls

/-- Whether a run obeys a condition that can be decided. -/
def System.decideObeys (M : System State Label) (allowed : State → Label → Prop) [∀ s l, Decidable (allowed s l)] :
    ∀ s ls, Decidable (M.Obeys allowed s ls)
  | _, [] => inferInstanceAs (Decidable True)
  | s, l :: ls =>
    match stepped : M.step s l with
    | none => decidable_of_iff (allowed s l) (by simp [System.Obeys,stepped])
    | some next =>
      have := M.decideObeys allowed next ls
      decidable_of_iff (allowed s l ∧ M.Obeys allowed next ls) (by simp [System.Obeys,stepped])
instance (M : System State Label) (allowed : State → Label → Prop) [∀ s l, Decidable (allowed s l)] (s : State)
    (ls : List Label) : Decidable (M.Obeys allowed s ls) := M.decideObeys allowed s ls

/-- A run of allowed steps leads from one state to the other. -/
def System.Reaches (M : System State Label) (allowed : State → Label → Prop) (s t : State) : Prop :=
  ∃ ls, M.Obeys allowed s ls ∧ M.run s ls = some t

/-- A run of allowed steps leads to the state. -/
def System.Reachable (M : System State Label) (allowed : State → Label → Prop) (s : State) : Prop :=
  M.Reaches allowed M.start s

/-- No condition. -/
def Any : State → Label → Prop := fun _ _ => True

variable {M : System State Label} {allowed : State → Label → Prop}

theorem run_append {s : State} {ls ms : List Label} :
    M.run s (ls ++ ms) = (M.run s ls).bind (fun t => M.run t ms) := by
  induction ls generalizing s with
  | nil => rfl
  | cons l ls ih =>
    simp only [List.cons_append,System.run]
    cases M.step s l with
    | none => rfl
    | some next => exact ih

theorem obeys_of_step {s next : State} {l : Label} {ls : List Label} (permitted : allowed s l)
    (stepped : M.step s l = some next) (later : M.Obeys allowed next ls) : M.Obeys allowed s (l :: ls) := by
  refine ⟨permitted,fun other same => ?_⟩
  rw [stepped,Option.some.injEq] at same
  exact same ▸ later

theorem obeys_any (s : State) (ls : List Label) : M.Obeys Any s ls := by
  induction ls generalizing s with
  | nil => trivial
  | cons l ls ih => exact ⟨trivial,fun next _ => ih next⟩

theorem reaches_of_run {s t : State} {ls : List Label} (ran : M.run s ls = some t) : M.Reaches Any s t :=
  ⟨ls,obeys_any s ls,ran⟩

theorem reaches_refl (s : State) : M.Reaches allowed s s := ⟨[],trivial,rfl⟩
theorem reachable_run {s t : State} {ls : List Label} (reachable : M.Reachable Any s) (ran : M.run s ls = some t) :
    M.Reachable Any t := by
  obtain ⟨before,_,reached⟩ := reachable
  have both : M.run M.start (before ++ ls) = some t := by
    rw [run_append,reached]
    exact ran
  exact reaches_of_run both
/-- What a check finds at the end of a run of allowed steps holds of a reachable state. -/
theorem exists_of_run {ls : List Label} (obeys : M.Obeys allowed M.start ls) (check : State → Bool)
    (ran : (M.run M.start ls).any check = true) : ∃ s, M.Reachable allowed s ∧ check s = true := by
  cases reached : M.run M.start ls with
  | none => simp [reached] at ran
  | some s => exact ⟨s,⟨ls,obeys,reached⟩,by simpa [reached] using ran⟩

/-- What every allowed step preserves holds after a run of allowed steps. -/
theorem invariant_of_reaches {Inv : State → Prop} (preserved : ∀ s l t, Inv s → allowed s l → M.step s l = some t → Inv t)
    {s t : State} (holds : Inv s) (reaches : M.Reaches allowed s t) : Inv t := by
  obtain ⟨ls,obeys,ran⟩ := reaches
  induction ls generalizing s with
  | nil => simp only [System.run,Option.some.injEq] at ran; exact ran ▸ holds
  | cons l ls ih =>
    obtain ⟨permitted,later⟩ := obeys
    obtain ⟨next,stepped,rest⟩ := Option.bind_eq_some_iff.mp (by simpa only [System.run] using ran)
    exact ih (preserved s l next holds permitted stepped) (later next stepped) rest

/-- An invariant of the allowed steps that holds at the start holds in every reachable state. -/
theorem invariant_of_reachable {Inv : State → Prop} (first : Inv M.start)
    (preserved : ∀ s l t, Inv s → allowed s l → M.step s l = some t → Inv t) {s : State}
    (reachable : M.Reachable allowed s) : Inv s := invariant_of_reaches preserved first reachable

/-- Where every label can be taken and the allowed ones are those that keep the invariant,
    a run obeys exactly if the invariant holds after each of its parts. -/
theorem obeys_iff_holds {Inv : State → Prop} (total : ∀ s l, ∃ t, M.step s l = some t)
    (exact_step : ∀ s l t, Inv s → M.step s l = some t → (allowed s l ↔ Inv t)) {s : State} (holds : Inv s)
    (ls : List Label) :
    M.Obeys allowed s ls ↔ ∀ before after t, ls = before ++ after → M.run s before = some t → Inv t := by
  induction ls generalizing s with
  | nil =>
    refine ⟨fun _ before after t split ran => ?_,fun _ => trivial⟩
    rw [(List.append_eq_nil_iff.mp split.symm).1,System.run,Option.some.injEq] at ran
    exact ran ▸ holds
  | cons l ls ih =>
    obtain ⟨next,stepped⟩ := total s l
    constructor
    · rintro ⟨permitted,later⟩ before after t split ran
      cases before with
      | nil =>
        rw [System.run,Option.some.injEq] at ran
        exact ran ▸ holds
      | cons first before =>
        obtain ⟨rfl,rest⟩ := List.cons.inj split
        rw [System.run,stepped,Option.bind_some] at ran
        exact (ih ((exact_step s l next holds stepped).mp permitted)).mp (later next stepped) before after t rest ran
    · intro kept
      have reached : Inv next := kept [l] ls next rfl (by simp [System.run,stepped])
      refine obeys_of_step ((exact_step s l next holds stepped).mpr reached) stepped ((ih reached).mpr ?_)
      intro before after t split ran
      exact kept (l :: before) after t (by rw [split,List.cons_append]) (by simpa [System.run,stepped] using ran)

end CppSdk.Transition

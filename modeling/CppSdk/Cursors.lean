import CppSdk.Runtime

/-!
Readers of a buffer. A position moves over the bytes, and a read that fails leaves it where
it is by then. What a read makes of the unread bytes (`Reads`); and reads that agree, end and
keep near the buffer on every state with few bytes left (`Settles`), so that a loop or a
recursion may take any fuel that exceeds them.
-/
namespace CppSdk.Cursors
open CppSdk.ByteString CppSdk.Runtime

/-- A buffer and a position in it, which may lie behind its end. -/
structure Buffered where
  buf : Bytes
  cur : Nat
  deriving DecidableEq

/-- A read from a buffer. -/
abbrev Read (ε α : Type) := Method ε Buffered α

/-- The number of bytes that are left. -/
def Buffered.remaining (r : Buffered) : Nat := r.buf.length - r.cur
/-- The buffer with the position between two parts. -/
def standing (front rest : Bytes) : Buffered := ⟨front ++ rest,front.length⟩

@[simp] theorem standing_buf (front rest : Bytes) : (standing front rest).buf = front ++ rest := rfl
@[simp] theorem standing_cur (front rest : Bytes) : (standing front rest).cur = front.length := rfl
@[simp] theorem standing_remaining (front rest : Bytes) : (standing front rest).remaining = rest.length := by
  simp [Buffered.remaining]
theorem standing_append (front bytes rest : Bytes) :
    standing (front ++ bytes) rest = ⟨front ++ (bytes ++ rest),front.length + bytes.length⟩ := by
  simp [standing]

variable {ε α β σ : Type}

theorem run_get (f : Buffered → Read ε α) (r : Buffered) : (get >>= f).run r = (f r).run r := rfl
theorem run_then (x : Read ε α) (f : α → Read ε β) (r : Buffered) :
    (x >>= f).run r = match x.run r with | (.ok a,after) => (f a).run after | (.error e,after) => (.error e,after) := by
  rcases ran : x.run r with ⟨outcome,after⟩
  cases outcome with
  | ok a => exact run_bind ran
  | error e => exact run_bind_error ran

theorem run_catch_ok {x : Read ε α} {handle : ε → Read ε α} {r after : Buffered} {a : α} (ran : x.run r = (.ok a,after)) :
    (tryCatch x handle).run r = (.ok a,after) := by
  change ExceptT.tryCatch x handle r = _
  simp only [ExceptT.tryCatch,ExceptT.mk,bind,StateT.bind]
  rw [show x r = _ from ran]
  rfl
theorem run_catch_error {x : Read ε α} {handle : ε → Read ε α} {r after : Buffered} {e : ε}
    (ran : x.run r = (.error e,after)) : (tryCatch x handle).run r = (handle e).run after := by
  change ExceptT.tryCatch x handle r = _
  simp only [ExceptT.tryCatch,ExceptT.mk,bind,StateT.bind]
  rw [show x r = _ from ran]
  rfl

/-! ### Loops -/

/-- A loop with an accumulator: a round goes on with another one or leaves with a result. -/
def looped (stuck : ε) (round : σ → Read ε (σ ⊕ β)) : Nat → σ → Read ε β
  | 0, _ => throw stuck
  | fuel + 1, s => do
    match ← round s with
    | .inl next => looped stuck round fuel next
    | .inr b => pure b
/-- A loop that moves forward in the buffer with every round that goes on. -/
def loop (stuck : ε) (round : σ → Read ε (σ ⊕ β)) (s : σ) : Read ε β := do
  let r ← get
  looped stuck round (r.buf.length + 1) s

/-- The read a number of times. -/
def times (x : Read ε Unit) : Nat → Read ε Unit
  | 0 => pure ()
  | n + 1 => do
    x
    times x n
/-- The read a number of times, with what it gives. -/
def collect (x : Read ε α) : Nat → Read ε (List α)
  | 0 => pure []
  | n + 1 => do
    let a ← x
    let rest ← collect x n
    pure (a :: rest)

theorem loop_run (stuck : ε) (round : σ → Read ε (σ ⊕ β)) (s : σ) (r : Buffered) :
    (loop stuck round s).run r = (looped stuck round (r.buf.length + 1) s).run r := rfl

/-! ### What a read makes of the unread bytes -/

/-- Wherever the bytes are what is left, the read gives the value and leaves the rest. -/
def Reads (x : Read ε α) (unread : Bytes) (a : α) (rest : Bytes) : Prop :=
  ∀ front, ∃ front', front' ++ rest = front ++ unread ∧ x.run (standing front unread) = (.ok a,standing front' rest)
/-- Wherever the bytes are what is left, the read fails. -/
def Fails (x : Read ε α) (unread : Bytes) (e : ε) : Prop :=
  ∀ front, ∃ after, x.run (standing front unread) = (.error e,after)
/-- Whatever follows the bytes, the read takes them for the value. -/
def Takes (x : Read ε α) (bytes : Bytes) (a : α) : Prop := ∀ rest, Reads x (bytes ++ rest) a rest

section
variable {x : Read ε α} {f : α → Read ε β} {p q s bytes more : Bytes} {a : α} {b : β} {e : ε}

theorem reads_pure (a : α) (p : Bytes) : Reads (pure a : Read ε α) p a p := fun front => ⟨front,rfl,rfl⟩
theorem reads_bind (first : Reads x p a q) (later : Reads (f a) q b s) : Reads (x >>= f) p b s := by
  intro front
  obtain ⟨middle,same,ran⟩ := first front
  obtain ⟨after,same',ran'⟩ := later middle
  exact ⟨after,same'.trans same,(run_bind ran).trans ran'⟩
theorem fails_first (first : Fails x p e) : Fails (x >>= f) p e := by
  intro front
  obtain ⟨after,ran⟩ := first front
  exact ⟨after,run_bind_error ran⟩
theorem fails_later (first : Reads x p a q) (later : Fails (f a) q e) : Fails (x >>= f) p e := by
  intro front
  obtain ⟨middle,same,ran⟩ := first front
  obtain ⟨after,ran'⟩ := later middle
  exact ⟨after,(run_bind ran).trans ran'⟩
theorem reads_map (first : Reads x p a q) (g : α → β) : Reads (g <$> x) p (g a) q := by
  rw [← bind_pure_comp]
  exact reads_bind first (reads_pure (g a) q)

/-- A read that looks at what is left. -/
theorem reads_unread {f : Bytes → Read ε α} (reads : Reads (f p) p a q) : Reads (get >>= fun r => f (r.buf.drop r.cur)) p a q := by
  intro front
  obtain ⟨front',same,ran⟩ := reads front
  refine ⟨front',same,?_⟩
  have unread : (standing front p).buf.drop (standing front p).cur = p := by simp [standing]
  rw [run_get,unread]
  exact ran
theorem reads_catch {handle : ε → Read ε α} (reads : Reads x p a q) : Reads (tryCatch x handle) p a q := by
  intro front
  obtain ⟨after,same,ran⟩ := reads front
  exact ⟨after,same,run_catch_ok ran⟩

theorem takes_pure (a : α) : Takes (pure a : Read ε α) [] a := fun rest => reads_pure a rest
theorem takes_bind (first : Takes x bytes a) (later : Takes (f a) more b) : Takes (x >>= f) (bytes ++ more) b := by
  intro rest
  rw [List.append_assoc]
  exact reads_bind (first (more ++ rest)) (later rest)
/-- A read that takes nothing more after the first. -/
theorem takes_then (first : Takes x bytes a) (later : Takes (f a) [] b) : Takes (x >>= f) bytes b := by
  simpa using takes_bind first later
theorem takes_map (first : Takes x bytes a) (g : α → β) : Takes (g <$> x) bytes (g a) := fun rest => reads_map (first rest) g

/-- What is read is determined by the bytes. -/
theorem reads_unique {a' : α} {q' : Bytes} (one : Reads x p a q) (other : Reads x p a' q') : a = a' ∧ q = q' := by
  obtain ⟨front,same,ran⟩ := one []
  obtain ⟨front',same',ran'⟩ := other []
  rw [ran,Prod.mk.injEq,Except.ok.injEq] at ran'
  obtain ⟨rfl,stood⟩ := ran'
  simp only [standing,Buffered.mk.injEq] at stood
  exact ⟨rfl,(List.append_inj stood.1 stood.2).2⟩

theorem not_reads_of_fails (fails : Fails x p e) : ¬ Reads x p a q := by
  intro reads
  obtain ⟨after,failed⟩ := fails []
  obtain ⟨_,_,ran⟩ := reads []
  rw [failed] at ran
  cases ran

theorem takes_times {x : Read ε Unit} {each : List Bytes} (one : ∀ bytes ∈ each, Takes x bytes ()) :
    Takes (times x each.length) each.flatten () := by
  induction each with
  | nil => exact takes_pure ()
  | cons bytes each ih =>
    rw [List.forall_mem_cons] at one
    exact takes_bind one.1 (ih one.2)

theorem takes_collect {item : α → Bytes} {values : List α} (one : ∀ a ∈ values, Takes x (item a) a) :
    Takes (collect x values.length) (values.flatMap item) values := by
  induction values with
  | nil => exact takes_pure []
  | cons a values ih =>
    rw [List.forall_mem_cons] at one
    exact takes_bind one.1 (takes_then (ih one.2) (takes_pure _))

theorem fails_map (first : Fails x p e) (g : α → β) : Fails (g <$> x) p e := by
  rw [← bind_pure_comp]
  exact fails_first first

end

section
variable {γ : Type} {x : Read ε α} {p : Bytes}

/-- What a read makes of the unread bytes: a value and the rest, or a failure. -/
def Results (x : Read ε α) (p : Bytes) : Except ε (α × Bytes) → Prop
  | .ok (a,q) => Reads x p a q
  | .error e => Fails x p e

theorem results_bind {f : α → Read ε β} {r : Except ε (α × Bytes)} {g : α × Bytes → Except ε (β × Bytes)} (first : Results x p r)
    (later : ∀ a q, r = .ok (a,q) → Results (f a) q (g (a,q))) : Results (x >>= f) p (r >>= g) := by
  cases r with
  | error e => exact fails_first first
  | ok read =>
    have second := later read.1 read.2 rfl
    show Results (x >>= f) p (g read)
    revert second
    cases g read with
    | error e => exact fun second => fails_later first second
    | ok b => exact fun second => reads_bind first second
theorem results_map {r : Except ε (α × Bytes)} (first : Results x p r) (g : α → β) :
    Results (g <$> x) p (r.map (fun read => (g read.1,read.2))) := by
  cases r with
  | error e => exact fails_map first g
  | ok read => exact reads_map first g

/-- A number of reads, each of what stands for one item. -/
theorem results_collect {item : γ → Bytes} {meaning : γ → Except ε α} {items : List γ}
    (each : ∀ v ∈ items, ∀ rest, Results x (item v ++ rest) ((meaning v).map (fun a => (a,rest)))) (rest : Bytes) :
    Results (collect x items.length) (items.flatMap item ++ rest) ((items.mapM meaning).map (fun values => (values,rest))) := by
  induction items with
  | nil => exact reads_pure [] rest
  | cons v items ih =>
    rw [List.forall_mem_cons] at each
    have first := each.1 (items.flatMap item ++ rest)
    have later := ih each.2
    rw [List.flatMap_cons,List.append_assoc,List.mapM_cons,List.length_cons]
    cases one : meaning v with
    | error e =>
      rw [one] at first
      exact fails_first first
    | ok a =>
      rw [one] at first
      cases others : items.mapM meaning with
      | error e =>
        rw [others] at later
        exact fails_later first (fails_first later)
      | ok values =>
        rw [others] at later
        exact reads_bind first (reads_bind later (reads_pure (a :: values) rest))

end

section
variable {stuck : ε} {round : σ → Read ε (σ ⊕ β)} {s next : σ} {p q t : Bytes} {b : β}

/-- The loop reads the bytes with every fuel that exceeds them. -/
def LoopReads (stuck : ε) (round : σ → Read ε (σ ⊕ β)) (s : σ) (p : Bytes) (b : β) (t : Bytes) : Prop :=
  ∀ fuel, p.length < fuel → Reads (looped stuck round fuel s) p b t

theorem loopReads_done (left : Reads (round s) p (.inr b) t) : LoopReads stuck round s p b t := by
  intro fuel enough
  obtain ⟨fuel,rfl⟩ : ∃ n, fuel = n + 1 := ⟨fuel - 1,by omega⟩
  exact reads_bind left (reads_pure b t)
theorem loopReads_next (goes : Reads (round s) p (.inl next) q) (shorter : q.length < p.length)
    (later : LoopReads stuck round next q b t) : LoopReads stuck round s p b t := by
  intro fuel enough
  obtain ⟨fuel,rfl⟩ : ∃ n, fuel = n + 1 := ⟨fuel - 1,by omega⟩
  exact reads_bind goes (later fuel (by omega))
/-- The loop fails on the bytes with every fuel that exceeds them. -/
def LoopFails (stuck : ε) (round : σ → Read ε (σ ⊕ β)) (s : σ) (p : Bytes) (e : ε) : Prop :=
  ∀ fuel, p.length < fuel → Fails (looped stuck round fuel s) p e

theorem loopFails_now {e : ε} (fails : Fails (round s) p e) : LoopFails stuck round s p e := by
  intro fuel enough
  obtain ⟨fuel,rfl⟩ : ∃ n, fuel = n + 1 := ⟨fuel - 1,by omega⟩
  exact fails_first fails
theorem loopFails_next {e : ε} (goes : Reads (round s) p (.inl next) q) (shorter : q.length < p.length)
    (later : LoopFails stuck round next q e) : LoopFails stuck round s p e := by
  intro fuel enough
  obtain ⟨fuel,rfl⟩ : ∃ n, fuel = n + 1 := ⟨fuel - 1,by omega⟩
  exact fails_later goes (later fuel (by omega))
theorem fails_loop {e : ε} (fails : LoopFails stuck round s p e) : Fails (loop stuck round s) p e := by
  intro front
  rw [loop_run]
  exact fails _ (by simp only [standing_buf,List.length_append]; omega) front
theorem reads_loop (reads : LoopReads stuck round s p b t) : Reads (loop stuck round s) p b t := by
  intro front
  rw [loop_run]
  exact reads _ (by simp only [standing_buf,List.length_append]; omega) front

end

/-! ### Reads that agree, end and keep near the buffer -/

/-- What a read may do: the buffer stays, the position moves forward and not far behind the
    end, and the failure is one of those that are allowed. -/
structure Proper (allowed : ε → Prop) (slack : Nat) (r : Buffered) (out : Except ε α × Buffered) : Prop where
  same : out.2.buf = r.buf
  forward : r.cur ≤ out.2.cur
  near : out.2.cur ≤ r.buf.length + slack
  error : ∀ e, out.1 = .error e → allowed e

/-- On every state from which the reads may start and that has fewer bytes left, the two
    agree and do what a read may do. -/
def Settles (allowed : ε → Prop) (slack entry left : Nat) (x y : Read ε α) : Prop :=
  ∀ r, r.cur ≤ r.buf.length + entry → r.remaining < left → x.run r = y.run r ∧ Proper allowed slack r (x.run r)
/-- What is known of the value that a read returns and of the state behind it. -/
def Returns (P : α → Buffered → Prop) (x : Read ε α) : Prop := ∀ r a after, x.run r = (.ok a,after) → P a after
/-- The position is in the buffer or at its end. -/
def Buffered.Inside (r : Buffered) : Prop := r.cur ≤ r.buf.length
/-- What is known of the value that a read returns and of the states before and behind it. -/
def Relates (P : Buffered → α → Buffered → Prop) (x : Read ε α) : Prop := ∀ r a after, x.run r = (.ok a,after) → P r a after
/-- A read that returns has moved, and stands inside the buffer. -/
def Moves (x : Read ε α) : Prop := Relates (fun r _ after => r.cur < after.cur ∧ after.Inside) x
/-- A round that goes on has moved, from inside the buffer. -/
def Progresses (slack left : Nat) (round : Read ε (σ ⊕ β)) : Prop :=
  ∀ r next after, r.cur ≤ r.buf.length + slack → r.remaining < left → round.run r = (.ok (.inl next),after) →
    r.cur < after.cur ∧ r.cur < r.buf.length

section
variable {allowed : ε → Prop} {slack entry left : Nat} {x y : Read ε α} {f g : α → Read ε β}

theorem settles_mono {entry' left' : Nat} (settled : Settles allowed slack entry left x y) (from_here : entry' ≤ entry)
    (fewer : left' ≤ left) : Settles allowed slack entry' left' x y :=
  fun r starts few => settled r (by omega) (by omega)

theorem proper_trans {r after : Buffered} {outcome : Except ε α} {out : Except ε β × Buffered}
    (first : Proper allowed slack r (outcome,after)) (later : Proper allowed slack after out) : Proper allowed slack r out where
  same := later.same.trans first.same
  forward := first.forward.trans later.forward
  near := by rw [← first.same]; exact later.near
  error := later.error
theorem proper_error {r after : Buffered} {e : ε} (proper : Proper allowed slack r ((.error e,after) : Except ε α × Buffered)) :
    Proper allowed slack r ((.error e,after) : Except ε β × Buffered) :=
  ⟨proper.same,proper.forward,proper.near,fun e' failed => proper.error e' (by simpa using failed)⟩
/-- What a read does that goes on by the value that another read returns. -/
theorem proper_bind {r : Buffered} (first : Proper allowed slack r (x.run r))
    (later : ∀ a after, x.run r = (.ok a,after) → Proper allowed slack r ((f a).run after)) : Proper allowed slack r ((x >>= f).run r) := by
  rcases ran : x.run r with ⟨outcome,after⟩
  rw [ran] at first
  rw [run_then,ran]
  cases outcome with
  | ok a => exact later a after ran
  | error e => exact proper_error first

/-- One read after another, with what is known of the state between them. -/
theorem settles_bind_at {k : Nat} (first : Settles allowed slack entry left x y)
    (later : ∀ r a after, r.remaining < left → x.run r = (.ok a,after) → Proper allowed slack r (x.run r) →
      after.cur ≤ after.buf.length + k ∧ ∃ few, after.remaining < few ∧ Settles allowed slack k few (f a) (g a)) :
    Settles allowed slack entry left (x >>= f) (y >>= g) := by
  intro r starts few
  obtain ⟨same,proper⟩ := first r starts few
  rw [run_then,run_then,← same]
  rcases ran : x.run r with ⟨outcome,after⟩
  cases outcome with
  | ok a =>
    obtain ⟨close,fewer,less,settled⟩ := later r a after few ran proper
    obtain ⟨agree,rest⟩ := settled after close less
    rw [ran] at proper
    exact ⟨agree,proper_trans proper rest⟩
  | error e =>
    rw [ran] at proper
    exact ⟨rfl,proper_error proper⟩

theorem remaining_le {r : Buffered} {out : Except ε α × Buffered} (proper : Proper allowed slack r out) :
    out.2.remaining ≤ r.remaining := by
  have := proper.forward
  rw [Buffered.remaining,Buffered.remaining,proper.same]
  omega

theorem settles_bind (first : Settles allowed slack entry left x y) (later : ∀ a, Settles allowed slack slack left (f a) (g a)) :
    Settles allowed slack entry left (x >>= f) (y >>= g) := by
  refine settles_bind_at first (k := slack) (fun r a after few ran proper => ?_)
  have fewer := remaining_le proper
  have near := proper.near
  have same := proper.same
  rw [ran] at fewer near same
  exact ⟨by rw [same]; exact near,left,by exact lt_of_le_of_lt fewer few,later a⟩
/-- After a read that stands inside the buffer, with what is known of its value. -/
theorem settles_inside {P : α → Prop} (first : Settles allowed slack entry left x y)
    (returns : Returns (fun a after => after.Inside ∧ P a) x) (later : ∀ a, P a → Settles allowed slack 0 left (f a) (g a)) :
    Settles allowed slack entry left (x >>= f) (y >>= g) := by
  refine settles_bind_at first (k := 0) (fun r a after few ran proper => ?_)
  have fewer := remaining_le proper
  rw [ran] at fewer
  obtain ⟨inside,known⟩ := returns r a after ran
  exact ⟨inside,left,by exact lt_of_le_of_lt fewer few,later a known⟩
/-- After a read that moves, fewer bytes are left. -/
theorem settles_moved (first : Settles allowed slack entry (left + 1) x y) (moves : Moves x)
    (later : ∀ a, Settles allowed slack 0 left (f a) (g a)) : Settles allowed slack entry (left + 1) (x >>= f) (y >>= g) := by
  refine settles_bind_at first (k := 0) (fun r a after few ran proper => ?_)
  have same := proper.same
  rw [ran] at same
  obtain ⟨moved,inside⟩ := moves r a after ran
  refine ⟨inside,left,?_,later a⟩
  rw [Buffered.Inside,same] at inside
  rw [Buffered.remaining] at few ⊢
  rw [same]
  omega

theorem settles_pure (a : α) : Settles allowed slack slack left (pure a : Read ε α) (pure a) :=
  fun _ starts _ => ⟨rfl,rfl,Nat.le_refl _,starts,fun _ failed => nomatch failed⟩
theorem settles_throw {e : ε} (fine : allowed e) : Settles allowed slack slack left (throw e : Read ε α) (throw e) :=
  fun _ starts _ => ⟨rfl,rfl,Nat.le_refl _,starts,fun _ failed => Except.error.inj failed ▸ fine⟩
theorem settles_get {f g : Buffered → Read ε α} (settled : ∀ r, Settles allowed slack entry left (f r) (g r)) :
    Settles allowed slack entry left (get >>= f) (get >>= g) := fun r starts few => settled r r starts few
theorem settles_map {h : α → β} (settled : Settles allowed slack entry left x y) :
    Settles allowed slack entry left (h <$> x) (h <$> y) := by
  rw [← bind_pure_comp,← bind_pure_comp]
  exact settles_bind settled (fun a => settles_pure (h a))

theorem settles_times {x y : Read ε Unit} (settled : Settles allowed slack slack left x y) (n : Nat) :
    Settles allowed slack slack left (times x n) (times y n) := by
  induction n with
  | zero => exact settles_pure ()
  | succ n ih => exact settles_bind settled (fun _ => ih)
theorem settles_collect (settled : Settles allowed slack slack left x y) (n : Nat) :
    Settles allowed slack slack left (collect x n) (collect y n) := by
  induction n with
  | zero => exact settles_pure []
  | succ n ih => exact settles_bind settled (fun a => settles_bind ih (fun rest => settles_pure (a :: rest)))

theorem returns_pure {P : α → Buffered → Prop} {a : α} (holds : ∀ r, P a r) : Returns P (pure a : Read ε α) := by
  intro r b after returned
  obtain ⟨same,rfl⟩ := Prod.mk.inj returned
  obtain rfl := Except.ok.inj same
  exact holds _
theorem returns_throw {P : α → Buffered → Prop} (e : ε) : Returns P (throw e : Read ε α) := fun _ _ _ returned => nomatch returned
theorem returns_any (x : Read ε α) : Returns (fun _ _ => True) x := fun _ _ _ _ => trivial
/-- What is known of the first value is known of the second read. -/
theorem returns_then {P : β → Buffered → Prop} {Q : α → Prop} {f : α → Read ε β} {x : Read ε α} (first : Returns (fun a _ => Q a) x)
    (later : ∀ a, Q a → Returns P (f a)) : Returns P (x >>= f) := by
  intro r b after returned
  rw [run_then] at returned
  rcases ran : x.run r with ⟨outcome,middle⟩
  rw [ran] at returned
  cases outcome with
  | error e => cases returned
  | ok a => exact later a (first r a middle ran) middle b after returned
theorem returns_collect {Q : α → Prop} {x : Read ε α} (each : Returns (fun a _ => Q a) x) (n : Nat) :
    Returns (fun values _ => values.length = n ∧ ∀ a ∈ values, Q a) (collect x n) := by
  induction n with
  | zero => exact returns_pure (fun _ => by simp)
  | succ n ih =>
    refine returns_then each (fun a here => returns_then ih (fun values later => returns_pure (fun _ => ?_)))
    exact ⟨by simp [later.1],List.forall_mem_cons.mpr ⟨here,later.2⟩⟩
theorem returns_map {P : β → Buffered → Prop} {x : Read ε α} {g : α → β} (first : Returns (fun a after => P (g a) after) x) :
    Returns P (g <$> x) := by
  intro r b after returned
  rw [← bind_pure_comp,run_then] at returned
  rcases ran : x.run r with ⟨outcome,middle⟩
  rw [ran] at returned
  cases outcome with
  | error e => cases returned
  | ok a =>
    obtain ⟨same,rfl⟩ := Prod.mk.inj returned
    obtain rfl := Except.ok.inj same
    exact first r a _ ran
/-- What a loop returns is what its last round leaves with, and the rounds before keep an invariant of the accumulator. -/
theorem returns_loop {I : σ → Prop} {P : β → Buffered → Prop} {stuck : ε} {round : σ → Read ε (σ ⊕ β)}
    (rounds : ∀ s, I s → Returns (fun step after => Sum.elim I (fun b => P b after) step) (round s)) {s : σ} (holds : I s) :
    Returns P (loop stuck round s) := by
  have each : ∀ fuel s, I s → Returns P (looped stuck round fuel s) := by
    intro fuel
    induction fuel with
    | zero => exact fun _ _ => returns_throw stuck
    | succ fuel ih =>
      intro s holds r b after returned
      simp only [looped] at returned
      rw [run_then] at returned
      rcases ran : (round s).run r with ⟨outcome,middle⟩
      rw [ran] at returned
      cases outcome with
      | error e => cases returned
      | ok step =>
        have known := rounds s holds r step middle ran
        cases step with
        | inl next => exact ih next known middle b after returned
        | inr c =>
          obtain ⟨same,rfl⟩ := Prod.mk.inj returned
          obtain rfl := Except.ok.inj same
          exact known
  intro r b after returned
  exact each _ s holds r b after (by rwa [loop_run] at returned)
theorem relates_bind {P : Buffered → α → Buffered → Prop} {Q S : Buffered → β → Buffered → Prop} {x : Read ε α} {f : α → Read ε β}
    (first : Relates P x) (later : ∀ a, Relates Q (f a)) (joined : ∀ r a middle b after, P r a middle → Q middle b after → S r b after) :
    Relates S (x >>= f) := by
  intro r b after returned
  rw [run_then] at returned
  rcases ran : x.run r with ⟨outcome,middle⟩
  rw [ran] at returned
  cases outcome with
  | error e => cases returned
  | ok a => exact joined r a middle b after (first r a middle ran) (later a middle b after returned)
theorem relates_pure {P : Buffered → α → Buffered → Prop} {a : α} (holds : ∀ r, P r a r) : Relates P (pure a : Read ε α) := by
  intro r b after returned
  obtain ⟨same,rfl⟩ := Prod.mk.inj returned
  obtain rfl := Except.ok.inj same
  exact holds _
theorem relates_throw {P : Buffered → α → Buffered → Prop} (e : ε) : Relates P (throw e : Read ε α) := fun _ _ _ returned => nomatch returned
theorem relates_mono {P Q : Buffered → α → Buffered → Prop} {x : Read ε α} (first : Relates P x)
    (weaker : ∀ r a after, P r a after → Q r a after) : Relates Q x := fun r a after ran => weaker r a after (first r a after ran)
/-- Rounds that go on, and a last one. -/
theorem relates_loop {R : Buffered → Buffered → Prop} {P : Buffered → β → Buffered → Prop} {stuck : ε} {round : σ → Read ε (σ ⊕ β)}
    (rounds : ∀ s, Relates (fun r step after => Sum.elim (fun _ => R r after) (fun b => P r b after) step) (round s))
    (joined : ∀ r middle b after, R r middle → P middle b after → P r b after) (s : σ) : Relates P (loop stuck round s) := by
  have each : ∀ fuel s, Relates P (looped stuck round fuel s) := by
    intro fuel
    induction fuel with
    | zero => exact fun _ => relates_throw stuck
    | succ fuel ih =>
      intro s r b after returned
      simp only [looped] at returned
      rw [run_then] at returned
      rcases ran : (round s).run r with ⟨outcome,middle⟩
      rw [ran] at returned
      cases outcome with
      | error e => cases returned
      | ok step =>
        have known := rounds s r step middle ran
        cases step with
        | inl next => exact joined r middle b after known (ih next middle b after returned)
        | inr c =>
          obtain ⟨same,rfl⟩ := Prod.mk.inj returned
          obtain rfl := Except.ok.inj same
          exact known
  intro r b after returned
  exact each _ s r b after (by rwa [loop_run] at returned)
theorem returns_catch {P : α → Buffered → Prop} {x : Read ε α} {handle : ε → Read ε α} (tried : Returns P x)
    (handled : ∀ e, Returns P (handle e)) : Returns P (tryCatch x handle) := by
  intro r a after returned
  rcases ran : x.run r with ⟨outcome,middle⟩
  cases outcome with
  | ok b =>
    rw [run_catch_ok ran] at returned
    obtain ⟨same,rfl⟩ := Prod.mk.inj returned
    obtain rfl := Except.ok.inj same
    exact tried r b _ ran
  | error e =>
    rw [run_catch_error ran] at returned
    exact handled e middle a after returned

/-- An exception that is caught. -/
theorem settles_catch {h h' : ε → Read ε α} (settled : Settles allowed slack entry left x y)
    (handled : ∀ e, allowed e → Settles allowed slack slack left (h e) (h' e)) :
    Settles allowed slack entry left (tryCatch x h) (tryCatch y h') := by
  intro r starts few
  obtain ⟨same,proper⟩ := settled r starts few
  rcases ran : x.run r with ⟨outcome,after⟩
  rw [ran] at same proper
  cases outcome with
  | ok a =>
    rw [run_catch_ok ran,run_catch_ok same.symm]
    exact ⟨rfl,proper⟩
  | error e =>
    have fewer := remaining_le proper
    obtain ⟨agree,rest⟩ := handled e (proper.error e rfl) after (by rw [proper.same]; exact proper.near)
      (lt_of_le_of_lt fewer few)
    rw [run_catch_error ran,run_catch_error same.symm]
    exact ⟨agree,proper_trans proper rest⟩

end

section
variable {allowed : ε → Prop} {slack left : Nat} {stuck : ε} {round round' : σ → Read ε (σ ⊕ β)}

/-- A round that moves and then does not go back progresses. -/
theorem progresses_moved {x y : Read ε α} {f : α → Read ε (σ ⊕ β)} (first : Settles allowed slack slack (left + 1) x y)
    (moves : Moves x) (later : ∀ a, ∃ y, Settles allowed slack 0 left (f a) y) : Progresses slack (left + 1) (x >>= f) := by
  intro r next after starts few goes
  rw [run_then] at goes
  have proper := (first r starts few).2
  rcases ran : x.run r with ⟨outcome,middle⟩
  rw [ran] at goes proper
  cases outcome with
  | error e => cases goes
  | ok a =>
    obtain ⟨moved,inside⟩ := moves r a middle ran
    have same : middle.buf = r.buf := proper.same
    rw [Buffered.Inside,same] at inside
    obtain ⟨_,settled⟩ := later a
    have forward := (settled middle (by rw [same]; exact inside) (by rw [Buffered.remaining] at few ⊢; rw [same]; omega)).2.forward
    rw [show (f a).run middle = _ from goes] at forward
    exact ⟨lt_of_lt_of_le moved forward,lt_of_lt_of_le moved inside⟩
/-- A round that ends in a part that progresses does so too. -/
theorem progresses_later {x y : Read ε α} {f : α → Read ε (σ ⊕ β)} (first : Settles allowed slack slack left x y)
    (later : ∀ a, Progresses slack left (f a)) : Progresses slack left (x >>= f) := by
  intro r next after starts few goes
  rw [run_then] at goes
  have proper := (first r starts few).2
  have fewer := remaining_le proper
  rcases ran : x.run r with ⟨outcome,middle⟩
  rw [ran] at goes proper fewer
  cases outcome with
  | error e => cases goes
  | ok a =>
    have same : middle.buf = r.buf := proper.same
    have forward : r.cur ≤ middle.cur := proper.forward
    obtain ⟨moved,inside⟩ := later a middle next after (by rw [same]; exact proper.near) (lt_of_le_of_lt fewer few) goes
    rw [same] at inside
    exact ⟨lt_of_le_of_lt forward moved,lt_of_le_of_lt forward inside⟩

theorem settles_looped (settled : ∀ s, Settles allowed slack slack left (round s) (round' s))
    (progresses : ∀ s, Progresses slack left (round s)) (fuel : Nat) (s : σ) {r : Buffered} (starts : r.cur ≤ r.buf.length + slack)
    (few : r.remaining < left) (enough : r.remaining < fuel) :
    (looped stuck round fuel s).run r = (looped stuck round' fuel s).run r ∧
      Proper allowed slack r ((looped stuck round fuel s).run r) := by
  induction fuel generalizing s r with
  | zero => omega
  | succ fuel ih =>
    obtain ⟨same,proper⟩ := settled s r starts few
    simp only [looped]
    rw [run_then,run_then,← same]
    rcases ran : (round s).run r with ⟨outcome,after⟩
    rw [ran] at proper
    cases outcome with
    | error e => exact ⟨rfl,proper_error proper⟩
    | ok step =>
      cases step with
      | inr b => exact ⟨rfl,⟨proper.same,proper.forward,proper.near,fun _ failed => nomatch failed⟩⟩
      | inl next =>
        obtain ⟨moved,inside⟩ := progresses s r next after starts few ran
        have same := proper.same
        have fewer : after.remaining < r.remaining := by
          rw [Buffered.remaining,Buffered.remaining]
          dsimp only at same
          rw [same]
          omega
        obtain ⟨agree,rest⟩ := ih next (r := after) (by rw [same]; exact proper.near) (by omega) (by omega)
        exact ⟨agree,proper_trans proper rest⟩

/-- A loop whose rounds settle and progress settles. -/
theorem settles_loop (settled : ∀ s, Settles allowed slack slack left (round s) (round' s))
    (progresses : ∀ s, Progresses slack left (round s)) (s : σ) :
    Settles allowed slack slack left (loop stuck round s) (loop stuck round' s) := by
  intro r starts few
  rw [loop_run,loop_run]
  exact settles_looped settled progresses (r.buf.length + 1) s starts few (by rw [Buffered.remaining]; omega)

end

end CppSdk.Cursors

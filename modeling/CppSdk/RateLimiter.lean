import CppSdk.Runtime
import CppSdk.Transition

/-!
The rate limiter of a time window. Its counters are unsigned and what it is asked for is
signed: as long as no call names a negative number of permits and no rollback passes 2^64,
the permits stay below the maximum (`bounded_of_proper`).
-/
namespace CppSdk.RateLimiter
open CppSdk.Transition

/-! ### The limiter -/

/-- `TimeWindowRateLimiter`. -/
structure TimeWindowRateLimiter where
  maxPermitsSize : UInt64
  allowExceedMaxPermitSize : Bool
  currentPermitsSize : UInt64
  timeWindowMS : UInt64
  lastPermitsUpdateTime : UInt64
deriving DecidableEq

/-- A new limiter at a time. -/
def create (maxPermitsSize timeWindowMS : UInt64) (allowExceedMaxPermitSize : Bool) (now : UInt64) : TimeWindowRateLimiter :=
  ⟨maxPermitsSize,allowExceedMaxPermitSize,maxPermitsSize,timeWindowMS,now⟩

variable (l : TimeWindowRateLimiter) (requiredPermits : Int64)

/-- `std::cmp_greater` of the permits and the maximum. -/
def exceeds : Bool := decide ((l.maxPermitsSize.toNat : Int) < requiredPermits.toInt)
/-- The time window is over. -/
def expired (now : UInt64) : Bool := decide (l.timeWindowMS ≤ now - l.lastPermitsUpdateTime)
/-- The count of a new time window, where the old one is over. -/
def refresh (now : UInt64) : TimeWindowRateLimiter :=
  if expired l now then { l with lastPermitsUpdateTime := now,currentPermitsSize := l.maxPermitsSize } else l

/-- `tryAcquire`, at a time. -/
def tryAcquire (now : UInt64) : TimeWindowRateLimiter × Bool :=
  if exceeds l requiredPermits then (l,l.allowExceedMaxPermitSize)
  else
    let l := refresh l now
    if requiredPermits.toInt ≤ l.currentPermitsSize.toNat then
      -- the permits are converted to `uint64_t`
      ({ l with currentPermitsSize := l.currentPermitsSize - requiredPermits.toUInt64 },true)
    else (l,false)

/-- The loop of `acquire`, with the times that its calls of `tryAcquire` read from the
    clock; nothing while it sleeps after the last of them. -/
def waitAcquire (l : TimeWindowRateLimiter) : List UInt64 → Option (TimeWindowRateLimiter × Bool)
  | [] => none
  | now :: later =>
    match tryAcquire l requiredPermits now with
    | (l,true) => some (l,true)
    | (l,false) => waitAcquire l later
/-- `acquire`. -/
def acquire (times : List UInt64) : Option (TimeWindowRateLimiter × Bool) :=
  if exceeds l requiredPermits then some (l,l.allowExceedMaxPermitSize) else waitAcquire requiredPermits l times

/-- `rollback`. -/
def rollback : TimeWindowRateLimiter :=
  let size := l.currentPermitsSize + requiredPermits.toUInt64
  { l with currentPermitsSize := if l.maxPermitsSize < size then l.maxPermitsSize else size }

/-! ### Runs -/

/-- A limiter, and for the record the windows that it has opened and the permits granted and
    rolled back since the last of them. -/
structure State where
  limiter : TimeWindowRateLimiter
  windows : Nat
  granted : Int
  rolledBack : Int

variable (s : State)

/-- `tryAcquire`, and the record. -/
def State.tryAcquire (now : UInt64) : State × Bool :=
  let result := RateLimiter.tryAcquire s.limiter requiredPermits now
  let permits := if result.2 then requiredPermits.toInt else 0
  if exceeds s.limiter requiredPermits = false ∧ expired s.limiter now then
    (⟨result.1,s.windows + 1,permits,0⟩,result.2)
  else ({ s with limiter := result.1,granted := s.granted + permits },result.2)
/-- `waitAcquire`, and the record. -/
def State.waitAcquire (s : State) : List UInt64 → Option State
  | [] => none
  | now :: later =>
    match s.tryAcquire requiredPermits now with
    | (s,true) => some s
    | (s,false) => waitAcquire s later

/-- A call, with what it reads from the clock. -/
inductive Label where
  | tryAcquire (requiredPermits : Int64) (now : UInt64)
  | acquire (requiredPermits : Int64) (times : List UInt64)
  | rollback (requiredPermits : Int64)

/-- Where a call leads. -/
def step (s : State) : Label → Option State
  | .tryAcquire requiredPermits now => some (s.tryAcquire requiredPermits now).1
  | .acquire requiredPermits times =>
    if exceeds s.limiter requiredPermits then some s else s.waitAcquire requiredPermits times
  | .rollback requiredPermits => some
    { s with
      limiter := RateLimiter.rollback s.limiter requiredPermits
      rolledBack := s.rolledBack + requiredPermits.toInt }

/-- A limiter and the calls of its users. -/
def calls (maxPermitsSize timeWindowMS now : UInt64) : System State Label :=
  ⟨⟨create maxPermitsSize timeWindowMS false now,0,0,0⟩,step⟩

/-- The record follows the limiter. -/
theorem tryAcquire_limiter (now : UInt64) :
    ((s.tryAcquire requiredPermits now).1.limiter,(s.tryAcquire requiredPermits now).2) =
      tryAcquire s.limiter requiredPermits now := by
  simp only [State.tryAcquire]
  split <;> rfl
private theorem waitAcquire_limiter (times : List UInt64) :
    (s.waitAcquire requiredPermits times).map State.limiter = (waitAcquire requiredPermits s.limiter times).map Prod.fst := by
  induction times generalizing s with
  | nil => rfl
  | cons now later ih =>
    rw [State.waitAcquire,waitAcquire,← tryAcquire_limiter]
    obtain ⟨t,success⟩ := s.tryAcquire requiredPermits now
    cases success with
    | true => rfl
    | false => exact ih t

/-- The calls of a run change the limiter as the functions do. -/
theorem step_limiter (label : Label) : (step s label).map State.limiter =
    match label with
    | .tryAcquire requiredPermits now => some (tryAcquire s.limiter requiredPermits now).1
    | .acquire requiredPermits times => (acquire s.limiter requiredPermits times).map Prod.fst
    | .rollback requiredPermits => some (rollback s.limiter requiredPermits) := by
  cases label with
  | tryAcquire requiredPermits now => exact congrArg (fun result => some result.1) (tryAcquire_limiter requiredPermits s now)
  | acquire requiredPermits times =>
    simp only [step,acquire]
    split
    · rfl
    · exact waitAcquire_limiter requiredPermits s times
  | rollback requiredPermits => rfl

/-! ### The condition -/

/-- The call names no negative number of permits, and a rollback does not pass 2^64. -/
def Proper (s : State) : Label → Prop
  | .tryAcquire requiredPermits _ => 0 ≤ requiredPermits.toInt
  | .acquire requiredPermits _ => 0 ≤ requiredPermits.toInt
  | .rollback requiredPermits =>
    0 ≤ requiredPermits.toInt ∧ s.limiter.currentPermitsSize.toNat + requiredPermits.toInt < 2 ^ 64

instance (s : State) : ∀ label, Decidable (Proper s label)
  | .tryAcquire requiredPermits _ | .acquire requiredPermits _ => inferInstanceAs (Decidable (0 ≤ requiredPermits.toInt))
  | .rollback requiredPermits => inferInstanceAs
    (Decidable (0 ≤ requiredPermits.toInt ∧ s.limiter.currentPermitsSize.toNat + requiredPermits.toInt < 2 ^ 64))

/-- What proper calls preserve: the permits granted and not rolled back are no more than
    those that are missing. -/
structure Bounded (maxPermitsSize : UInt64) (s : State) : Prop where
  maximum : s.limiter.maxPermitsSize = maxPermitsSize
  strict : s.limiter.allowExceedMaxPermitSize = false
  permits : s.limiter.currentPermitsSize ≤ maxPermitsSize
  balance : s.granted - s.rolledBack ≤ maxPermitsSize.toNat - s.limiter.currentPermitsSize.toNat

/-- A new window has been opened, or there are no more permits than before. -/
def Lowers (s t : State) : Prop :=
  s.windows < t.windows ∨ (s.windows = t.windows ∧ t.limiter.currentPermitsSize ≤ s.limiter.currentPermitsSize)
/-- A call that is no rollback opens a new window or leaves no more permits than before; a
    rollback leaves no fewer. -/
def Monotone (s t : State) : Label → Prop
  | .rollback _ => s.limiter.currentPermitsSize ≤ t.limiter.currentPermitsSize
  | .tryAcquire _ _ | .acquire _ _ => Lowers s t

private theorem lowers_refl (s : State) : Lowers s s := .inr ⟨rfl,UInt64.le_refl _⟩
private theorem lowers_trans {s t u : State} (first : Lowers s t) (second : Lowers t u) : Lowers s u := by
  rcases first with opened | ⟨same,fewer⟩
  · rcases second with again | ⟨same,_⟩
    · exact .inl (Nat.lt_trans opened again)
    · exact .inl (same ▸ opened)
  · rcases second with opened | ⟨same',fewer'⟩
    · exact .inl (same ▸ opened)
    · exact .inr ⟨same.trans same',UInt64.le_trans fewer' fewer⟩

/-! ### Calls -/

variable {l s} {requiredPermits : Int64} {maxPermitsSize : UInt64}

/-- The conversion leaves a number that is not negative. -/
theorem toUInt64_toNat (nonnegative : 0 ≤ requiredPermits.toInt) :
    (requiredPermits.toUInt64.toNat : Int) = requiredPermits.toInt := by
  have value : requiredPermits.toBitVec.toInt = requiredPermits.toInt := rfl
  rw [BitVec.toInt_eq_toNat_cond] at value
  have word : requiredPermits.toUInt64.toNat = requiredPermits.toBitVec.toNat := rfl
  have bound := requiredPermits.toBitVec.isLt
  rw [word]
  split at value <;> omega

/-- A call of `tryAcquire` is refused and leaves the limiter, or takes the permits from what
    the old or a new window has. -/
theorem tryAcquire_cases (nonnegative : 0 ≤ requiredPermits.toInt) (now : UInt64) :
    ((exceeds l requiredPermits = false → expired l now = false) ∧
      tryAcquire l requiredPermits now = (l,exceeds l requiredPermits && l.allowExceedMaxPermitSize)) ∨
    (exceeds l requiredPermits = false ∧ ∃ size : UInt64,
      (size.toNat : Int) = (refresh l now).currentPermitsSize.toNat - requiredPermits.toInt ∧
      tryAcquire l requiredPermits now = ({ refresh l now with currentPermitsSize := size },true)) := by
  cases beyond : exceeds l requiredPermits with
  | true =>
    refine .inl ⟨nofun,?_⟩
    rw [tryAcquire,if_pos beyond,Bool.true_and]
  | false =>
    have within : requiredPermits.toInt ≤ l.maxPermitsSize.toNat := Int.not_lt.mp (of_decide_eq_false beyond)
    simp only [tryAcquire,beyond,Bool.false_eq_true,if_false]
    by_cases enough : requiredPermits.toInt ≤ (refresh l now).currentPermitsSize.toNat
    · refine .inr ⟨trivial,_,?_,if_pos enough⟩
      have word := toUInt64_toNat nonnegative
      rw [UInt64.toNat_sub_of_le _ _ (UInt64.le_iff_toNat_le.mpr (by omega))]
      omega
    · -- a new window has the maximum
      have old : expired l now = false := by
        refine Bool.eq_false_iff.mpr (fun ended => enough ?_)
        rw [refresh,if_pos ended]
        exact within
      have same : refresh l now = l := if_neg (Bool.eq_false_iff.mp old)
      exact .inl ⟨fun _ => old,by rw [if_neg enough,same,Bool.false_and]⟩

/-- A new window has the maximum, an old one what it had. -/
theorem refresh_size (now : UInt64) : (refresh l now).maxPermitsSize = l.maxPermitsSize ∧
    (refresh l now).allowExceedMaxPermitSize = l.allowExceedMaxPermitSize ∧
    (refresh l now).currentPermitsSize = if expired l now then l.maxPermitsSize else l.currentPermitsSize := by
  unfold refresh
  split <;> exact ⟨rfl,rfl,rfl⟩

private theorem bounded_tryAcquire (bounded : Bounded maxPermitsSize s) (nonnegative : 0 ≤ requiredPermits.toInt) (now : UInt64) :
    Bounded maxPermitsSize (s.tryAcquire requiredPermits now).1 ∧ Lowers s (s.tryAcquire requiredPermits now).1 := by
  obtain ⟨maximum,strict,permits,balance⟩ := bounded
  rcases tryAcquire_cases (l := s.limiter) nonnegative now with ⟨old,refused⟩ | ⟨within,size,left,taken⟩
  · have kept : s.tryAcquire requiredPermits now = (s,false) := by
      have closed : ¬ (exceeds s.limiter requiredPermits = false ∧ expired s.limiter now = true) := by
        rintro ⟨within,ended⟩
        rw [old within] at ended
        cases ended
      simp only [State.tryAcquire,refused,strict,Bool.and_false,if_neg closed,Bool.false_eq_true,if_false,Int.add_zero]
    rw [kept]
    exact ⟨⟨maximum,strict,permits,balance⟩,lowers_refl s⟩
  · obtain ⟨sameMaximum,sameStrict,fresh⟩ := refresh_size (l := s.limiter) now
    rw [UInt64.le_iff_toNat_le] at permits
    rw [fresh] at left
    simp only [State.tryAcquire,taken,if_true,within,true_and]
    by_cases ended : expired s.limiter now = true
    · rw [if_pos ended,maximum] at left
      rw [if_pos ended]
      refine ⟨⟨sameMaximum.trans maximum,sameStrict.trans strict,UInt64.le_iff_toNat_le.mpr ?_,?_⟩,.inl (Nat.lt_succ_self _)⟩
      · simp only
        omega
      · simp only
        omega
    · rw [if_neg ended] at left
      rw [if_neg ended]
      refine ⟨⟨sameMaximum.trans maximum,sameStrict.trans strict,UInt64.le_iff_toNat_le.mpr ?_,?_⟩,
        .inr ⟨rfl,UInt64.le_iff_toNat_le.mpr ?_⟩⟩
      · simp only
        omega
      · simp only
        omega
      · simp only
        omega

private theorem bounded_waitAcquire (nonnegative : 0 ≤ requiredPermits.toInt) (times : List UInt64) {s t : State}
    (bounded : Bounded maxPermitsSize s) (acquired : s.waitAcquire requiredPermits times = some t) :
    Bounded maxPermitsSize t ∧ Lowers s t := by
  induction times generalizing s with
  | nil => cases acquired
  | cons now later ih =>
    obtain ⟨next,lower⟩ := bounded_tryAcquire bounded nonnegative now
    rw [State.waitAcquire] at acquired
    split at acquired
    · rename_i found same
      rw [same] at next lower
      exact Option.some.inj acquired ▸ ⟨next,lower⟩
    · rename_i found same
      rw [same] at next lower
      obtain ⟨final,lower'⟩ := ih next acquired
      exact ⟨final,lowers_trans lower lower'⟩

private theorem bounded_rollback (bounded : Bounded maxPermitsSize s) (proper : Proper s (.rollback requiredPermits)) {t : State}
    (stepped : step s (.rollback requiredPermits) = some t) :
    Bounded maxPermitsSize t ∧ Monotone s t (.rollback requiredPermits) := by
  obtain ⟨maximum,strict,permits,balance⟩ := bounded
  obtain ⟨nonnegative,room⟩ := proper
  have word := toUInt64_toNat nonnegative
  have sum : (s.limiter.currentPermitsSize + requiredPermits.toUInt64).toNat =
      s.limiter.currentPermitsSize.toNat + requiredPermits.toUInt64.toNat := by
    rw [UInt64.toNat_add]
    omega
  cases stepped
  rw [UInt64.le_iff_toNat_le] at permits
  by_cases beyond : s.limiter.maxPermitsSize < s.limiter.currentPermitsSize + requiredPermits.toUInt64
  · have size : (rollback s.limiter requiredPermits).currentPermitsSize = s.limiter.maxPermitsSize := if_pos beyond
    rw [UInt64.lt_iff_toNat_lt,sum,maximum] at beyond
    refine ⟨⟨maximum,strict,?_,?_⟩,?_⟩
    · rw [size,maximum]
      exact UInt64.le_refl maxPermitsSize
    · rw [size,maximum]
      simp only
      omega
    · rw [Monotone,size,maximum]
      exact UInt64.le_iff_toNat_le.mpr permits
  · have size : (rollback s.limiter requiredPermits).currentPermitsSize =
        s.limiter.currentPermitsSize + requiredPermits.toUInt64 := if_neg beyond
    rw [UInt64.lt_iff_toNat_lt,sum,maximum] at beyond
    refine ⟨⟨maximum,strict,?_,?_⟩,?_⟩
    · rw [size,UInt64.le_iff_toNat_le,sum]
      omega
    · rw [size,sum]
      simp only
      omega
    · rw [Monotone,size,UInt64.le_iff_toNat_le,sum]
      omega

/-- What a proper call does. -/
theorem bounded_step (bounded : Bounded maxPermitsSize s) {label : Label} (proper : Proper s label) {t : State}
    (stepped : step s label = some t) : Bounded maxPermitsSize t ∧ Monotone s t label := by
  cases label with
  | tryAcquire requiredPermits now =>
    cases stepped
    exact bounded_tryAcquire bounded proper now
  | acquire requiredPermits times =>
    rw [step] at stepped
    split at stepped
    · cases stepped
      exact ⟨bounded,lowers_refl s⟩
    · exact bounded_waitAcquire proper times bounded stepped
  | rollback requiredPermits => exact bounded_rollback bounded proper stepped

/-- In every run of proper calls, whatever the clock says: the permits stay between 0 and
    the maximum, those granted in a window and not rolled back are no more than the maximum,
    and only a new window or a rollback brings permits, which a rollback does not take. -/
theorem bounded_of_proper {timeWindowMS now : UInt64} (reachable : (calls maxPermitsSize timeWindowMS now).Reachable Proper s) :
    (0 ≤ s.limiter.currentPermitsSize ∧ s.limiter.currentPermitsSize ≤ maxPermitsSize) ∧
    s.granted - s.rolledBack ≤ maxPermitsSize.toNat ∧
    ∀ label t, Proper s label → step s label = some t → Monotone s t label := by
  have preserved : ∀ s label t, Bounded maxPermitsSize s → Proper s label → step s label = some t → Bounded maxPermitsSize t :=
    fun s label t bounded proper stepped => (bounded_step bounded proper stepped).1
  have first : Bounded maxPermitsSize (calls maxPermitsSize timeWindowMS now).start := by
    refine ⟨rfl,rfl,UInt64.le_refl _,?_⟩
    simp [calls,create]
  have bounded : Bounded maxPermitsSize s := invariant_of_reachable first preserved reachable
  refine ⟨⟨UInt64.zero_le,bounded.permits⟩,?_,fun label t proper stepped => (bounded_step bounded proper stepped).2⟩
  have := bounded.balance
  omega

/-- Ten permits in windows of a second: seven are taken, three are waited for, five come back. -/
def sampleRun : List Label := [.tryAcquire 7 5,.acquire 4 [6,7,1005],.rollback 5,.tryAcquire 11 1006]

theorem bounded_of_sampleRun : ∃ s : State, s.limiter.currentPermitsSize = 10 ∧ s.windows = 1 ∧
    s.granted - s.rolledBack ≤ 10 ∧ ∀ t, step s (.rollback 3) = some t → Monotone s t (.rollback 3) := by
  have proper : (calls 10 1000 0).Obeys Proper (calls 10 1000 0).start sampleRun := by decide
  obtain ⟨s,reachable,checked⟩ := exists_of_run proper
    (fun s => decide (s.limiter.currentPermitsSize = 10 ∧ s.windows = 1)) (by decide)
  obtain ⟨size,windows⟩ := of_decide_eq_true checked
  obtain ⟨_,net,monotone⟩ := bounded_of_proper reachable
  refine ⟨s,size,windows,net,fun t stepped => monotone (.rollback 3) t ?_ stepped⟩
  rw [Proper,size]
  decide

/-- A negative number of permits raises them above the maximum; a negative rollback takes
    permits that were not granted. -/
theorem bounded_breaks :
    (∃ s : State, (calls 10 1000 0).Reachable Any s ∧ s.limiter.currentPermitsSize = 15) ∧
    ∃ s t : State, (calls 10 1000 0).Reachable Any s ∧ step s (.rollback (-3)) = some t ∧ ¬ Monotone s t (.rollback (-3)) := by
  constructor
  · obtain ⟨s,reachable,checked⟩ := exists_of_run (M := calls 10 1000 0) (obeys_any _ [.tryAcquire (-5) 5])
      (fun s => decide (s.limiter.currentPermitsSize = 15)) (by decide)
    exact ⟨s,reachable,of_decide_eq_true checked⟩
  · refine ⟨_,_,reaches_refl _,rfl,?_⟩
    exact (by decide : ¬ (10 : UInt64) ≤ 7)

end CppSdk.RateLimiter

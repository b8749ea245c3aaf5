import CppSdk.RateLimiter

/-!
The waits of `acquire`. After a refusal it asks for a sleep to the end of the window, in the
signed milliseconds of `std::chrono`, or for one millisecond. The third call of `tryAcquire`
succeeds at the latest, unless the rest of the window does not fit these milliseconds or the
clock is before the start of the window and a sleep takes it past that (`endsWithin_iff`).
-/
namespace CppSdk.AcquireProgress
open CppSdk.RateLimiter

/-! ### The loop -/

section
variable (l : TimeWindowRateLimiter) (requiredPermits : Int64)

/-- What `acquire` asks `sleep_for` for, by the clock after a refusal: a `uint64_t` that is
    converted to the milliseconds of `std::chrono`, or one of them. -/
def sleepMS (nowTimeMS : UInt64) : Int64 :=
  let tempTimeMS := nowTimeMS - l.lastPermitsUpdateTime
  if 0 < tempTimeMS ∧ tempTimeMS < l.timeWindowMS then (l.timeWindowMS - tempTimeMS).toInt64 else 1

/-- The clock between two calls of `tryAcquire`: it does not go back, and a sleep advances it
    by what it is asked for at least. -/
def Sleeps (now later : UInt64) : Prop :=
  ∃ again : UInt64, now ≤ again ∧ again ≤ later ∧ again.toNat + (sleepMS l again).toInt ≤ later.toNat

/-- The times of the calls of `tryAcquire` in a run of the loop, of which all but the last are
    refused. -/
def Waits (l : TimeWindowRateLimiter) : List UInt64 → Prop
  | now :: later :: rest =>
    match tryAcquire l requiredPermits now with
    | (_,true) => False
    | (l,false) => Sleeps l now later ∧ Waits l (later :: rest)
  | _ => True

/-- From a first call on there are no more than so many calls of `tryAcquire`, and where there
    are so many `acquire` ends with `true`. -/
def EndsWithin (calls : Nat) (now : UInt64) : Prop :=
  ∀ later, Waits requiredPermits l (now :: later) → (now :: later).length ≤ calls ∧
    ((now :: later).length = calls → ∃ after, acquire l requiredPermits (now :: later) = some (after,true))

/-- Permits are missing and the window is not over; and, where the clock can pass the start of
    the window, it is before that; or else what is left of the window, after its first
    millisecond, is no number of signed milliseconds. -/
def Stalls (now : UInt64) : Prop :=
  l.currentPermitsSize.toNat < requiredPermits.toInt ∧ now - l.lastPermitsUpdateTime < l.timeWindowMS ∧
    ((now < l.lastPermitsUpdateTime ∧ l.lastPermitsUpdateTime.toNat + 1 < 2 ^ 64) ∨
      (max (now - l.lastPermitsUpdateTime).toNat 1 + 2 ^ 63 ≤ l.timeWindowMS.toNat ∧
        (now = l.lastPermitsUpdateTime → l.lastPermitsUpdateTime.toNat + 1 < 2 ^ 64)))
end

variable {l : TimeWindowRateLimiter} {requiredPermits : Int64}

/-! ### Refusals -/

/-- The call is refused: permits are missing and the window is not over. -/
def Refused (l : TimeWindowRateLimiter) (requiredPermits : Int64) (now : UInt64) : Prop :=
  l.currentPermitsSize.toNat < requiredPermits.toInt ∧ now - l.lastPermitsUpdateTime < l.timeWindowMS

private theorem tryAcquire_refused (within : exceeds l requiredPermits = false) {now : UInt64} (refused : Refused l requiredPermits now) :
    tryAcquire l requiredPermits now = (l,false) := by
  obtain ⟨missing,inside⟩ := refused
  have old : ¬expired l now = true := by
    simpa [expired] using inside
  have same : refresh l now = l := if_neg old
  simp only [tryAcquire,within,Bool.false_eq_true,if_false,same]
  rw [if_neg (Int.not_le.mpr missing)]
private theorem tryAcquire_granted (within : exceeds l requiredPermits = false) {now : UInt64} (granted : ¬Refused l requiredPermits now) :
    ∃ after, tryAcquire l requiredPermits now = (after,true) := by
  have enough : requiredPermits.toInt ≤ (refresh l now).currentPermitsSize.toNat := by
    by_cases ended : expired l now = true
    · rw [refresh,if_pos ended]
      exact Int.not_lt.mp (of_decide_eq_false within)
    · rw [refresh,if_neg ended]
      refine Int.not_lt.mp (fun missing => granted ⟨missing,?_⟩)
      simpa [expired] using ended
  simp only [tryAcquire,within,Bool.false_eq_true,if_false]
  exact ⟨_,if_pos enough⟩

/-- A run goes on after a call exactly if it is refused. -/
theorem waits_cons (within : exceeds l requiredPermits = false) (now later : UInt64) (rest : List UInt64) :
    Waits requiredPermits l (now :: later :: rest) ↔
      Refused l requiredPermits now ∧ Sleeps l now later ∧ Waits requiredPermits l (later :: rest) := by
  rw [Waits]
  by_cases refused : Refused l requiredPermits now
  · rw [tryAcquire_refused within refused]
    exact (and_iff_right refused).symm
  · obtain ⟨after,granted⟩ := tryAcquire_granted within refused
    rw [granted]
    exact iff_of_false id (fun both => refused both.1)

/-! ### Sleeps -/

private theorem sub_toNat (a b : UInt64) : (a - b).toNat = if b ≤ a then a.toNat - b.toNat else a.toNat + 2 ^ 64 - b.toNat := by
  have small := a.toNat_lt
  have smaller := b.toNat_lt
  rw [UInt64.toNat_sub]
  simp only [UInt64.le_iff_toNat_le]
  split <;> omega

theorem toInt_toInt64 (a : UInt64) : a.toInt64.toInt = if a.toNat < 2 ^ 63 then (a.toNat : Int) else a.toNat - 2 ^ 64 := by
  have word : a.toBitVec.toNat = a.toNat := rfl
  rw [← Int64.toInt_toBitVec,UInt64.toBitVec_toInt64,BitVec.toInt_eq_toNat_cond,word]
  split <;> split <;> omega

/-- The sleep to the end of the window, where it is a number of signed milliseconds; none at
    all where it is not; and a millisecond. -/
theorem sleepMS_cases (l : TimeWindowRateLimiter) (now : UInt64) {elapsed : Nat} (since : (now - l.lastPermitsUpdateTime).toNat = elapsed) :
    (0 < elapsed ∧ elapsed < l.timeWindowMS.toNat ∧ l.timeWindowMS.toNat < elapsed + 2 ^ 63 ∧
      (sleepMS l now).toInt = l.timeWindowMS.toNat - elapsed) ∨
    (0 < elapsed ∧ elapsed + 2 ^ 63 ≤ l.timeWindowMS.toNat ∧ (sleepMS l now).toInt < 0) ∨
    ((elapsed = 0 ∨ l.timeWindowMS.toNat ≤ elapsed) ∧ (sleepMS l now).toInt = 1) := by
  have window := l.timeWindowMS.toNat_lt
  by_cases inside : 0 < now - l.lastPermitsUpdateTime ∧ now - l.lastPermitsUpdateTime < l.timeWindowMS
  · have left : (sleepMS l now) = (l.timeWindowMS - (now - l.lastPermitsUpdateTime)).toInt64 := if_pos inside
    rw [UInt64.lt_iff_toNat_lt,UInt64.lt_iff_toNat_lt,since] at inside
    obtain ⟨positive,below⟩ := inside
    have nonzero : 0 < elapsed := positive
    have rest : (l.timeWindowMS - (now - l.lastPermitsUpdateTime)).toNat = l.timeWindowMS.toNat - elapsed := by
      rw [sub_toNat,since,if_pos (UInt64.le_iff_toNat_le.mpr (by omega))]
    have value := toInt_toInt64 (l.timeWindowMS - (now - l.lastPermitsUpdateTime))
    rw [← left,rest] at value
    split at value <;> omega
  · have one : sleepMS l now = 1 := if_neg inside
    rw [UInt64.lt_iff_toNat_lt,UInt64.lt_iff_toNat_lt,since] at inside
    have outside : ¬(0 < elapsed ∧ elapsed < l.timeWindowMS.toNat) := inside
    rw [one]
    exact .inr (.inr ⟨by omega,rfl⟩)

/-! ### Three calls -/

/-- What is known of the window at a call that is refused. -/
theorem inside_of_refused {now : UInt64} (refused : Refused l requiredPermits now) :
    (now - l.lastPermitsUpdateTime).toNat < l.timeWindowMS.toNat := UInt64.lt_iff_toNat_lt.mp refused.2

/-- A sleep that starts in the window, at its start or after, ends it, if its rest is a number
    of signed milliseconds; the first sleep of one millisecond leads there. -/
theorem refused_after {now later : UInt64} (sleeps : Sleeps l now later) (refused : Refused l requiredPermits later)
    (started : l.lastPermitsUpdateTime ≤ now)
    (short : l.timeWindowMS.toNat < max (now - l.lastPermitsUpdateTime).toNat 1 + 2 ^ 63) :
    now = l.lastPermitsUpdateTime ∧ l.lastPermitsUpdateTime < later := by
  obtain ⟨again,first,second,slept⟩ := sleeps
  have inside := inside_of_refused refused
  have cases := sleepMS_cases l again rfl
  rw [UInt64.le_iff_toNat_le] at started first second
  have since := sub_toNat now l.lastPermitsUpdateTime
  have sinceAgain := sub_toNat again l.lastPermitsUpdateTime
  have sinceLater := sub_toNat later l.lastPermitsUpdateTime
  rw [if_pos (UInt64.le_iff_toNat_le.mpr (by omega))] at since sinceAgain sinceLater
  rw [← UInt64.toNat_inj,UInt64.lt_iff_toNat_lt]
  omega

/-- Before the start of a window that is the last time of the clock, a sleep ends the window
    or leads to its start. -/
theorem refused_before {now later : UInt64} (sleeps : Sleeps l now later) (refused : Refused l requiredPermits later)
    (last : l.lastPermitsUpdateTime.toNat + 1 = 2 ^ 64) (before : now < l.lastPermitsUpdateTime)
    (short : l.timeWindowMS.toNat < (now - l.lastPermitsUpdateTime).toNat + 2 ^ 63) : later = l.lastPermitsUpdateTime := by
  obtain ⟨again,first,second,slept⟩ := sleeps
  have inside := inside_of_refused refused
  have cases := sleepMS_cases l again rfl
  have bound := later.toNat_lt
  have since := sub_toNat now l.lastPermitsUpdateTime
  have sinceAgain := sub_toNat again l.lastPermitsUpdateTime
  have sinceLater := sub_toNat later l.lastPermitsUpdateTime
  simp only [UInt64.le_iff_toNat_le,UInt64.lt_iff_toNat_lt] at first second before since sinceAgain sinceLater
  rw [if_neg (by omega)] at since
  rw [← UInt64.toNat_inj]
  split at sinceAgain <;> split at sinceLater <;> omega
/-- The clock does not pass its last time. -/
theorem not_sleeps_last {now later : UInt64} (last : l.lastPermitsUpdateTime.toNat + 1 = 2 ^ 64) (at_start : now = l.lastPermitsUpdateTime) :
    ¬Sleeps l now later := by
  rintro ⟨again,first,_,slept⟩
  have bound := later.toNat_lt
  have boundAgain := again.toNat_lt
  have cases := sleepMS_cases l again rfl
  have sinceAgain := sub_toNat again l.lastPermitsUpdateTime
  rw [at_start,UInt64.le_iff_toNat_le] at first
  rw [if_pos (UInt64.le_iff_toNat_le.mpr first)] at sinceAgain
  omega

/-- After two refusals the call is granted. -/
theorem third_granted {now later third : UInt64} (refused : Refused l requiredPermits now) (sleeps : Sleeps l now later)
    (again : Refused l requiredPermits later) (more : Sleeps l later third) (proceeds : ¬Stalls l requiredPermits now) :
    ¬Refused l requiredPermits third := by
  intro refusedThird
  obtain ⟨after,start⟩ := not_or.mp (fun stalls => proceeds ⟨refused.1,refused.2,stalls⟩)
  by_cases started : l.lastPermitsUpdateTime ≤ now
  · by_cases short : l.timeWindowMS.toNat < max (now - l.lastPermitsUpdateTime).toNat 1 + 2 ^ 63
    · obtain ⟨at_start,passed⟩ := refused_after sleeps again started short
      have none : (now - l.lastPermitsUpdateTime).toNat = 0 := by rw [at_start,UInt64.sub_self]; rfl
      have shortLater : l.timeWindowMS.toNat < max (later - l.lastPermitsUpdateTime).toNat 1 + 2 ^ 63 := by omega
      have back := refused_after more refusedThird (UInt64.le_of_lt passed) shortLater
      rw [back.1] at passed
      exact UInt64.lt_irrefl _ passed
    · obtain ⟨at_start,last⟩ := Classical.not_imp.mp (fun reach => start ⟨Nat.not_lt.mp short,reach⟩)
      have bound := l.lastPermitsUpdateTime.toNat_lt
      exact not_sleeps_last (by omega) at_start sleeps
  · have before : now < l.lastPermitsUpdateTime := UInt64.not_le.mp started
    have bound := l.lastPermitsUpdateTime.toNat_lt
    have last : l.lastPermitsUpdateTime.toNat + 1 = 2 ^ 64 := by
      have most := not_and.mp after before
      omega
    have positive : 0 < (now - l.lastPermitsUpdateTime).toNat := by
      rw [sub_toNat,if_neg started]
      omega
    have differs : now ≠ l.lastPermitsUpdateTime := UInt64.ne_of_lt before
    have short : l.timeWindowMS.toNat < (now - l.lastPermitsUpdateTime).toNat + 2 ^ 63 :=
      Nat.not_le.mp (fun long => start ⟨by omega,fun same => absurd same differs⟩)
    exact not_sleeps_last last (refused_before sleeps again last before short) more

/-- Three refusals in a run. -/
theorem not_endsWithin (within : exceeds l requiredPermits = false) {now later third : UInt64} (first : Refused l requiredPermits now)
    (sleeps : Sleeps l now later) (second : Refused l requiredPermits later) (more : Sleeps l later third)
    (last : Refused l requiredPermits third) : ¬EndsWithin l requiredPermits 3 now := by
  intro ends
  have waits : Waits requiredPermits l [now,later,third] :=
    (waits_cons within _ _ _).mpr ⟨first,sleeps,(waits_cons within _ _ _).mpr ⟨second,more,trivial⟩⟩
  obtain ⟨after,acquired⟩ := (ends [later,third] waits).2 rfl
  simp only [acquire,within,Bool.false_eq_true,if_false,waitAcquire,tryAcquire_refused within first,tryAcquire_refused within second,
    tryAcquire_refused within last] at acquired
  cases acquired

/-- A sleep that is over at once, for a rest of the window that is no number of signed
    milliseconds. -/
theorem sleeps_none {now : UInt64} (started : 0 < (now - l.lastPermitsUpdateTime).toNat)
    (long : (now - l.lastPermitsUpdateTime).toNat + 2 ^ 63 ≤ l.timeWindowMS.toNat) : Sleeps l now now := by
  refine ⟨now,UInt64.le_refl now,UInt64.le_refl now,?_⟩
  have cases := sleepMS_cases l now rfl
  omega
/-- A sleep of a millisecond from the start of the window. -/
theorem sleeps_one {now later : UInt64} (at_start : now = l.lastPermitsUpdateTime) (next : later.toNat = now.toNat + 1) :
    Sleeps l now later := by
  refine ⟨now,UInt64.le_refl now,UInt64.le_iff_toNat_le.mpr (by omega),?_⟩
  have cases := sleepMS_cases l now rfl
  rw [at_start,UInt64.sub_self] at cases
  have none : (0 : UInt64).toNat = 0 := rfl
  rw [at_start] at next ⊢
  omega

/-- Where the wait stalls there is a run of three refusals. -/
theorem not_endsWithin_of_stalls (within : exceeds l requiredPermits = false) {now : UInt64} (stalls : Stalls l requiredPermits now) :
    ¬EndsWithin l requiredPermits 3 now := by
  obtain ⟨missing,inside,reason⟩ := stalls
  have refused : ∀ {time : UInt64}, (time - l.lastPermitsUpdateTime).toNat < l.timeWindowMS.toNat → Refused l requiredPermits time :=
    fun inside => ⟨missing,UInt64.lt_iff_toNat_lt.mpr inside⟩
  have elapsed := UInt64.lt_iff_toNat_lt.mp inside
  have since := sub_toNat now l.lastPermitsUpdateTime
  have start : (l.lastPermitsUpdateTime - l.lastPermitsUpdateTime).toNat = 0 := by rw [UInt64.sub_self]; rfl
  -- a millisecond after the start of the window
  have next : l.lastPermitsUpdateTime.toNat + 1 < 2 ^ 64 → ∃ next : UInt64, next.toNat = l.lastPermitsUpdateTime.toNat + 1 ∧
      (next - l.lastPermitsUpdateTime).toNat = 1 := by
    intro reach
    have value : (UInt64.ofNat (l.lastPermitsUpdateTime.toNat + 1)).toNat = l.lastPermitsUpdateTime.toNat + 1 :=
      UInt64.toNat_ofNat_of_lt' reach
    refine ⟨_,value,?_⟩
    rw [sub_toNat,value,if_pos (UInt64.le_iff_toNat_le.mpr (by omega))]
    omega
  rcases reason with ⟨before,reach⟩ | ⟨long,reach⟩
  · obtain ⟨next,value,one⟩ := next reach
    rw [if_neg (UInt64.not_le.mpr before)] at since
    have bound := l.timeWindowMS.toNat_lt
    have passes : Sleeps l now l.lastPermitsUpdateTime := by
      refine ⟨now,UInt64.le_refl now,UInt64.le_of_lt before,?_⟩
      have cases := sleepMS_cases l now rfl
      have earlier := UInt64.lt_iff_toNat_lt.mp before
      omega
    have earlier := UInt64.lt_iff_toNat_lt.mp before
    have small := l.lastPermitsUpdateTime.toNat_lt
    exact not_endsWithin within (refused elapsed) passes (refused (by omega)) (sleeps_one rfl value) (refused (by omega))
  · by_cases at_start : now = l.lastPermitsUpdateTime
    · obtain ⟨next,value,one⟩ := next (reach at_start)
      have none : Sleeps l next next := sleeps_none (by omega) (by omega)
      exact not_endsWithin within (refused elapsed) (sleeps_one at_start (by rw [value,at_start])) (refused (by omega)) none (refused (by omega))
    · have differs : now.toNat ≠ l.lastPermitsUpdateTime.toNat := fun same => at_start (UInt64.toNat_inj.mp same)
      have small := l.lastPermitsUpdateTime.toNat_lt
      have positive : 0 < (now - l.lastPermitsUpdateTime).toNat := by
        rw [since]
        split
        · rename_i after
          have := UInt64.le_iff_toNat_le.mp after
          omega
        · omega
      have none : Sleeps l now now := sleeps_none positive (by omega)
      exact not_endsWithin within (refused elapsed) none (refused elapsed) none (refused elapsed)

/-- Where the wait does not stall there are no more than two refusals. -/
theorem endsWithin_of_proceeds (within : exceeds l requiredPermits = false) {now : UInt64} (proceeds : ¬Stalls l requiredPermits now) :
    EndsWithin l requiredPermits 3 now := by
  intro later waits
  match later with
  | [] => exact ⟨by simp,by simp⟩
  | [_] => exact ⟨by simp,by simp⟩
  | second :: third :: rest =>
    obtain ⟨refused,sleeps,waits⟩ := (waits_cons within _ _ _).mp waits
    obtain ⟨again,more,waits⟩ := (waits_cons within _ _ _).mp waits
    have granted := third_granted refused sleeps again more proceeds
    cases rest with
    | cons fourth rest => exact absurd ((waits_cons within _ _ _).mp waits).1 granted
    | nil =>
      obtain ⟨after,acquired⟩ := tryAcquire_granted within granted
      refine ⟨by simp,fun _ => ⟨after,?_⟩⟩
      simp only [acquire,within,Bool.false_eq_true,if_false,waitAcquire,tryAcquire_refused within refused,
        tryAcquire_refused within again,acquired]

/-- A window of up to 2^63 milliseconds that the clock has entered. -/
theorem endsWithin_of_entered (within : exceeds l requiredPermits = false) (short : l.timeWindowMS.toNat ≤ 2 ^ 63) {now : UInt64}
    (entered : l.lastPermitsUpdateTime ≤ now) : EndsWithin l requiredPermits 3 now := by
  refine endsWithin_of_proceeds within ?_
  rintro ⟨_,_,⟨before,_⟩ | ⟨long,_⟩⟩
  · exact UInt64.not_le.mpr before entered
  · omega

/-- Where permits are asked for that the limiter can have, the third call of `tryAcquire` at
    the latest lets `acquire` end with `true`, on every steady clock and for every sleep,
    exactly if the wait does not stall. -/
theorem endsWithin_iff (within : exceeds l requiredPermits = false) (now : UInt64) :
    EndsWithin l requiredPermits 3 now ↔ ¬Stalls l requiredPermits now :=
  ⟨fun ends stalls => not_endsWithin_of_stalls within stalls ends,endsWithin_of_proceeds within⟩

theorem endsWithin_second : EndsWithin ⟨5,false,0,1000,7⟩ 3 3 7 := by
  refine (endsWithin_iff rfl 7).mpr ?_
  rintro ⟨_,_,⟨before,_⟩ | ⟨long,_⟩⟩
  · exact absurd before (by decide)
  · exact absurd long (by decide)

/-- A rest of the window of 2^63 + 1 milliseconds, and a clock that a sleep takes past the start
    of a window that was to come. -/
theorem acquire_stalls :
    (exceeds ⟨1,false,0,9223372036854775810,0⟩ 1 = false ∧ ¬EndsWithin ⟨1,false,0,9223372036854775810,0⟩ 1 3 1) ∧
    exceeds ⟨1,false,0,18446744073709551615,100⟩ 1 = false ∧ ¬EndsWithin ⟨1,false,0,18446744073709551615,100⟩ 1 3 5 :=
  ⟨⟨rfl,not_endsWithin_of_stalls rfl ⟨by decide,by decide,.inr ⟨by decide,by decide⟩⟩⟩,
    rfl,not_endsWithin_of_stalls rfl ⟨by decide,by decide,.inl ⟨by decide,by decide⟩⟩⟩

end CppSdk.AcquireProgress

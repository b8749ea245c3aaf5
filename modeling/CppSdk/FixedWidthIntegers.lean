import CppSdk.ScaleReads
import CppSdk.WriteLogs

/-!
`decodeInteger` in the arithmetic of its types, with the signed expressions that it evaluates.
It reads what the streams read (`outcome_decodeInteger`). Its one signed expression is the
negation of a negative number, which leaves the range of its type exactly for the least number
of four or eight bytes: shorter types are promoted to `int` (`decodes_iff`).
-/
namespace CppSdk.FixedWidthIntegers
open CppSdk.ByteString CppSdk.Runtime CppSdk.WriteLogs
open CppSdk.ScaleStreams (Width Stream Read DecodeFailure scaleThrows nextByte addBytes signedValue encodeInteger)
open CppSdk.ScaleReads

/-! ### Signed expressions -/

/-- A signed expression in a type of so many bytes, with its value in the integers. -/
structure Expression where
  size : Nat
  value : Int
  deriving DecidableEq

/-- The value is in the range of the type. -/
def Expression.Fits (e : Expression) : Prop := -2 ^ (8 * e.size - 1) ≤ e.value ∧ e.value < 2 ^ (8 * e.size - 1)

instance (e : Expression) : Decidable e.Fits := inferInstanceAs (Decidable (_ ∧ _))

/-- A computation, with the signed expressions that it evaluates. -/
abbrev Computation := Log DecodeFailure Expression

/-- The evaluation of a signed expression: outside the range of its type it is not defined. -/
def evaluate (e : Expression) : Computation Int := do
  Log.write e
  (if e.Fits then .ok e.value else .error .undefined : Read Int)

/-! ### The decoder -/

/-- `sign_bit`. -/
def signBit : List UInt64 :=
  [0x80,0x8000,0x800000,0x80000000,0x8000000000,0x800000000000,0x80000000000000,0x8000000000000000]
/-- `multiplier`. -/
def multiplier : List UInt64 :=
  [0x1,0x100,0x10000,0x1000000,0x100000000,0x10000000000,0x1000000000000,0x100000000000000]

/-- The loop over the bytes, from an index on. -/
def addDigits : Nat → Nat → UInt64 → Stream → Read (UInt64 × Stream)
  | 0, _, v, s => .ok (v,s)
  | count + 1, i, v, s => do
    let (b,s) ← nextByte s
    addDigits count (i + 1) (v + multiplier.getD i 0 * b.toUInt64) s

/-- A conversion to an integral type, modulo the power of two of its size. -/
def convert (signed : Bool) (size : Nat) (v : Int) : Int :=
  if signed then Int.bmod v (2 ^ (8 * size)) else v % 2 ^ (8 * size)
/-- The size of the type that an operand has in an expression: shorter ones become `int`. -/
def promoted : Width → Nat
  | .one | .two | .four => 4
  | .eight => 8

/-- The end of `decodeInteger`: what the type makes of the digits. -/
def fromDigits (signed : Bool) (width : Width) (v : UInt64) : Computation Int :=
  if !signed || v < signBit.getD (width.size - 1) 0 then pure (convert signed width.size v.toNat)
  else do
    let sv ← evaluate ⟨promoted width,-convert signed width.size (~~~v + 1).toNat⟩
    pure (convert signed width.size sv)
/-- `decodeInteger`. -/
def decodeInteger (signed : Bool) (width : Width) (s : Stream) : Computation (Int × Stream) :=
  if !s.hasMore width.size then liftM (scaleThrows "decodeInteger exception for NOT_ENOUGH_DATA" : Read (Int × Stream))
  else do
    let (v,s) ← (addDigits width.size 0 0 s : Read (UInt64 × Stream))
    pure (← fromDigits signed width v,s)

/-! ### What it reads -/

private theorem multiplier_eq : ∀ i < 8, multiplier.getD i 0 = UInt64.ofNat (256 ^ i) := by decide

/-- The loop computes modulo 2^64 what the loop of the streams computes. -/
theorem addDigits_eq (count i v : Nat) (s : Stream) (few : i + count ≤ 8) :
    addDigits count i (UInt64.ofNat v) s = (addBytes count (256 ^ i) v s).map (fun r => (UInt64.ofNat r.1,r.2)) := by
  induction count generalizing i v s with
  | zero => rfl
  | succ count ih =>
    rw [addDigits,addBytes]
    cases nextByte s with
    | error failure => rfl
    | ok next =>
      obtain ⟨b,s⟩ := next
      have sum : UInt64.ofNat v + multiplier.getD i 0 * b.toUInt64 = UInt64.ofNat (v + b.toNat * 256 ^ i) := by
        rw [multiplier_eq i (by omega),UInt64.ofNat_add,UInt64.ofNat_mul,UInt64.ofNat_uInt8ToNat,UInt64.mul_comm]
      rw [read_ok,read_ok]
      dsimp only
      rw [sum,ih (i + 1) _ s (by omega),Nat.pow_succ]

/-- The complement and one more: the number that is missing to 2^64. -/
theorem complement_toNat {v : UInt64} (positive : 0 < v.toNat) : (~~~v + 1).toNat = 2 ^ 64 - v.toNat := by
  have negated : ~~~v + 1 = -v := UInt64.toBitVec_inj.mp (BitVec.neg_eq_not_add v.toBitVec).symm
  have bound := v.toNat_lt
  rw [negated,UInt64.toNat_neg,Nat.mod_eq_of_lt]
  · rfl
  · change 2 ^ 64 - v.toNat < 2 ^ 64
    omega

private theorem signBit_toNat (width : Width) : (signBit.getD (width.size - 1) 0).toNat = 2 ^ (8 * width.size - 1) := by
  cases width <;> rfl

/-- The negation leaves the range of its type exactly for the least number of four or eight
    bytes. -/
theorem fits_negation {width : Width} {x : Int} (low : -2 ^ (8 * width.size - 1) ≤ x) (high : x < 2 ^ (8 * width.size - 1)) :
    Expression.Fits ⟨promoted width,-x⟩ ↔ ¬(4 ≤ width.size ∧ x = -2 ^ (8 * width.size - 1)) := by
  cases width with
  | one | two | four | eight =>
    simp only [Width.size,Expression.Fits,promoted] at low high ⊢
    omega

/-- A value of the type stays as it is. -/
theorem convert_signed {width : Width} {v : Int} (low : -2 ^ (8 * width.size - 1) ≤ v) (high : v < 2 ^ (8 * width.size - 1)) :
    convert true width.size v = v := by
  refine Int.bmod_eq_of_le ?_ ?_
  · cases width <;> exact low
  · cases width <;> exact high
private theorem convert_bounds (width : Width) (v : Int) :
    -2 ^ (8 * width.size - 1) ≤ convert true width.size v ∧ convert true width.size v < 2 ^ (8 * width.size - 1) := by
  have positive : 0 < 2 ^ (8 * width.size) := Nat.two_pow_pos _
  have low := Int.le_bmod (x := v) positive
  have high := Int.bmod_lt (x := v) positive
  cases width <;> exact ⟨low,high⟩

/-- After an evaluation. -/
theorem outcome_evaluate {α : Type} (e : Expression) (next : Int → Computation α) :
    (evaluate e >>= next).outcome = if e.Fits then (next e.value).outcome else .error .undefined := by
  by_cases fits : e.Fits
  · have ends : (evaluate e).outcome = .ok e.value := if_pos fits
    rw [Log.bind_of_ok ends,if_pos fits]
  · have ends : (evaluate e).outcome = .error .undefined := if_neg fits
    rw [Log.bind_of_error ends,if_neg fits]

private theorem outcome_fromDigits (signed : Bool) (width : Width) {n : Nat} (digits : n < 2 ^ (8 * width.size)) :
    (fromDigits signed width (UInt64.ofNat n)).outcome = signedValue signed width.size n := by
  have whole : 2 ^ (8 * width.size) = 2 * 2 ^ (8 * width.size - 1) := by cases width <;> rfl
  have most : 2 ^ (8 * width.size) ≤ 2 ^ 64 := by cases width <;> decide
  have word : (UInt64.ofNat n).toNat = n := UInt64.toNat_ofNat_of_lt' (Nat.lt_of_lt_of_le digits most)
  have less : UInt64.ofNat n < signBit.getD (width.size - 1) 0 ↔ n < 2 ^ (8 * width.size - 1) := by
    rw [UInt64.lt_iff_toNat_lt,word,signBit_toNat]
  rw [fromDigits,signedValue]
  simp only [less,word]
  cases signed with
  | false =>
    have same : convert false width.size n = n := Int.emod_eq_of_lt (Int.natCast_nonneg n) (by exact_mod_cast digits)
    simp only [Bool.not_false,Bool.true_or,if_true,same]
    rfl
  | true =>
    by_cases small : n < 2 ^ (8 * width.size - 1)
    · have negative : (-2 ^ (8 * width.size - 1) : Int) ≤ 0 := Int.neg_nonpos_of_nonneg (by positivity)
      have same : convert true width.size n = n := convert_signed (negative.trans (Int.natCast_nonneg n)) (by exact_mod_cast small)
      simp only [small,decide_true,Bool.or_true,if_true,same]
      rfl
    · have positive : 0 < n := Nat.lt_of_lt_of_le (Nat.two_pow_pos _) (Nat.not_lt.mp small)
      have complement : ((~~~UInt64.ofNat n + 1).toNat : Int) = 2 ^ 64 - n := by
        rw [complement_toNat (by rw [word]; exact positive),word]
        omega
      obtain ⟨low,high⟩ := convert_bounds width (2 ^ 64 - n)
      simp only [small,decide_false,Bool.not_true,Bool.or_false,Bool.false_eq_true,if_false]
      rw [outcome_evaluate,complement]
      simp only [fits_negation low high]
      rw [ite_not]
      rfl

/-- The digits of so many bytes. -/
theorem addBytes_le {count multiplier v n : Nat} {s after : Stream} (read : addBytes count multiplier v s = .ok (n,after)) :
    n + multiplier ≤ v + multiplier * 256 ^ count := by
  induction count generalizing multiplier v s with
  | zero =>
    cases read
    simp
  | succ count ih =>
    rw [addBytes] at read
    cases next : nextByte s with
    | error failure =>
      rw [next] at read
      cases read
    | ok result =>
      obtain ⟨b,later⟩ := result
      rw [next] at read
      have sum := ih read
      have digit : b.toNat * multiplier ≤ 255 * multiplier := Nat.mul_le_mul_right _ (Nat.le_of_lt_succ b.toNat_lt)
      have power : multiplier * 256 ^ (count + 1) = multiplier * 256 * 256 ^ count := by ring
      omega

/-- It reads as the streams do. -/
theorem outcome_decodeInteger (signed : Bool) (width : Width) (s : Stream) :
    (decodeInteger signed width s).outcome = ScaleStreams.decodeInteger signed width.size s := by
  rw [decodeInteger,ScaleStreams.decodeInteger]
  cases s.hasMore width.size with
  | false => rfl
  | true =>
    have few : 0 + width.size ≤ 8 := by cases width <;> decide
    have loop := addDigits_eq width.size 0 0 s few
    rw [Nat.pow_zero] at loop
    simp only [Bool.not_true,Bool.false_eq_true,if_false]
    cases read : addBytes width.size 1 0 s with
    | error failure =>
      rw [read] at loop
      rw [show addDigits width.size 0 0 s = _ from loop]
      rfl
    | ok result =>
      obtain ⟨n,after⟩ := result
      have digits : n < 2 ^ (8 * width.size) := by
        have sum := addBytes_le read
        have power : (256 : Nat) ^ width.size = 2 ^ (8 * width.size) := by rw [Nat.pow_mul]
        omega
      rw [read] at loop
      rw [show addDigits width.size 0 0 s = _ from loop,read_ok]
      have value := outcome_fromDigits signed width digits
      dsimp only
      rw [← value]
      cases ends : (fromDigits signed width (UInt64.ofNat n)).outcome with
      | ok i => exact congrArg Log.outcome (Log.bind_of_ok ends)
      | error failure => exact congrArg Log.outcome (Log.bind_of_error ends)

/-! ### Which expressions are defined -/

private theorem writes_evaluate {e : Expression} (fits : e.Fits) : (evaluate e).Writes Expression.Fits :=
  Log.writes_bind (Log.writes_write fits) (fun _ => Log.writes_lift _)
private theorem fits_fromDigits {signed : Bool} {width : Width} {v : UInt64} {i : Int} (ends : (fromDigits signed width v).outcome = .ok i) :
    (fromDigits signed width v).Writes Expression.Fits := by
  rw [fromDigits] at ends ⊢
  split at ends
  · rename_i positive
    rw [if_pos positive]
    exact Log.writes_pure _
  · rename_i negative
    rw [if_neg negative]
    rw [outcome_evaluate] at ends
    split at ends
    · rename_i fits
      exact Log.writes_bind (writes_evaluate fits) (fun _ => Log.writes_pure _)
    · cases ends

/-- A decoder that returns has evaluated what is defined. -/
theorem fits_decodeInteger {signed : Bool} {width : Width} {s : Stream} {result : Int × Stream}
    (ends : (decodeInteger signed width s).outcome = .ok result) : (decodeInteger signed width s).Writes Expression.Fits := by
  rw [decodeInteger] at ends ⊢
  by_cases more : s.hasMore width.size = true
  · simp only [more,Bool.not_true,Bool.false_eq_true,if_false] at ends ⊢
    obtain ⟨⟨v,after⟩,digits,ended⟩ := Log.bind_ok_iff.mp ends
    obtain ⟨i,value,_⟩ := Log.bind_ok_iff.mp ended
    rw [Log.bind_of_ok digits]
    exact Log.writes_bind (fits_fromDigits value) (fun _ => Log.writes_pure _)
  · simp only [more,Bool.not_false,if_true]
    exact Log.writes_lift _

/-- A number of a type is read from its bytes, whatever is before and behind them, and every
    signed expression on the way is in the range of its type, exactly if the number is not the
    least of a signed type of four or eight bytes. -/
theorem decodes_iff {signed : Bool} {width : Width} {i : Int} (range : InRange signed width i) (front rest : Bytes) :
    ((decodeInteger signed width (between front (encodeInteger width.size i ++ rest))).outcome =
        .ok (i,⟨front ++ (encodeInteger width.size i ++ rest),front.length + width.size⟩) ∧
      (decodeInteger signed width (between front (encodeInteger width.size i ++ rest))).Writes Expression.Fits) ↔
      ¬(signed = true ∧ 4 ≤ width.size ∧ i = -2 ^ (8 * width.size - 1)) := by
  have behind : between (front ++ encodeInteger width.size i) rest =
      ⟨front ++ (encodeInteger width.size i ++ rest),front.length + width.size⟩ := by
    rw [between,List.append_assoc,List.length_append,encodeInteger_length]
  have read := reads_decodeInteger range front rest
  rw [behind,← outcome_decodeInteger] at read
  have negatable : negatableInteger signed width.size i = true ↔ ¬(signed = true ∧ 4 ≤ width.size ∧ i = -2 ^ (8 * width.size - 1)) := by
    rw [negatableInteger,Bool.not_eq_true',← Bool.not_eq_true]
    simp only [Bool.and_eq_true,decide_eq_true_eq,beq_iff_eq,and_assoc]
  rw [← negatable]
  constructor
  · rintro ⟨ends,_⟩
    by_contra least
    rw [read,if_neg least] at ends
    cases ends
  · intro other
    rw [if_pos other] at read
    exact ⟨read,fits_decodeInteger read⟩

theorem decodes_short :
    (decodeInteger true .two (between [7] (encodeInteger 2 (-32768) ++ [9]))).outcome = .ok (-32768,⟨[7,0,0x80,9],3⟩) ∧
      (decodeInteger true .two (between [7] (encodeInteger 2 (-32768) ++ [9]))).Writes Expression.Fits :=
  (decodes_iff (show InRange true .two (-32768) from ⟨by decide,by decide⟩) [7] [9]).mpr (by decide)

/-- The least `int32_t` and the least `int64_t` are negated in their own type. -/
theorem decodes_least :
    (InRange true .four (-2147483648) ∧
      (decodeInteger true .four (between [] (encodeInteger 4 (-2147483648) ++ []))).outcome = .error .undefined ∧
      (decodeInteger true .four (between [] (encodeInteger 4 (-2147483648) ++ []))).writes = [⟨4,2147483648⟩] ∧
      ¬Expression.Fits ⟨4,2147483648⟩) ∧
    InRange true .eight (-9223372036854775808) ∧
      (decodeInteger true .eight (between [] (encodeInteger 8 (-9223372036854775808) ++ []))).outcome = .error .undefined ∧
      (decodeInteger true .eight (between [] (encodeInteger 8 (-9223372036854775808) ++ []))).writes = [⟨8,9223372036854775808⟩] ∧
      ¬Expression.Fits ⟨8,9223372036854775808⟩ := by
  have four : InRange true .four (-2147483648) := ⟨by decide,by decide⟩
  have eight : InRange true .eight (-9223372036854775808) := ⟨by decide,by decide⟩
  refine ⟨⟨four,?_,by decide +kernel,by decide⟩,eight,?_,by decide +kernel,by decide⟩
  · rw [outcome_decodeInteger]
    exact reads_decodeInteger four [] []
  · rw [outcome_decodeInteger]
    exact reads_decodeInteger eight [] []

end CppSdk.FixedWidthIntegers

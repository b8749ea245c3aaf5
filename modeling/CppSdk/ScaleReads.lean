import CppSdk.ScaleStreams
import Mathlib.Tactic.Ring

/-!
Reads from a stream: which bytes a read takes for which value, wherever they lie in a span
(`Reads`), how reads compose, and the bytes of the integral types and of compact integers.
-/
namespace CppSdk.ScaleReads
open CppSdk.ByteString CppSdk.Runtime CppSdk.ScaleStreams

/-! ### Reads -/

/-- The stream over the bytes with the iterator between them. -/
def between (front rest : Bytes) : Stream := ⟨front ++ rest,front.length⟩

@[simp] theorem read_ok {α β : Type} (a : α) (next : α → Read β) : ((.ok a : Read α) >>= next) = next a := rfl
@[simp] theorem read_error {α β : Type} (failure : DecodeFailure) (next : α → Read β) :
    ((.error failure : Read α) >>= next) = .error failure := rfl

/-- One read, then another that knows the value of the first. -/
def andThen {α β : Type} (read : Stream → Read (α × Stream)) (next : α → Stream → Read (β × Stream)) (s : Stream) :
    Read (β × Stream) := do
  let (a,s) ← read s
  next a s
/-- A read whose value is changed. -/
def andReturn {α β : Type} (read : Stream → Read (α × Stream)) (f : α → β) : Stream → Read (β × Stream) :=
  andThen read (fun a s => .ok (f a,s))

/-- Wherever the bytes lie in a span, the read takes them for the value and stops behind
    them, or else it is not defined. -/
def Reads {α : Type} (defined : Bool) (read : Stream → Read (α × Stream)) (bytes : Bytes) (a : α) : Prop :=
  ∀ front rest, read (between front (bytes ++ rest)) =
    if defined then .ok (a,between (front ++ bytes) rest) else .error .undefined

section
variable {α β : Type} {p q : Bool} {read : Stream → Read (α × Stream)} {bytes more : Bytes} {a : α} {b : β}

/-- One read after another. -/
theorem reads_then (next : α → Stream → Read (β × Stream)) (first : Reads p read bytes a)
    (second : Reads q (next a) more b) :
    Reads (p && q) (andThen read next) (bytes ++ more) b := by
  intro front rest
  show (read (between front (bytes ++ more ++ rest)) >>= fun r => next r.1 r.2) = _
  rw [List.append_assoc,first front (more ++ rest)]
  cases p with
  | true =>
    show next a (between (front ++ bytes) (more ++ rest)) = _
    rw [second,List.append_assoc]
    rfl
  | false => rfl

theorem reads_pure (b : β) : Reads true (fun s => .ok (b,s)) [] b := by
  intro front rest
  simp

/-- A read whose result is checked. -/
theorem reads_check {f : α → Read β} (first : Reads p read bytes a) (checked : f a = .ok b) :
    Reads p (andThen read (fun a s => do .ok (← f a,s))) bytes b := by
  have later : Reads true (fun s => do .ok (← f a,s)) [] b := by
    rw [checked]
    exact reads_pure b
  have whole := reads_then (fun a s => do .ok (← f a,s)) first later
  rwa [Bool.and_true,List.append_nil] at whole

/-- A read whose result is changed. -/
theorem reads_map (first : Reads p read bytes a) (f : α → β) :
    Reads p (andReturn read f) bytes (f a) := by
  have whole := reads_then (fun a s => .ok (f a,s)) first (reads_pure (f a))
  rwa [Bool.and_true,List.append_nil] at whole

end

private theorem hasMore_between (front bytes rest : Bytes) : (between front (bytes ++ rest)).hasMore bytes.length = true := by
  simp [between,Stream.hasMore]

theorem reads_nextByte (b : UInt8) : Reads true nextByte [b] b := by
  intro front rest
  have more : (between front ([b] ++ rest)).hasMore 1 = true := hasMore_between front [b] rest
  rw [nextByte,more]
  simp [between]

theorem reads_takeBytes (bytes : Bytes) : Reads true (takeBytes bytes.length) bytes bytes := by
  intro front rest
  have inside : (between front (bytes ++ rest)).currentIndex + bytes.length ≤
      (between front (bytes ++ rest)).span.length := by simp [between]
  rw [takeBytes,if_pos inside]
  simp [between]

theorem reads_addBytes (bytes : Bytes) (multiplier v : Nat) :
    Reads true (addBytes bytes.length multiplier v) bytes (v + multiplier * fromLittleEndian bytes) := by
  induction bytes generalizing multiplier v with
  | nil => exact reads_pure v
  | cons b bytes ih =>
    have rest := ih (multiplier * 256) (v + b.toNat * multiplier)
    have sum : v + b.toNat * multiplier + multiplier * 256 * fromLittleEndian bytes =
        v + multiplier * fromLittleEndian (b :: bytes) := by
      rw [fromLittleEndian]
      ring
    rw [sum] at rest
    exact reads_then (fun b => addBytes bytes.length (multiplier * 256) (v + b.toNat * multiplier)) (reads_nextByte b) rest

/-! ### Numbers -/

theorem encodeInteger_length (size : Nat) (i : Int) : (encodeInteger size i).length = size := toLittleEndian_length _ _

/-- The bytes of a number in the range of its type are its digits. -/
theorem fromLittleEndian_encodeInteger (size : Nat) (i : Int) :
    fromLittleEndian (encodeInteger size i) = (i % 2 ^ (8 * size)).toNat := by
  have range : (256 : Nat) ^ size = 2 ^ (8 * size) := by rw [Nat.pow_mul]
  have positive : (0 : Int) < 2 ^ (8 * size) := by positivity
  have low := Int.emod_nonneg i positive.ne'
  have high := Int.emod_lt_of_pos i positive
  have bound : (i % 2 ^ (8 * size)).toNat < 2 ^ (8 * size) := by
    apply (Int.toNat_lt low).mpr
    exact_mod_cast high
  rw [encodeInteger,fromLittleEndian_toLittleEndian,range,Nat.mod_eq_of_lt bound]

/-- The value is not the least of a type whose negation the decoder makes. -/
def negatableInteger (signed : Bool) (size : Nat) (i : Int) : Bool :=
  !(signed && decide (4 ≤ size) && i == -2 ^ (8 * size - 1))

/-- The number is in the range of the type. -/
def InRange (signed : Bool) (width : Width) (i : Int) : Prop :=
  if signed then -(width.signBit : Int) ≤ i ∧ i < width.signBit else 0 ≤ i ∧ i < 2 * width.signBit

/-- What the decoder negates for a negative number: its absolute value, or the number
    itself where the type has no such value. -/
theorem bmod_absolute {half whole : Nat} {i k : Int} (even : whole = 2 * half) (low : -half ≤ i) (negative : i < 0) :
    Int.bmod (whole * k - (i + whole)) whole = if i = -half then i else -i := by
  have same : (whole : Int) * k - (i + whole) = -i + whole * (k - 1) := by ring
  have rest : ((whole : Int) * k - (i + whole)) % whole = -i := by
    rw [same,Int.add_mul_emod_self_left,Int.emod_eq_of_lt (by omega) (by omega)]
  rw [Int.bmod_def,rest]
  split_ifs <;> omega

private theorem signedValue_negative {size half whole : Nat} {k i : Int} (halfIs : 2 ^ (8 * size - 1) = half)
    (wholeIs : 2 ^ (8 * size) = whole) (even : whole = 2 * half) (divides : (2 : Int) ^ 64 = whole * k) (low : -half ≤ i)
    (negative : i < 0) :
    signedValue true size (i % whole).toNat = if negatableInteger true size i then .ok i else .error .undefined := by
  have spelled : ((i % whole).toNat : Int) = i + whole := by
    rw [← Int.add_emod_right,Int.emod_eq_of_lt (by omega) (by omega)]
    omega
  have large : ¬ (i % whole).toNat < half := by omega
  have least : (2 : Int) ^ (8 * size - 1) = half := by rw [← halfIs]; norm_num
  have negated := bmod_absolute (k := k) even low negative
  rw [← divides] at negated
  simp only [signedValue,Bool.not_true,Bool.false_or,halfIs,wholeIs,large,decide_false,Bool.false_eq_true,if_false,spelled,
    negated,least,negatableInteger]
  by_cases first : i = -half
  · by_cases wide : 4 ≤ size
    · simp [first,wide]
    · have back : Int.bmod (-i) whole = i := by
        rw [Int.bmod_def,Int.emod_eq_of_lt (by omega) (by omega)]
        split_ifs <;> omega
      simp [first,wide] at back ⊢
      exact back
  · have other : -i ≠ -half := by omega
    have back : Int.bmod i whole = i := Int.bmod_eq_of_le (by omega) (by omega)
    simp [first,other,back]

/-- What the decoder makes of the digits of a number. -/
theorem signedValue_eq {width : Width} {signed : Bool} {i : Int} (range : InRange signed width i) :
    signedValue signed width.size (i % 2 ^ (8 * width.size)).toNat =
      if negatableInteger signed width.size i then .ok i else .error .undefined := by
  have even : 2 ^ (8 * width.size) = 2 * width.signBit := by cases width <;> rfl
  have whole : (2 : Int) ^ (8 * width.size) = (2 ^ (8 * width.size) : Nat) := by norm_num
  rw [whole]
  cases signed with
  | false =>
    obtain ⟨low,high⟩ := range
    have same : ((i % (2 ^ (8 * width.size) : Nat)).toNat : Int) = i := by
      rw [Int.emod_eq_of_lt low (by omega)]
      omega
    rw [signedValue,same]
    rfl
  | true =>
    obtain ⟨low,high⟩ := range
    by_cases negative : i < 0
    · obtain ⟨k,divides⟩ : ∃ k : Int, (2 : Int) ^ 64 = (2 ^ (8 * width.size) : Nat) * k := by
        cases width with
        | one => exact ⟨2 ^ 56,rfl⟩
        | two => exact ⟨2 ^ 48,rfl⟩
        | four => exact ⟨2 ^ 32,rfl⟩
        | eight => exact ⟨1,rfl⟩
      exact signedValue_negative rfl rfl even divides low negative
    · have spelled : ((i % (2 ^ (8 * width.size) : Nat)).toNat : Int) = i := by
        rw [Int.emod_eq_of_lt (by omega) (by omega)]
        omega
      have small : (i % (2 ^ (8 * width.size) : Nat)).toNat < 2 ^ (8 * width.size - 1) := by
        show _ < width.signBit
        omega
      have other : negatableInteger true width.size i = true := by
        have least : ¬ i = -2 ^ (8 * width.size - 1) := by
          have : (0 : Int) ≤ 2 ^ (8 * width.size - 1) := by positivity
          have : (0 : Int) < 2 ^ (8 * width.size - 1) := by positivity
          omega
        simp [negatableInteger,least]
      rw [signedValue,other,decide_eq_true small,spelled]
      rfl

theorem reads_decodeInteger {width : Width} {signed : Bool} {i : Int} (range : InRange signed width i) :
    Reads (negatableInteger signed width.size i) (decodeInteger signed width.size) (encodeInteger width.size i) i := by
  intro front rest
  have size := encodeInteger_length width.size i
  have more := hasMore_between front (encodeInteger width.size i) rest
  have digits := reads_addBytes (encodeInteger width.size i) 1 0 front rest
  rw [fromLittleEndian_encodeInteger,Nat.zero_add,Nat.one_mul] at digits
  rw [size] at more digits
  rw [decodeInteger,more,digits]
  show (signedValue signed width.size (i % 2 ^ (8 * width.size)).toNat >>= fun v =>
    .ok (v,between (front ++ encodeInteger width.size i) rest)) = _
  rw [signedValue_eq range]
  split <;> rfl

theorem byteValue_encode {signed : Bool} {i : Int} (range : InRange signed .one i) :
    encodeInteger 1 i = [UInt8.ofNat (i % 256).toNat] ∧ byteValue signed (UInt8.ofNat (i % 256).toNat) = i := by
  have digit : (UInt8.ofNat (i % 256).toNat).toNat = (i % 256).toNat := by
    rw [UInt8.toNat_ofNat']
    omega
  refine ⟨rfl,?_⟩
  rw [byteValue,digit]
  cases signed with
  | false =>
    obtain ⟨low,high⟩ := range
    have : i < 256 := high
    simp only [Bool.false_eq_true,if_false]
    omega
  | true =>
    obtain ⟨low,high⟩ := range
    have : -128 ≤ i := low
    have : i < 128 := high
    simp only [if_true]
    have same : ((i % 256).toNat : Int) = i % 256 := by omega
    rw [same,Int.bmod_def]
    split_ifs <;> omega

theorem reads_decodeIntegral {width : Width} {signed : Bool} {i : Int} (range : InRange signed width i) :
    Reads (negatableInteger signed width.size i) (decodeIntegral signed width) (encodeInteger width.size i) i := by
  by_cases byte : width = .one
  · subst byte
    obtain ⟨bytes,value⟩ := byteValue_encode range
    have read := reads_map (reads_nextByte (UInt8.ofNat (i % 256).toNat)) (byteValue signed)
    rw [value,← bytes] at read
    have defined : negatableInteger signed (Width.size .one) i = true := by simp [negatableInteger,Width.size]
    rw [defined]
    exact read
  · intro front rest
    rw [decodeIntegral,if_neg byte]
    exact reads_decodeInteger range front rest

/-! ### Compact integers -/

theorem lt_countBytes (n : Nat) : n < 256 ^ countBytes n := by
  fun_induction countBytes n with
  | case1 n last => omega
  | case2 n more ih => rw [Nat.pow_succ]; omega

theorem countBytes_le {n k : Nat} (bound : n < 256 ^ (k + 1)) : countBytes n ≤ k + 1 := by
  induction k generalizing n with
  | zero =>
    rw [countBytes,if_pos (by omega)]
  | succ k ih =>
    rw [countBytes]
    split
    · omega
    · have := ih (n := n / 256) (by rw [Nat.pow_succ] at bound; omega)
      omega

private theorem reads_flagged {first : UInt8} {bytes : Bytes} {n : Nat} (rest : Reads true (decodeFlagged first) bytes n) :
    Reads true decodeCompactInteger (first :: bytes) n :=
  reads_then decodeFlagged (reads_nextByte first) rest

private theorem reads_firstCategory {n : Nat} (small : n < 2 ^ 6) : Reads true decodeCompactInteger (encodeFirstCategory n) n := by
  have byte : (UInt8.ofNat (n * 4)).toNat = n * 4 := by rw [UInt8.toNat_ofNat']; omega
  refine reads_flagged (fun front rest => ?_)
  have flag : n * 4 % 4 = 0 := by omega
  have value : n * 4 / 4 = n := by omega
  simp only [decodeFlagged,byte,flag,if_true,value]
  exact reads_pure n front rest

private theorem reads_secondCategory {n : Nat} (small : n < 2 ^ 14) : Reads true decodeCompactInteger (encodeSecondCategory n) n := by
  have whole : (n * 4 % 2 ^ 16 + 1) % 2 ^ 16 = n * 4 + 1 := by omega
  have minor : (UInt8.ofNat ((n * 4 + 1) % 256)).toNat = (n * 4 + 1) % 256 := by rw [UInt8.toNat_ofNat']; omega
  have major : (UInt8.ofNat ((n * 4 + 1) / 256 % 256)).toNat = (n * 4 + 1) / 256 := by rw [UInt8.toNat_ofNat']; omega
  rw [encodeSecondCategory]
  simp only [whole]
  refine reads_flagged (fun front rest => ?_)
  have flag : (n * 4 + 1) % 256 % 4 = 1 := by omega
  have value : ((n * 4 + 1) % 256 / 4 * 4 + (n * 4 + 1) / 256 * 256) / 4 = n := by omega
  have read := reads_map (reads_nextByte (UInt8.ofNat ((n * 4 + 1) / 256 % 256)))
    (fun second => ((n * 4 + 1) % 256 / 4 * 4 + second.toNat * 256) / 4)
  rw [major,value] at read
  simp only [decodeFlagged,minor,flag,one_ne_zero,if_false,if_true]
  exact read front rest

private theorem reads_thirdCategory {n : Nat} (small : n < 2 ^ 30) : Reads true decodeCompactInteger (encodeThirdCategory n) n := by
  have whole : encodeThirdCategory n = UInt8.ofNat (n * 4 + 2) :: toLittleEndian 3 ((n * 4 + 2) / 256) := by
    have value : (((n * 4 + 2) % 2 ^ 32 : Nat) : Int) % 2 ^ (8 * 4) = (n * 4 + 2 : Nat) := by omega
    rw [encodeThirdCategory,encodeInteger,value,Int.toNat_natCast]
    rfl
  have byte : (UInt8.ofNat (n * 4 + 2)).toNat = (n * 4 + 2) % 256 := UInt8.toNat_ofNat'
  rw [whole]
  refine reads_flagged (fun front rest => ?_)
  have flag : (n * 4 + 2) % 256 % 4 = 2 := by omega
  have size : (toLittleEndian 3 ((n * 4 + 2) / 256)).length = 3 := toLittleEndian_length _ _
  have more := hasMore_between front (toLittleEndian 3 ((n * 4 + 2) / 256)) rest
  have digits := reads_map (reads_addBytes (toLittleEndian 3 ((n * 4 + 2) / 256)) 256 ((n * 4 + 2) % 256)) (fun v => v / 4)
  have value : ((n * 4 + 2) % 256 + 256 * ((n * 4 + 2) / 256 % 256 ^ 3)) / 4 = n := by omega
  rw [fromLittleEndian_toLittleEndian,value] at digits
  rw [size] at more digits
  simp only [decodeFlagged,byte,flag,OfNat.ofNat_ne_zero,OfNat.ofNat_ne_one,if_false,if_true,more,Bool.not_true,Bool.false_eq_true]
  exact digits front rest

private theorem reads_bigInteger {n : Nat} (large : 2 ^ 30 ≤ n) (small : n < 2 ^ 536) :
    countBytes n ≤ 67 ∧ Reads true decodeCompactInteger
      (UInt8.ofNat ((countBytes n - 4) * 4 + 3) :: toLittleEndian (countBytes n) n) n := by
  have range : (2 : Nat) ^ 536 = 256 ^ (66 + 1) := by rw [Nat.pow_mul 2 8 67]
  have most : countBytes n ≤ 67 := countBytes_le (range ▸ small)
  have least : 4 ≤ countBytes n := by
    by_contra few
    have bound := lt_countBytes n
    have : 256 ^ countBytes n ≤ 256 ^ 3 := Nat.pow_le_pow_right (by decide) (by omega)
    omega
  refine ⟨most,?_⟩
  have byte : (UInt8.ofNat ((countBytes n - 4) * 4 + 3)).toNat = (countBytes n - 4) * 4 + 3 := by
    rw [UInt8.toNat_ofNat']
    omega
  refine reads_flagged (fun front rest => ?_)
  have flag : ((countBytes n - 4) * 4 + 3) % 4 = 3 := by omega
  have count : ((countBytes n - 4) * 4 + 3) / 4 + 4 = countBytes n := by omega
  have size : (toLittleEndian (countBytes n) n).length = countBytes n := toLittleEndian_length _ _
  have more := hasMore_between front (toLittleEndian (countBytes n) n) rest
  have digits := reads_addBytes (toLittleEndian (countBytes n) n) 1 0
  rw [fromLittleEndian_toLittleEndian,Nat.mod_eq_of_lt (lt_countBytes n),Nat.zero_add,Nat.one_mul] at digits
  rw [size] at more digits
  simp only [decodeFlagged,byte,flag,OfNat.ofNat_ne_zero,OfNat.ofNat_ne_one,if_false,count,more,Bool.not_true,
    Bool.false_eq_true]
  exact digits front rest

/-- The encoder writes every number below 2^536, and the decoder reads it back. -/
theorem compactInteger_reads {n : Nat} (small : n < 2 ^ 536) :
    ∃ bytes, encodeCompactInteger n = .ok bytes ∧ Reads true decodeCompactInteger bytes n := by
  have positive : ¬ (n : Int) < 0 := by omega
  by_cases first : n < 2 ^ 6
  · refine ⟨_,?_,reads_firstCategory first⟩
    rw [encodeCompactInteger,if_neg positive,if_pos (by omega)]
    rfl
  · by_cases second : n < 2 ^ 14
    · refine ⟨_,?_,reads_secondCategory second⟩
      rw [encodeCompactInteger,if_neg positive,if_neg (by omega),if_pos (by omega)]
      rfl
    · by_cases third : n < 2 ^ 30
      · refine ⟨_,?_,reads_thirdCategory third⟩
        rw [encodeCompactInteger,if_neg positive,if_neg (by omega),if_neg (by omega),if_pos (by omega)]
        rfl
      · obtain ⟨most,read⟩ := reads_bigInteger (by omega) small
        refine ⟨_,?_,read⟩
        rw [encodeCompactInteger,if_neg positive,if_neg (by omega),if_neg (by omega),if_neg (by omega)]
        simp only [Int.toNat_natCast]
        rw [if_neg (by omega)]

end CppSdk.ScaleReads

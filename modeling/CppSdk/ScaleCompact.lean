import CppSdk.ScaleReads

/-!
Compact integers on their own. A number from 0 to 2^536 is written in the shortest of its
size classes and read back; any other is refused before a byte is written. The length that
is predicted for a number leaves out the header of the last class (`compactLen_iff`).
-/
namespace CppSdk.ScaleCompact
open CppSdk.ByteString CppSdk.Runtime CppSdk.ScaleStreams CppSdk.ScaleReads

/-- `out << c` for each byte. -/
def pushEach (out : Bytes) : Bytes → Bytes
  | [] => out
  | c :: bytes => pushEach (out ++ [c]) bytes

/-- `encodeCompactInteger` on a stream: how the stream is left, and how the call ends. -/
def writeCompactInteger (value : Int) (out : Bytes) : Bytes × Call Unit :=
  if value < 0 then (out,throws (lit "encodeCompactInteger exception for NEGATIVE_COMPACT_INTEGER"))
  else if value < 2 ^ 6 then (pushEach out (encodeFirstCategory value.toNat),.ok ())
  else if value < 2 ^ 14 then (pushEach out (encodeSecondCategory value.toNat),.ok ())
  else if value < 2 ^ 30 then (pushEach out (encodeThirdCategory value.toNat),.ok ())
  else
    let bigIntLength := countBytes value.toNat
    if 67 < bigIntLength then (out,throws (lit "encodeCompactInteger exception for COMPACT_INTEGER_TOO_BIG"))
    else
      let header := UInt8.ofNat ((bigIntLength - 4) * 4 + 3)
      (pushEach out (header :: toLittleEndian bigIntLength value.toNat),.ok ())

private theorem pushEach_eq (out bytes : Bytes) : pushEach out bytes = out ++ bytes := by
  induction bytes generalizing out with
  | nil => simp [pushEach]
  | cons c bytes ih => simp [pushEach,ih]

/-- The stream takes what the encoder returns, or nothing. -/
theorem writeCompactInteger_eq (value : Int) (out : Bytes) : writeCompactInteger value out =
    (out ++ (encodeCompactInteger value).toOption.getD [],(encodeCompactInteger value).map (fun _ => ())) := by
  rw [writeCompactInteger,encodeCompactInteger]
  by_cases many : 67 < countBytes value.toNat
  · split_ifs <;> simp [many,pushEach_eq,throws,Except.toOption,Except.map]
  · split_ifs <;> simp [many,pushEach_eq,throws,Except.toOption,Except.map]

/-! ### Size classes -/

/-- The bytes of the shortest size class that holds the number: one, two or four, or
    the bytes of the number after a header. -/
inductive SizeClass (n : Nat) : Nat → Prop where
  | single (small : n < 2 ^ 6) : SizeClass n 1
  | double (large : 2 ^ 6 ≤ n) (small : n < 2 ^ 14) : SizeClass n 2
  | four (large : 2 ^ 14 ≤ n) (small : n < 2 ^ 30) : SizeClass n 4
  | big (large : 2 ^ 30 ≤ n) {k : Nat} (least : 4 ≤ k) (most : k ≤ 67) (minimal : 256 ^ (k - 1) ≤ n)
      (holds : n < 256 ^ k) : SizeClass n (1 + k)

private theorem countBytes_positive (n : Nat) : 0 < countBytes n := by
  rw [countBytes]
  split <;> omega
/-- One byte less does not hold the number. -/
theorem countBytes_minimal {n : Nat} (positive : 0 < n) : 256 ^ (countBytes n - 1) ≤ n := by
  induction n using Nat.strong_induction_on with
  | _ n ih =>
    rw [countBytes]
    by_cases last : n / 256 = 0
    · rw [if_pos last]
      exact positive
    · have inner := ih (n / 256) (by omega) (by omega)
      have some := countBytes_positive (n / 256)
      rw [if_neg last,Nat.add_sub_cancel]
      have split : 256 ^ countBytes (n / 256) = 256 ^ (countBytes (n / 256) - 1) * 256 := by
        rw [← Nat.pow_succ]
        congr 1
        omega
      rw [split]
      omega
private theorem countBytes_le_iff {n : Nat} : countBytes n ≤ 67 ↔ n < 2 ^ 536 := by
  have range : (2 : Nat) ^ 536 = 256 ^ (66 + 1) := by rw [Nat.pow_mul 2 8 67]
  constructor
  · intro few
    have wider : 256 ^ countBytes n ≤ 256 ^ (66 + 1) := Nat.pow_le_pow_right (by decide) few
    rw [range]
    exact lt_of_lt_of_le (lt_countBytes n) wider
  · intro small
    exact countBytes_le (range ▸ small)

private theorem encodeThirdCategory_length (n : Nat) : (encodeThirdCategory n).length = 4 := toLittleEndian_length 4 _

/-- What is written is in the shortest size class. -/
theorem sizeClass_of_written {n : Nat} (small : n < 2 ^ 536) {bytes : Bytes} (written : encodeCompactInteger n = .ok bytes) :
    SizeClass n bytes.length := by
  rw [encodeCompactInteger] at written
  simp only [Int.toNat_natCast] at written
  split_ifs at written with negative first second third many
  · cases written
  · cases written
    exact .single (by omega)
  · cases written
    exact .double (by omega) (by omega)
  · cases written
    rw [encodeThirdCategory_length]
    exact .four (by omega) (by omega)
  · cases written
  · cases written
    have large : 2 ^ 30 ≤ n := by omega
    have least : 4 ≤ countBytes n := by
      by_contra few
      have bound := lt_countBytes n
      have : 256 ^ countBytes n ≤ 256 ^ 3 := Nat.pow_le_pow_right (by decide) (by omega)
      omega
    rw [List.length_cons,toLittleEndian_length,Nat.add_comm]
    exact .big large least (by omega) (countBytes_minimal (by omega)) (lt_countBytes n)

private theorem refused_negative {value : Int} (negative : value < 0) : ∃ what, encodeCompactInteger value = throws what :=
  ⟨_,by rw [encodeCompactInteger,if_pos negative]⟩
private theorem refused_large {value : Int} (large : 2 ^ 536 ≤ value) : ∃ what, encodeCompactInteger value = throws what := by
  have beyond : (2 : Int) ^ 30 ≤ value := le_trans (pow_le_pow_right₀ (by decide) (by decide)) large
  have many : 67 < countBytes value.toNat := by
    by_contra few
    have small := countBytes_le_iff.mp (Nat.le_of_not_lt few)
    have : (value.toNat : Int) < 2 ^ 536 := by exact_mod_cast small
    omega
  refine ⟨lit "encodeCompactInteger exception for COMPACT_INTEGER_TOO_BIG",?_⟩
  rw [encodeCompactInteger,if_neg (by omega),if_neg (by omega),if_neg (by omega),if_neg (by omega)]
  exact if_pos many

/-- A number below 2^536 is written in the shortest size class that holds it and read back. -/
theorem writeCompactInteger_small {n : Nat} (small : n < 2 ^ 536) (out : Bytes) :
    ∃ bytes, writeCompactInteger n out = (out ++ bytes,.ok ()) ∧ SizeClass n bytes.length ∧
      ∀ front suffix, decodeCompactInteger (between front (bytes ++ suffix)) = .ok (n,between (front ++ bytes) suffix) := by
  obtain ⟨bytes,written,read⟩ := compactInteger_reads small
  refine ⟨bytes,?_,sizeClass_of_written small written,fun front suffix => ?_⟩
  · rw [writeCompactInteger_eq,written]
    rfl
  · rw [read front suffix,if_pos rfl]

/-- A number from 0 to 2^536 is written in the shortest size class that holds it and read
    back, whatever comes before and after it; any other is refused and the stream stays. -/
theorem writeCompactInteger_spec (value : Int) (out : Bytes) :
    if 0 ≤ value ∧ value < 2 ^ 536 then
      ∃ bytes, writeCompactInteger value out = (out ++ bytes,.ok ()) ∧ SizeClass value.toNat bytes.length ∧
        ∀ front suffix, decodeCompactInteger (between front (bytes ++ suffix)) =
          .ok (value.toNat,between (front ++ bytes) suffix)
    else ∃ what, writeCompactInteger value out = (out,throws what) := by
  split
  · rename_i range
    obtain ⟨n,rfl⟩ := Int.eq_ofNat_of_zero_le range.1
    have small : n < 2 ^ 536 := by exact_mod_cast range.2
    exact writeCompactInteger_small small out
  · rename_i outside
    have refused : ∃ what, encodeCompactInteger value = throws what := by
      by_cases negative : value < 0
      · exact refused_negative negative
      · exact refused_large (not_lt.mp (fun small => outside ⟨by omega,small⟩))
    obtain ⟨what,refused⟩ := refused
    refine ⟨what,?_⟩
    rw [writeCompactInteger_eq,refused]
    exact Prod.ext (List.append_nil out) rfl

/-! ### Predicted lengths -/

/-- `compactLen`. -/
def compactLen (val : Nat) : UInt32 :=
  if val < 2 ^ 6 then 1
  else if val < 2 ^ 14 then 2
  else if val < 2 ^ 30 then 4
  else UInt32.ofNat (countBytes val)

/-- The prediction is one byte short where the number has a header. -/
theorem compactLen_sizeClass {n length : Nat} (small : n < 2 ^ 536) (sizeClass : SizeClass n length) :
    length = (compactLen n).toNat + if n < 2 ^ 30 then 0 else 1 := by
  unfold compactLen
  cases sizeClass with
  | single less =>
    rw [if_pos less,if_pos (by omega)]
    rfl
  | double large less =>
    rw [if_neg (by omega),if_pos less,if_pos (by omega)]
    rfl
  | four large less =>
    rw [if_neg (by omega),if_neg (by omega),if_pos less,if_pos less]
    rfl
  | @big large k least most minimal holds =>
    have few := countBytes_le_iff.mpr small
    have bytes : countBytes n = k := by
      have upper : countBytes n ≤ k := by
        have size : k = k - 1 + 1 := by omega
        exact size ▸ countBytes_le (size ▸ holds)
      by_contra other
      have wider : 256 ^ countBytes n ≤ 256 ^ (k - 1) := Nat.pow_le_pow_right (by decide) (by omega)
      exact absurd (lt_countBytes n) (Nat.not_lt.mpr (le_trans wider minimal))
    rw [if_neg (by omega),if_neg (by omega),if_neg (by omega),if_neg (by omega),bytes,UInt32.toNat_ofNat']
    omega

/-- The predicted length of a value of an unsigned type is that of the bytes that the
    encoder appends exactly if the value is below 2^30. -/
theorem compactLen_iff {width : Nat} (narrow : width ≤ 128) (v : BitVec width) (out : Bytes) :
    (writeCompactInteger v.toNat out).1.length = out.length + (compactLen v.toNat).toNat ↔ v.toNat < 2 ^ 30 := by
  have small : v.toNat < 2 ^ 536 := by
    refine lt_of_lt_of_le v.isLt ?_
    gcongr
    · decide
    · omega
  obtain ⟨bytes,written,sizeClass,_⟩ := writeCompactInteger_small small out
  rw [written,List.length_append,compactLen_sizeClass small sizeClass]
  split <;> omega

theorem compactLen_iff_byte : (writeCompactInteger 64 [7]).1.length = [(7 : UInt8)].length + (compactLen 64).toNat :=
  (compactLen_iff (by decide) (64 : BitVec 8) [7]).mpr (by decide)

/-- 2^30 takes four bytes and a header, which is not predicted. -/
theorem compactLen_short : (writeCompactInteger (1073741824 : BitVec 32).toNat []).1.length = 5 ∧
    compactLen (1073741824 : BitVec 32).toNat = 4 := by
  constructor <;> decide +kernel

end CppSdk.ScaleCompact

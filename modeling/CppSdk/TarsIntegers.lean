import CppSdk.TarsCodecs

/-!
The integers of `Tars.h`. The type that writes an integer leaves no trace in the bytes; a type
reads every integer that it has, and what it makes of another one depends on the width that
its `read` goes through.
-/
namespace CppSdk.TarsIntegers
open CppSdk.ByteString CppSdk.Runtime CppSdk.Cursors CppSdk.TarsStream CppSdk.TarsSafety CppSdk.TarsFields CppSdk.TarsCodecs

/-! ### The types -/

/-- The types with a `write` and a `read` of an integer. -/
inductive IntegerType where
  | bool
  | char
  | short
  | int32
  | int64
  | uint8
  | uint16
  | uint32
  deriving DecidableEq

/-- The type has the integer. -/
def IntegerType.Has : IntegerType → Int → Prop
  | .bool, i => 0 ≤ i ∧ i < 2
  | .char, i => Width.Holds .char i
  | .short, i => Width.Holds .short i
  | .int32, i => Width.Holds .int32 i
  | .int64, i => Width.Holds .int64 i
  | .uint8, i => 0 ≤ i ∧ i < 256
  | .uint16, i => 0 ≤ i ∧ i < 65536
  | .uint32, i => 0 ≤ i ∧ i < 4294967296
/-- The `write` of an integer that the type has. -/
def IntegerType.write : IntegerType → Int → UInt8 → TarsWrite
  | .bool, i => writeBool (i != 0)
  | .char, i => writeChar (Int8.ofInt i)
  | .short, i => writeShort (Int16.ofInt i)
  | .int32, i => writeInt32 (Int32.ofInt i)
  | .int64, i => writeInt64 (Int64.ofInt i)
  | .uint8, i => writeUInt8 (UInt8.ofNat i.toNat)
  | .uint16, i => writeUInt16 (UInt16.ofNat i.toNat)
  | .uint32, i => writeUInt32 (UInt32.ofNat i.toNat)
/-- The required `read`, with the integer that it gives. -/
def IntegerType.read : IntegerType → UInt8 → TarsRead Int
  | .bool, tag => (fun b => if b then 1 else 0) <$> readBool false tag true
  | .char, tag => Int8.toInt <$> readChar 0 tag true
  | .short, tag => Int16.toInt <$> readShort 0 tag true
  | .int32, tag => Int32.toInt <$> readInt32 0 tag true
  | .int64, tag => Int64.toInt <$> readInt64 0 tag true
  | .uint8, tag => (fun n => (n.toNat : Int)) <$> readUInt8 0 tag true
  | .uint16, tag => (fun n => (n.toNat : Int)) <$> readUInt16 0 tag true
  | .uint32, tag => (fun n => (n.toNat : Int)) <$> readUInt32 0 tag true
/-- The width that the `read` goes through. -/
def IntegerType.through : IntegerType → Width
  | .bool => .char
  | .char => .char
  | .short => .short
  | .int32 => .int32
  | .int64 => .int64
  | .uint8 => .short
  | .uint16 => .int32
  | .uint32 => .int64
/-- What the type makes of an integer that this width holds. -/
def IntegerType.convert : IntegerType → Int → Int
  | .bool, i => if i = 0 then 0 else 1
  | .uint8, i => i % 256
  | .uint16, i => i % 65536
  | .uint32, i => i % 4294967296
  | _, i => i

/-- Unsigned types and `Bool` have what they leave as it is. -/
theorem has_iff (type : IntegerType) (i : Int) : type.Has i ↔ Width.Holds type.through i ∧ type.convert i = i := by
  cases type with
  | char | short | int32 | int64 => simp [IntegerType.Has,IntegerType.through,IntegerType.convert]
  | bool =>
    simp only [IntegerType.Has,IntegerType.through,IntegerType.convert,Width.Holds,Width.size]
    norm_num
    split <;> omega
  | uint8 | uint16 | uint32 =>
    simp only [IntegerType.Has,IntegerType.through,IntegerType.convert,Width.Holds,Width.size]
    norm_num
    omega
/-- The widest width holds what any type has. -/
theorem range_of_has {type : IntegerType} {i : Int} (has : type.Has i) : -9223372036854775808 ≤ i ∧ i ≤ 9223372036854775807 :=
  range_of_holds ((has_iff type i).mp has).1

/-! ### Writing -/

/-- A value that is widened is the same number. -/
theorem widened {w v : Nat} (wider : w < v) (x : BitVec w) : (x.setWidth v).toInt = x.toNat := by
  have small := x.isLt
  have twice : 2 * 2 ^ w ≤ 2 ^ v := by
    rw [← Nat.pow_succ']
    exact Nat.pow_le_pow_right (by decide) wider
  rw [BitVec.toInt_eq_toNat_of_lt] <;> rw [BitVec.toNat_setWidth_of_le (Nat.le_of_lt wider)]
  omega

/-- Whatever type writes an integer, the bytes are those of the integer. -/
theorem writes_integer {type : IntegerType} {i : Int} (has : type.Has i) (tag : UInt8) :
    Writes (type.write i tag) ((Wire.integer i).bytes tag) := by
  cases type with
  | bool =>
    obtain ⟨low,high⟩ := has
    obtain rfl | rfl : i = 0 ∨ i = 1 := by omega
    · exact writes_char 0 tag
    · exact writes_char 1 tag
  | char =>
    have same : (Int8.ofInt i).toInt = i := Int8.toInt_ofInt_of_le has.1 has.2
    have written := writes_char (Int8.ofInt i) tag
    rwa [same] at written
  | short =>
    have same : (Int16.ofInt i).toInt = i := Int16.toInt_ofInt_of_le has.1 has.2
    have written := writes_short (Int16.ofInt i) tag
    rwa [same] at written
  | int32 =>
    have same : (Int32.ofInt i).toInt = i := Int32.toInt_ofInt_of_le has.1 has.2
    have written := writes_int32 (Int32.ofInt i) tag
    rwa [same] at written
  | int64 =>
    have same : (Int64.ofInt i).toInt = i := Int64.toInt_ofInt_of_le has.1 has.2
    have written := writes_int64 (Int64.ofInt i) tag
    rwa [same] at written
  | uint8 =>
    obtain ⟨n,rfl⟩ := Int.eq_ofNat_of_zero_le has.1
    have small : n < 2 ^ 8 := Int.ofNat_lt.mp has.2
    have same : (UInt8.ofNat n).toUInt16.toInt16.toInt = n := by
      refine (widened (v := 16) (by decide) (UInt8.ofNat n).toBitVec).trans (congrArg Nat.cast ?_)
      exact UInt8.toNat_ofNat_of_lt' small
    have written := writes_short (UInt8.ofNat n).toUInt16.toInt16 tag
    rwa [same] at written
  | uint16 =>
    obtain ⟨n,rfl⟩ := Int.eq_ofNat_of_zero_le has.1
    have small : n < 2 ^ 16 := Int.ofNat_lt.mp has.2
    have same : (UInt16.ofNat n).toUInt32.toInt32.toInt = n := by
      refine (widened (v := 32) (by decide) (UInt16.ofNat n).toBitVec).trans (congrArg Nat.cast ?_)
      exact UInt16.toNat_ofNat_of_lt' small
    have written := writes_int32 (UInt16.ofNat n).toUInt32.toInt32 tag
    rwa [same] at written
  | uint32 =>
    obtain ⟨n,rfl⟩ := Int.eq_ofNat_of_zero_le has.1
    have small : n < 2 ^ 32 := Int.ofNat_lt.mp has.2
    have same : (UInt32.ofNat n).toUInt64.toInt64.toInt = n := by
      refine (widened (v := 64) (by decide) (UInt32.ofNat n).toBitVec).trans (congrArg Nat.cast ?_)
      exact UInt32.toNat_ofNat_of_lt' small
    have written := writes_int64 (UInt32.ofNat n).toUInt64.toInt64 tag
    rwa [same] at written

/-! ### Reading -/

section
variable {width : Width} {i : Int} (n : Int) (tag : UInt8) (rest : Bytes)

/-- The search for the field that comes next. -/
theorem reads_search (i : Int) : Reads (skipToTag tag) ((Wire.integer i).bytes tag ++ rest) (some ⟨integerHead i,tag⟩) (integerBytes i ++ rest) := by
  rw [Wire.bytes,List.append_assoc]
  exact reads_skipToTag (seeks_found (integerHead_ne i) _)
private theorem reads_held (holds : Width.Holds width i) :
    Reads (readInteger width n tag true) ((Wire.integer i).bytes tag ++ rest) i rest :=
  reads_bind (reads_search tag rest i) (takes_integer holds tag tag rest)
private theorem fails_unheld (low : -9223372036854775808 ≤ i) (high : i ≤ 9223372036854775807) (outside : ¬ Width.Holds width i) :
    Fails (readInteger width n tag true) ((Wire.integer i).bytes tag ++ rest)
      (.throws .mismatch (snprintf 64 (width.mismatch tag ⟨integerHead i,tag⟩))) :=
  fails_later (reads_search tag rest i) (fails_integer low high outside tag ⟨integerHead i,tag⟩ rfl _)
end

/-- A value that is narrowed keeps its last digits. -/
theorem narrowed_toNat {w v : Nat} (narrower : w ≤ v) (i : Int) : (((BitVec.ofInt v i).signExtend w).toNat : Int) = i % 2 ^ w := by
  have divides : (2 ^ w : Int) ∣ 2 ^ v := pow_dvd_pow 2 narrower
  have positive : (0 : Int) < 2 ^ v := by positivity
  rw [BitVec.signExtend_eq_setWidth_of_le _ narrower,BitVec.toNat_setWidth,BitVec.toNat_ofInt]
  push_cast
  rw [Int.toNat_of_nonneg (Int.emod_nonneg i positive.ne'),Int.emod_emod_of_dvd i divides]

/-- The `read` of a type is that of a width with a conversion. -/
theorem read_eq (type : IntegerType) (tag : UInt8) :
    ∃ (n : Int) (g : Int → Int), type.read tag = g <$> readInteger type.through n tag true ∧
      ∀ i, Width.Holds type.through i → g i = type.convert i := by
  cases type with
  | char =>
    refine ⟨0,Int8.toInt ∘ Int8.ofInt,(comp_map _ _ _).symm,fun i holds => ?_⟩
    exact Int8.toInt_ofInt_of_le holds.1 holds.2
  | short =>
    refine ⟨0,Int16.toInt ∘ Int16.ofInt,(comp_map _ _ _).symm,fun i holds => ?_⟩
    exact Int16.toInt_ofInt_of_le holds.1 holds.2
  | int32 =>
    refine ⟨0,Int32.toInt ∘ Int32.ofInt,(comp_map _ _ _).symm,fun i holds => ?_⟩
    exact Int32.toInt_ofInt_of_le holds.1 holds.2
  | int64 =>
    refine ⟨0,Int64.toInt ∘ Int64.ofInt,(comp_map _ _ _).symm,fun i holds => ?_⟩
    exact Int64.toInt_ofInt_of_le holds.1 holds.2
  | bool =>
    refine ⟨0,fun i => if Int8.ofInt i != 0 then 1 else 0,?_,fun i holds => ?_⟩
    · simp only [IntegerType.read,readBool,readChar,Functor.map_map]
      rfl
    · have same : (Int8.ofInt i).toInt = i := Int8.toInt_ofInt_of_le holds.1 holds.2
      by_cases zero : i = 0
      · simp [IntegerType.convert,zero]
      · have other : Int8.ofInt i ≠ 0 := fun none => zero (by rw [← same,none]; rfl)
        simp [IntegerType.convert,zero,other]
  | uint8 =>
    refine ⟨0,fun i => ((Int16.ofInt i).toInt8.toUInt8.toNat : Int),?_,fun i _ => ?_⟩
    · simp only [IntegerType.read,readUInt8,readShort,Functor.map_map]
      rfl
    · exact narrowed_toNat (w := 8) (v := 16) (by decide) i
  | uint16 =>
    refine ⟨0,fun i => ((Int32.ofInt i).toInt16.toUInt16.toNat : Int),?_,fun i _ => ?_⟩
    · simp only [IntegerType.read,readUInt16,readInt32,Functor.map_map]
      rfl
    · exact narrowed_toNat (w := 16) (v := 32) (by decide) i
  | uint32 =>
    refine ⟨0,fun i => ((UInt32.ofNat (i % 4294967296).toNat).toNat : Int),?_,fun i _ => ?_⟩
    · simp only [IntegerType.read,readUInt32,readUInt32With,bind_pure_comp,Functor.map_map]
      rfl
    · simp only [IntegerType.convert,UInt32.toNat_ofNat']
      omega

/-- What a type makes of an integer that any type has written. It gives every integer that it has;
    of another one it throws if the width behind its `read` does not hold it, and else gives a
    number without a word. -/
theorem integer_read_back {writer : IntegerType} {i : Int} (has : writer.Has i) (reader : IntegerType) (tag : UInt8) (rest : Bytes) :
    ∃ bytes, Writes (writer.write i tag) bytes ∧
      (reader.Has i ↔ ∃ left, Reads (reader.read tag) (bytes ++ rest) i left) ∧
      (Width.Holds reader.through i → Reads (reader.read tag) (bytes ++ rest) (reader.convert i) rest) ∧
      (¬ Width.Holds reader.through i → Fails (reader.read tag) (bytes ++ rest)
        (.throws .mismatch (snprintf 64 (reader.through.mismatch tag ⟨integerHead i,tag⟩)))) := by
  obtain ⟨low,high⟩ := range_of_has has
  obtain ⟨n,g,same,converts⟩ := read_eq reader tag
  have reads : Width.Holds reader.through i → Reads (reader.read tag) ((Wire.integer i).bytes tag ++ rest) (reader.convert i) rest := by
    intro holds
    rw [same,← converts i holds]
    exact reads_map (reads_held n tag rest holds) g
  have fails : ¬ Width.Holds reader.through i → Fails (reader.read tag) ((Wire.integer i).bytes tag ++ rest)
      (.throws .mismatch (snprintf 64 (reader.through.mismatch tag ⟨integerHead i,tag⟩))) := by
    intro outside
    rw [same]
    exact fails_map (fails_unheld n tag rest low high outside) g
  refine ⟨_,writes_integer has tag,?_,reads,fails⟩
  rw [has_iff]
  constructor
  · rintro ⟨holds,kept⟩
    have read := reads holds
    rw [kept] at read
    exact ⟨rest,read⟩
  · rintro ⟨left,read⟩
    by_cases holds : Width.Holds reader.through i
    · exact ⟨holds,(reads_unique (reads holds) read).1⟩
    · exact absurd read (not_reads_of_fails (fails holds))

/-- A byte that is read as a `Char`. -/
theorem integer_read_back_byte :
    ∃ bytes, Writes (IntegerType.write .uint8 200 3) bytes ∧
      (IntegerType.Has .char 200 ↔ ∃ left, Reads (IntegerType.read .char 3) (bytes ++ []) 200 left) ∧
      (Width.Holds .char 200 → Reads (IntegerType.read .char 3) (bytes ++ []) (IntegerType.convert .char 200) []) ∧
      (¬ Width.Holds .char 200 → Fails (IntegerType.read .char 3) (bytes ++ [])
        (.throws .mismatch (snprintf 64 (Width.mismatch .char 3 ⟨integerHead 200,3⟩)))) :=
  integer_read_back (show IntegerType.Has .uint8 200 from ⟨by decide,by decide⟩) .char 3 []

end CppSdk.TarsIntegers

import Mathlib.Data.List.Induction
import Mathlib.Tactic.NormNum

/-!
Byte strings: big-endian numbers of a fixed width, zero padding to whole 32-byte
words, lower-case hexadecimal text, decimal text, and where a byte string lies
inside a larger one.
-/
namespace CppSdk.ByteString

/-- A byte string. -/
abbrev Bytes := List UInt8

/-- The bytes of an ASCII literal. -/
def lit (text : String) : Bytes := text.toList.map (fun c => UInt8.ofNat c.toNat)

/-! ### Big-endian numbers -/

/-- The last `width` base-256 digits of a number, most significant first. -/
def toBigEndian : (width : Nat) → Nat → Bytes
  | 0, _ => []
  | width + 1, n => toBigEndian width (n / 256) ++ [UInt8.ofNat n]
/-- The number that base-256 digits spell, most significant first. -/
def fromBigEndian (bytes : Bytes) : Nat := bytes.foldl (fun n b => n * 256 + b.toNat) 0

@[simp] theorem toBigEndian_length (width n : Nat) : (toBigEndian width n).length = width := by
  induction width generalizing n with
  | zero => rfl
  | succ width ih => simp [toBigEndian,ih]

theorem fromBigEndian_append_byte (bytes : Bytes) (b : UInt8) :
    fromBigEndian (bytes ++ [b]) = fromBigEndian bytes * 256 + b.toNat := by
  simp [fromBigEndian,List.foldl_append]

theorem fromBigEndian_toBigEndian (width n : Nat) :
    fromBigEndian (toBigEndian width n) = n % 256 ^ width := by
  induction width generalizing n with
  | zero => simp [toBigEndian,fromBigEndian,Nat.mod_one]
  | succ width ih =>
    have low : (UInt8.ofNat n).toNat = n % 256 := by simp
    rw [toBigEndian,fromBigEndian_append_byte,ih,low,Nat.pow_succ']
    rw [Nat.mod_mul,Nat.mul_comm,Nat.add_comm]

theorem toBigEndian_fromBigEndian (bytes : Bytes) :
    toBigEndian bytes.length (fromBigEndian bytes) = bytes := by
  induction bytes using List.reverseRecOn with
  | nil => rfl
  | append_singleton bytes b ih =>
    have bound : b.toNat < 256 := b.toNat_lt
    rw [fromBigEndian_append_byte,List.length_append,List.length_singleton,toBigEndian]
    have high : (fromBigEndian bytes * 256 + b.toNat) / 256 = fromBigEndian bytes := by omega
    have low : UInt8.ofNat (fromBigEndian bytes * 256 + b.toNat) = b := by
      apply UInt8.toNat_inj.mp
      simp only [UInt8.toNat_ofNat']
      omega
    rw [high,ih,low]

theorem fromBigEndian_lt (bytes : Bytes) : fromBigEndian bytes < 256 ^ bytes.length := by
  induction bytes using List.reverseRecOn with
  | nil => simp [fromBigEndian]
  | append_singleton bytes b ih =>
    have bound : b.toNat < 256 := b.toNat_lt
    rw [fromBigEndian_append_byte,List.length_append,List.length_singleton,Nat.pow_succ]
    omega

/-! ### Little-endian numbers -/

/-- The last `width` base-256 digits of a number, least significant first. -/
def toLittleEndian : (width : Nat) → Nat → Bytes
  | 0, _ => []
  | width + 1, n => UInt8.ofNat n :: toLittleEndian width (n / 256)
/-- The number that base-256 digits spell, least significant first. -/
def fromLittleEndian : Bytes → Nat
  | [] => 0
  | b :: bytes => b.toNat + 256 * fromLittleEndian bytes

@[simp] theorem toLittleEndian_length (width n : Nat) : (toLittleEndian width n).length = width := by
  induction width generalizing n with
  | zero => rfl
  | succ width ih => simp [toLittleEndian,ih]

theorem fromLittleEndian_toLittleEndian (width n : Nat) :
    fromLittleEndian (toLittleEndian width n) = n % 256 ^ width := by
  induction width generalizing n with
  | zero => simp [toLittleEndian,fromLittleEndian,Nat.mod_one]
  | succ width ih =>
    have low : (UInt8.ofNat n).toNat = n % 256 := by simp
    rw [toLittleEndian,fromLittleEndian,ih,low,Nat.pow_succ',Nat.mod_mul]

theorem fromLittleEndian_lt (bytes : Bytes) : fromLittleEndian bytes < 256 ^ bytes.length := by
  induction bytes with
  | nil => simp [fromLittleEndian]
  | cons b bytes ih =>
    have bound : b.toNat < 256 := b.toNat_lt
    rw [fromLittleEndian,List.length_cons,Nat.pow_succ]
    omega

/-! ### Words -/

/-- The 32-byte word of a number; higher digits are dropped. -/
def word (n : Nat) : Bytes := toBigEndian 32 n

@[simp] theorem word_length (n : Nat) : (word n).length = 32 := toBigEndian_length 32 n

theorem fromBigEndian_word {n : Nat} (bound : n < 2 ^ 256) : fromBigEndian (word n) = n := by
  have same : 256 ^ 32 = 2 ^ 256 := by norm_num
  rw [word,fromBigEndian_toBigEndian,same]
  exact Nat.mod_eq_of_lt bound

theorem fromBigEndian_zeros (count : Nat) (bytes : Bytes) :
    fromBigEndian (List.replicate count 0 ++ bytes) = fromBigEndian bytes := by
  induction count with
  | zero => rfl
  | succ count ih => simpa [List.replicate_succ,fromBigEndian] using ih

/-- The word of a short big-endian number is its bytes after zeros. -/
theorem word_fromBigEndian {bytes : Bytes} (short : bytes.length ≤ 32) :
    word (fromBigEndian bytes) = List.replicate (32 - bytes.length) 0 ++ bytes := by
  have size : (List.replicate (32 - bytes.length) 0 ++ bytes).length = 32 := by simp; omega
  have whole := toBigEndian_fromBigEndian (List.replicate (32 - bytes.length) 0 ++ bytes)
  rwa [size,fromBigEndian_zeros] at whole

theorem word_mod (n : Nat) : word (n % 2 ^ 256) = word n := by
  have same : 2 ^ 256 = 256 ^ 32 := by norm_num
  have spelled : ∀ m, word m = toBigEndian 32 (m % 256 ^ 32) := by
    intro m
    have digits := toBigEndian_fromBigEndian (word m)
    rwa [word_length,word,fromBigEndian_toBigEndian,eq_comm] at digits
  rw [same,spelled n,spelled,Nat.mod_mod]

theorem word_injective {m n : Nat} (mBound : m < 2 ^ 256) (nBound : n < 2 ^ 256)
    (same : word m = word n) : m = n := by
  rw [← fromBigEndian_word mBound,← fromBigEndian_word nBound,same]

/-! ### Padding -/

/-- The length rounded up to a whole number of 32-byte words. -/
def padded (length : Nat) : Nat := (length + 31) / 32 * 32
/-- Zero bytes appended up to the next multiple of 32. -/
def padRight (bytes : Bytes) : Bytes := bytes ++ List.replicate (padded bytes.length - bytes.length) 0

theorem le_padded (length : Nat) : length ≤ padded length := by unfold padded; omega
theorem padRight_length (bytes : Bytes) : (padRight bytes).length = padded bytes.length := by
  have := le_padded bytes.length
  simp [padRight]; omega
theorem dvd_padded (length : Nat) : 32 ∣ padded length := ⟨(length + 31) / 32,Nat.mul_comm _ _⟩

/-! ### Occurrences -/

/-- `part` lies in `whole` at position `start`. -/
def Occurs (whole : Bytes) (start : Nat) (part : Bytes) : Prop :=
  ∃ before after, whole = before ++ part ++ after ∧ before.length = start

theorem occurs_middle (before part after : Bytes) :
    Occurs (before ++ part ++ after) before.length part := ⟨before,after,rfl,rfl⟩

theorem occurs_append {whole : Bytes} {start : Nat} {left right : Bytes} :
    Occurs whole start (left ++ right) ↔
      Occurs whole start left ∧ Occurs whole (start + left.length) right := by
  constructor
  · rintro ⟨before,after,rfl,rfl⟩
    exact ⟨⟨before,right ++ after,by simp,rfl⟩,⟨before ++ left,after,by simp,by simp⟩⟩
  · rintro ⟨⟨before,after,split,rfl⟩,⟨before',after',split',length'⟩⟩
    refine ⟨before,after',?_,rfl⟩
    have front : before' = before ++ left := by
      have both : before' ++ (right ++ after') = (before ++ left) ++ after := by
        rw [← List.append_assoc,← split',split]
      exact (List.append_inj both (by simp [length'])).1
    rw [split',front]; simp

theorem occurs_bound {whole : Bytes} {start : Nat} {part : Bytes} (at_start : Occurs whole start part) :
    start + part.length ≤ whole.length := by
  obtain ⟨before,after,rfl,rfl⟩ := at_start
  simp

theorem occurs_slice {whole : Bytes} {start : Nat} {part : Bytes} (at_start : Occurs whole start part) :
    (whole.drop start).take part.length = part := by
  obtain ⟨before,after,rfl,rfl⟩ := at_start
  simp

/-! ### Hexadecimal text -/

/-- The lower-case hexadecimal digit of a number below 16. -/
def hexDigit (n : Nat) : UInt8 := if n < 10 then UInt8.ofNat (48 + n) else UInt8.ofNat (87 + n)
/-- A lower-case hexadecimal digit. -/
def IsHexDigit (c : UInt8) : Prop := (48 ≤ c.toNat ∧ c.toNat ≤ 57) ∨ (97 ≤ c.toNat ∧ c.toNat ≤ 102)
instance (c : UInt8) : Decidable (IsHexDigit c) := inferInstanceAs (Decidable (_ ∨ _))
/-- A text of such digits. -/
def IsHex (text : Bytes) : Prop := ∀ c ∈ text, IsHexDigit c
instance (text : Bytes) : Decidable (IsHex text) := List.decidableBAll _ _
/-- The number a lower-case hexadecimal digit stands for. -/
def hexValue (c : UInt8) : Nat := if c.toNat < 58 then c.toNat - 48 else c.toNat - 87
/-- The lower-case hexadecimal text of bytes, two digits a byte. -/
def toHex : Bytes → Bytes
  | [] => []
  | b :: rest => hexDigit (b.toNat / 16) :: hexDigit (b.toNat % 16) :: toHex rest
/-- The bytes that pairs of lower-case hexadecimal digits spell. -/
def ofHex : Bytes → Bytes
  | high :: low :: rest => UInt8.ofNat (hexValue high * 16 + hexValue low) :: ofHex rest
  | _ => []

theorem hexDigit_toNat {n : Nat} (small : n < 16) :
    (hexDigit n).toNat = if n < 10 then 48 + n else 87 + n := by
  unfold hexDigit
  split <;> simp <;> omega
theorem hexValue_hexDigit {n : Nat} (small : n < 16) : hexValue (hexDigit n) = n := by
  rw [hexValue,hexDigit_toNat small]
  split <;> split <;> omega
theorem hexDigit_isHexDigit {n : Nat} (small : n < 16) : IsHexDigit (hexDigit n) := by
  unfold hexDigit IsHexDigit
  split <;> simp <;> omega

@[simp] theorem toHex_length (bytes : Bytes) : (toHex bytes).length = 2 * bytes.length := by
  induction bytes with
  | nil => rfl
  | cons b rest ih => simp [toHex,ih]; omega
theorem toHex_digits (bytes : Bytes) : IsHex (toHex bytes) := by
  induction bytes with
  | nil => exact fun _ member => (nomatch member)
  | cons b rest ih =>
    have bound : b.toNat < 256 := b.toNat_lt
    intro c member
    simp only [toHex,List.mem_cons] at member
    rcases member with rfl | rfl | later
    · exact hexDigit_isHexDigit (by omega)
    · exact hexDigit_isHexDigit (by omega)
    · exact ih c later

theorem ofHex_toHex (bytes : Bytes) : ofHex (toHex bytes) = bytes := by
  induction bytes with
  | nil => rfl
  | cons b rest ih =>
    have bound : b.toNat < 256 := b.toNat_lt
    have joined : b.toNat / 16 * 16 + b.toNat % 16 = b.toNat := by omega
    simp only [toHex,ofHex]
    rw [hexValue_hexDigit (by omega),hexValue_hexDigit (by omega),joined,ih]
    simp

end CppSdk.ByteString

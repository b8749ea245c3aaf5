import CppSdk.Runtime
import CppSdk.Blanks
import Mathlib.Tactic.IntervalCases

/-!
Texts: the character classes, searches and number formats of the C++ library and of
Boost that the sources use on strings, and what they do to the decimal text of a number.
-/
namespace CppSdk.Texts
open CppSdk.ByteString CppSdk.Runtime

/-! ### Characters -/

/-- `isspace` in the classic locale. -/
def isSpace (c : UInt8) : Bool := c == 32 || (9 ≤ c && c ≤ 13)
/-- `isdigit`. -/
def isDigit (c : UInt8) : Bool := 48 ≤ c && c ≤ 57

/-- `boost::trim`. -/
def trim (text : Bytes) : Bytes := ((text.dropWhile isSpace).reverse.dropWhile isSpace).reverse
/-- `boost::starts_with`. -/
def startsWith (text start : Bytes) : Bool := start.isPrefixOf text
/-- `find` of a string, as far as whether it is found. -/
def contains (part : Bytes) : Bytes → Bool
  | [] => part.isEmpty
  | c :: rest => part.isPrefixOf (c :: rest) || contains part rest
/-- `boost::replace_all` of a string that is not empty; the first argument counts the
    characters left of the last one replaced. -/
def replaceFrom (part replacement : Bytes) : Nat → Bytes → Bytes
  | _, [] => []
  | covered + 1, _ :: rest => replaceFrom part replacement covered rest
  | 0, c :: rest =>
    if part.isPrefixOf (c :: rest) then replacement ++ replaceFrom part replacement (part.length - 1) rest
    else c :: replaceFrom part replacement 0 rest
/-- `boost::replace_all`. -/
def replaceAll (text part replacement : Bytes) : Bytes := replaceFrom part replacement 0 text

/-! ### Numbers -/

/-- The number that digits spell. -/
def digitsValue (digits : Bytes) : Nat := digits.foldl (fun value c => value * 10 + (c.toNat - 48)) 0
/-- The decimal text of a number. -/
def intText (i : Int) : Bytes := if i < 0 then 45 :: stdToString i.natAbs else stdToString i.natAbs

/-- The sign in front of a number, and what follows it. -/
def signOf : Bytes → Bool × Bytes
  | 45 :: rest => (true,rest)
  | 43 :: rest => (false,rest)
  | text => (false,text)
/-- `std::stoi`: blanks, a sign and as many digits as follow, within the range of `int`;
    what comes after them does not matter. -/
def stoi (text : Bytes) : Option Int :=
  let (negative,text) := signOf (text.dropWhile isSpace)
  let digits := text.takeWhile isDigit
  let value : Int := if negative then -(digitsValue digits : Int) else digitsValue digits
  if digits = [] then none else if -2147483648 ≤ value ∧ value ≤ 2147483647 then some value else none
/-- The `size_t` that an `int` converts to. -/
def sizeOfInt (i : Int) : Nat := (i % 18446744073709551616).toNat

/-! ### Decimal texts -/

theorem stdToString_of_lt {n : Nat} (small : n < 10) : stdToString n = [UInt8.ofNat (48 + n)] := by
  rw [stdToString,Nat.toDigits_of_lt_base small]
  interval_cases n <;> rfl
theorem stdToString_of_le {n : Nat} (large : 10 ≤ n) :
    stdToString n = stdToString (n / 10) ++ [UInt8.ofNat (48 + n % 10)] := by
  have last : n % 10 < 10 := Nat.mod_lt n (by decide)
  have digit : [(Nat.digitChar (n % 10))].map (fun c => UInt8.ofNat c.toNat) = [UInt8.ofNat (48 + n % 10)] := by
    generalize n % 10 = d at last
    interval_cases d <;> rfl
  rw [stdToString,Nat.toDigits_of_base_le (by decide) large,List.map_append,digit,stdToString]

/-- A text of at least one digit. -/
structure Decimal (text : Bytes) : Prop where
  digits : ∀ c ∈ text, isDigit c = true
  nonempty : text ≠ []

theorem isDigit_ofNat {n : Nat} (small : n < 10) : isDigit (UInt8.ofNat (48 + n)) = true := by
  interval_cases n <;> rfl
theorem stdToString_decimal (n : Nat) : Decimal (stdToString n) := by
  induction n using Nat.strong_induction_on with
  | _ n ih =>
    by_cases small : n < 10
    · rw [stdToString_of_lt small]
      exact ⟨by simpa using isDigit_ofNat small,by simp⟩
    · rw [stdToString_of_le (by omega)]
      refine ⟨fun c member => ?_,by simp⟩
      rcases List.mem_append.mp member with front | last
      · exact (ih (n / 10) (by omega)).digits c front
      · rw [List.mem_singleton.mp last]
        exact isDigit_ofNat (Nat.mod_lt n (by decide))
theorem digitsValue_append (digits : Bytes) (c : UInt8) :
    digitsValue (digits ++ [c]) = digitsValue digits * 10 + (c.toNat - 48) := by
  simp [digitsValue,List.foldl_append]
theorem digitsValue_stdToString (n : Nat) : digitsValue (stdToString n) = n := by
  induction n using Nat.strong_induction_on with
  | _ n ih =>
    by_cases small : n < 10
    · rw [stdToString_of_lt small]
      interval_cases n <;> rfl
    · have digit : (UInt8.ofNat (48 + n % 10)).toNat = 48 + n % 10 := by
        rw [UInt8.toNat_ofNat']
        omega
      rw [stdToString_of_le (by omega),digitsValue_append,ih (n / 10) (by omega),digit]
      omega

theorem isSpace_of_isDigit {c : UInt8} (digit : isDigit c = true) : isSpace c = false := by
  simp only [isDigit,Bool.and_eq_true,decide_eq_true_eq,UInt8.le_iff_toNat_le] at digit
  simp only [isSpace,Bool.or_eq_false_iff,Bool.and_eq_false_iff,beq_eq_false_iff_ne,decide_eq_false_iff_not,
    UInt8.le_iff_toNat_le,ne_eq,← UInt8.toNat_inj]
  simp only [UInt8.toNat_ofNat] at digit ⊢
  omega

/-- A text without blanks is not trimmed. -/
theorem trim_clean {text : Bytes} (clean : ∀ c ∈ text, isSpace c = false) : trim text = text := Blanks.trimBy_clean clean

theorem takeWhile_digits {digits : Bytes} (all : ∀ c ∈ digits, isDigit c = true) :
    digits.takeWhile isDigit = digits := by
  induction digits with
  | nil => rfl
  | cons c rest ih =>
    obtain ⟨here,later⟩ := List.forall_mem_cons.mp all
    rw [List.takeWhile_cons_of_pos here,ih later]

theorem Decimal.clean {text : Bytes} (decimal : Decimal text) : ∀ c ∈ text, isSpace c = false :=
  fun c member => isSpace_of_isDigit (decimal.digits c member)
/-- A decimal text has no sign. -/
theorem signOf_decimal {text : Bytes} (decimal : Decimal text) : signOf text = (false,text) := by
  cases text with
  | nil => rfl
  | cons c rest =>
    have digit := decimal.digits c (by simp)
    unfold signOf
    split
    · rename_i same
      cases same
      cases digit
    · rename_i same
      cases same
      cases digit
    · rfl

/-- `stoi` reads the decimal text of a number exactly when an `int` holds it. -/
theorem stoi_stdToString (n : Nat) : stoi (stdToString n) = if n < 2147483648 then some (n : Int) else none := by
  have decimal := stdToString_decimal n
  have range : (-2147483648 ≤ (n : Int) ∧ (n : Int) ≤ 2147483647) ↔ n < 2147483648 := by omega
  simp only [stoi,Blanks.dropWhile_clean decimal.clean,signOf_decimal decimal,takeWhile_digits decimal.digits,
    digitsValue_stdToString,Bool.false_eq_true,if_false]
  rw [if_neg decimal.nonempty]
  simp only [range]
theorem sizeOfInt_natCast {n : Nat} (small : n < 2147483648) : sizeOfInt n = n := by
  rw [sizeOfInt]
  omega

end CppSdk.Texts

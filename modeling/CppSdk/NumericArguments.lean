import CppSdk.TupleArguments
import Mathlib

/-!
Numbers as arguments. A number for a `uintN` or an `intN` passes through three readers:
Jsoncpp converts null, booleans and doubles, a filter asks for a run of digits between
blanks, and Boost reads digits after a leading zero as octal; no reader asks for the N of
the node. `numbers_exact_iff` says for which arguments the word is the number given.
-/
namespace CppSdk.NumericArguments
open CppSdk.ByteString CppSdk.Runtime CppSdk.Texts CppSdk.JsonValues CppSdk.ContractABIType
open CppSdk.ContractABITypeCodec CppSdk.AbiCodec

/-! ### Octal numbers -/

/-- A digit of an octal number. -/
def isOctal (c : UInt8) : Bool := 48 ≤ c && c ≤ 55
/-- The number that octal digits spell. -/
def octalValue (digits : Bytes) : Nat := digits.foldl (fun value c => value * 8 + (c.toNat - 48)) 0

/-- A text of digits with a leading zero. -/
def Leading (digits : Bytes) : Prop := digits.head? = some 48
/-- An octal number spelled with a digit that octal numbers do not have. -/
def Misspelled (digits : Bytes) : Prop := Leading digits ∧ digits.all isOctal = false
/-- No octal number, or one of a single digit after its zeros. -/
def Unambiguous (digits : Bytes) : Prop := Leading digits → ∀ c ∈ digits.dropLast, c = 48

instance {digits : Bytes} : Decidable (Leading digits) := inferInstanceAs (Decidable (_ = _))
instance {digits : Bytes} : Decidable (Misspelled digits) := inferInstanceAs (Decidable (_ ∧ _))
instance {digits : Bytes} : Decidable (Unambiguous digits) := inferInstanceAs (Decidable (_ → _))

/-- What the constructor of `cpp_int` reads from digits. -/
def magnitude (digits : Bytes) : Option Nat :=
  if digits.head? = some 48 then
    if digits.all isOctal then some (octalValue digits) else none
  else some (digitsValue digits)

private theorem octalValue_append (digits : Bytes) (c : UInt8) : octalValue (digits ++ [c]) = octalValue digits * 8 + (c.toNat - 48) := by
  simp [octalValue,List.foldl_append]

private theorem octalValue_le (digits : Bytes) : octalValue digits ≤ digitsValue digits := by
  induction digits using List.reverseRecOn with
  | nil => exact le_rfl
  | append_singleton front c ih =>
    rw [octalValue_append,digitsValue_append]
    omega

private theorem digitsValue_zeros {digits : Bytes} (decimal : ∀ c ∈ digits, isDigit c = true) :
    digitsValue digits = 0 ↔ ∀ c ∈ digits, c = 48 := by
  induction digits using List.reverseRecOn with
  | nil => simp [digitsValue]
  | append_singleton front c ih =>
    have before := ih (fun d member => decimal d (List.mem_append_left _ member))
    have digit := decimal c (List.mem_append_right _ (List.mem_singleton_self c))
    simp only [isDigit,Bool.and_eq_true,decide_eq_true_eq,UInt8.le_iff_toNat_le] at digit
    have last : c.toNat - 48 = 0 ↔ c = 48 := by
      rw [← UInt8.toNat_inj]
      simp only [UInt8.toNat_ofNat] at digit ⊢
      omega
    rw [digitsValue_append,List.forall_mem_append,List.forall_mem_singleton,← before,← last]
    omega

/-- Octal digits spell the same number in both bases when only the last may differ from zero. -/
theorem octalValue_eq {digits : Bytes} (decimal : ∀ c ∈ digits, isDigit c = true) :
    octalValue digits = digitsValue digits ↔ ∀ c ∈ digits.dropLast, c = 48 := by
  induction digits using List.reverseRecOn with
  | nil => simp [octalValue,digitsValue]
  | append_singleton front c _ =>
    have less := octalValue_le front
    rw [List.dropLast_concat,← digitsValue_zeros (fun d member => decimal d (List.mem_append_left _ member)),
      octalValue_append,digitsValue_append]
    omega

private theorem magnitude_none {digits : Bytes} : magnitude digits = none ↔ Misspelled digits := by
  unfold magnitude Misspelled Leading
  by_cases leading : digits.head? = some 48 <;> by_cases octal : digits.all isOctal = true <;> simp [leading,octal]
/-- Digits never spell more than in base ten, and the same unless they are ambiguous. -/
theorem magnitude_some {digits : Bytes} {n : Nat} (decimal : Decimal digits) (read : magnitude digits = some n) :
    n ≤ digitsValue digits ∧ (n = digitsValue digits ↔ Unambiguous digits) := by
  unfold magnitude at read
  by_cases leading : digits.head? = some 48
  · rw [if_pos leading] at read
    split at read
    · cases read
      refine ⟨octalValue_le digits,?_⟩
      rw [octalValue_eq decimal.digits]
      exact ⟨fun zeros _ => zeros,fun zeros => zeros leading⟩
    · cases read
  · rw [if_neg leading] at read
    cases read
    exact ⟨le_rfl,fun _ zero => absurd zero leading,fun _ => rfl⟩

/-! ### The libraries -/

/-- The sign of a number put in front of its digits. -/
def withSign (negative : Bool) (digits : Bytes) : Bytes := if negative then 45 :: digits else digits
/-- The number of a sign and a magnitude. -/
def signedValue (negative : Bool) (n : Nat) : Int := if negative then -n else n

/-- The call returns the value or, without one, throws. -/
def Yields {α : Type} (call : Call α) : Option α → Prop
  | some a => call = .ok a
  | none => ∃ what, call = throws what

/-- What Jsoncpp documents of the other values: null and booleans convert to numbers, as
    doubles in range do, which are cut; the text of a double is not one of digits; arrays
    and objects convert to neither numbers nor texts. -/
structure Converts (J : Jsoncpp) : Prop where
  null_converts : J.isConvertibleTo .null .uintValue = true ∧ J.isConvertibleTo .null .intValue = true
  null_reads : J.asUInt .null = .ok 0 ∧ J.asInt .null = .ok 0
  boolean_converts : ∀ b, J.isConvertibleTo (.boolean b) .uintValue = true ∧ J.isConvertibleTo (.boolean b) .intValue = true
  boolean_reads : ∀ b, J.asUInt (.boolean b) = .ok (if b then 1 else 0) ∧ J.asInt (.boolean b) = .ok (if b then 1 else 0)
  real_uint : ∀ text, J.isConvertibleTo (.real text) .uintValue = true → ∃ n, J.asUInt (.real text) = .ok n
  real_int : ∀ text, J.isConvertibleTo (.real text) .intValue = true → ∃ n, J.asInt (.real text) = .ok n
  real_string : ∀ text, J.isConvertibleTo (.real text) .stringValue = true ∧
    ∃ written, J.asString (.real text) = .ok written ∧ isSigned written = false ∧ isUnsigned written = false
  object_other : ∀ members kind, kind = .stringValue ∨ kind = .intValue ∨ kind = .uintValue →
    J.isConvertibleTo (.object members) kind = false

/-- What Boost documents of texts of digits: octal after a leading zero, reduced modulo
    `2 ^ 256`, and an exception for any other character. -/
structure ReadsDigits (M : Multiprecision) : Prop where
  u256_digits : ∀ digits, Decimal digits → Yields (M.u256 digits) ((magnitude digits).map (BitVec.ofNat 256))
  u256_blanks : ∀ text, Decimal (trim text) → ¬ Decimal text → ∃ what, M.u256 text = throws what
  s256_digits : ∀ negative digits, Decimal digits →
    Yields (M.s256 (withSign negative digits)) ((magnitude digits).map (fun n => signedValue negative (n % 2 ^ 256)))
  s256_blanks : ∀ text, isSigned text = true → (∀ negative digits, Decimal digits → text ≠ withSign negative digits) →
    ∃ what, M.s256 text = throws what

/-! ### The property -/

/-- The integer that an argument denotes: a JSON integer, or a text of blanks, a sign and digits. -/
def denoted : Json → Option Int
  | .int i => some i.toInt
  | .uint u => some u.toNat
  | .string text =>
    let (negative,digits) := signOf (trim text)
    if digits ≠ [] ∧ digits.all isDigit then some (signedValue negative (digitsValue digits)) else none
  | _ => none

/-- The word of an integer, in two's complement. -/
def wordOf (i : Int) : Bytes := word (s2u i).toNat

/-- A node that is filled holds the integer that the argument denotes, which fits, and is
    serialized to its word; every other argument is rejected with an exception. -/
def Exact (C : ContractABICodec) (fits : Int → Prop) (node : AbstractType) (json : Json) : Prop :=
  match initAbstractType C node json with
  | .ok tree => ∃ i, denoted json = some i ∧ fits i ∧ ∀ buffer, serialize C.U tree buffer = .ok (buffer ++ wordOf i)
  | .error failure => ∃ what, failure = .throws what

/-- The range of `uintN`. -/
def FitsUint (extent : Nat) (i : Int) : Prop := 0 ≤ i ∧ i < 2 ^ extent
/-- The range of `intN`. -/
def FitsInt (extent : Nat) (i : Int) : Prop := -2 ^ (extent - 1) ≤ i ∧ i < 2 ^ (extent - 1)

instance {extent : Nat} {i : Int} : Decidable (FitsUint extent i) := inferInstanceAs (Decidable (_ ∧ _))
instance {extent : Nat} {i : Int} : Decidable (FitsInt extent i) := inferInstanceAs (Decidable (_ ∧ _))

/-! ### The condition -/

/-- The arguments for a `uintN` whose word is the number given: no null, no boolean, no
    double that converts; a number that is negative or fits; a text that is more than
    digits, misspelled, or an unambiguous number that fits. -/
def PlainUint (J : Jsoncpp) (extent : Nat) : Json → Prop
  | .null | .boolean _ => False
  | .real text => J.isConvertibleTo (.real text) .uintValue = false
  | .int i => i.toInt < 2 ^ extent
  | .uint u => u.toNat < 2 ^ extent
  | .string text => Decimal text → Misspelled text ∨ (Unambiguous text ∧ digitsValue text < 2 ^ extent)
  | .array _ | .object _ => True
/-- The arguments for an `intN` whose word is the number given. -/
def PlainInt (J : Jsoncpp) (extent : Nat) : Json → Prop
  | .null | .boolean _ => False
  | .real text => J.isConvertibleTo (.real text) .intValue = false
  | .int i => FitsInt extent i.toInt
  | .uint u => FitsInt extent u.toNat
  | .string text => ∀ negative digits, Decimal digits → text = withSign negative digits →
    Misspelled digits ∨ (Unambiguous digits ∧ FitsInt extent (signedValue negative (digitsValue digits)))
  | .array _ | .object _ => True

/-! ### Texts -/

theorem trim_decimal {text : Bytes} (decimal : Decimal text) : trim text = text := trim_clean decimal.clean

theorem isUnsigned_iff {text : Bytes} : isUnsigned text = true ↔ Decimal (trim text) := by
  simp only [isUnsigned,Bool.and_eq_true,Bool.not_eq_true',List.isEmpty_eq_false_iff,List.all_eq_true]
  exact ⟨fun ⟨nonempty,digits⟩ => ⟨digits,nonempty⟩,fun ⟨digits,nonempty⟩ => ⟨nonempty,digits⟩⟩

private theorem clean_withSign {negative : Bool} {digits : Bytes} (decimal : Decimal digits) :
    ∀ c ∈ withSign negative digits, isSpace c = false := by
  cases negative with
  | false => exact decimal.clean
  | true => exact List.forall_mem_cons.mpr ⟨rfl,decimal.clean⟩
private theorem startsWith_minus (c : UInt8) (rest : Bytes) : startsWith (c :: rest) (lit "-") = (c == 45) := by
  have minus : lit "-" = [45] := rfl
  rw [startsWith,minus,List.isPrefixOf,List.isPrefixOf,Bool.and_true,Bool.beq_comm]
theorem isSigned_withSign {negative : Bool} {digits : Bytes} (decimal : Decimal digits) :
    isSigned (withSign negative digits) = true := by
  have all : digits.all isDigit = true := List.all_eq_true.mpr decimal.digits
  have nonempty : digits.isEmpty = false := List.isEmpty_eq_false_iff.mpr decimal.nonempty
  rw [isSigned,trim_clean (clean_withSign decimal)]
  cases negative with
  | true => simp [withSign,startsWith_minus,nonempty,all]
  | false =>
    cases digits with
    | nil => cases nonempty
    | cons c rest =>
      have different : (c == 45) = false := by
        rw [beq_eq_false_iff_ne]
        rintro rfl
        cases decimal.digits 45 List.mem_cons_self
      simp only [withSign,Bool.false_eq_true,if_false,startsWith_minus,different,nonempty,all,Bool.not_false,Bool.and_self]

private theorem signOf_withSign {negative : Bool} {digits : Bytes} (decimal : Decimal digits) :
    signOf (withSign negative digits) = (negative,digits) := by
  cases negative with
  | true => rfl
  | false => exact signOf_decimal decimal

private theorem denoted_withSign (negative : Bool) {digits : Bytes} (decimal : Decimal digits) :
    denoted (.string (withSign negative digits)) = some (signedValue negative (digitsValue digits)) := by
  have all : digits.all isDigit = true := List.all_eq_true.mpr decimal.digits
  simp only [denoted,trim_clean (clean_withSign decimal),signOf_withSign decimal]
  rw [if_pos ⟨decimal.nonempty,all⟩]

theorem intText_withSign (i : Int) : intText i = withSign (decide (i < 0)) (stdToString i.natAbs) := by
  by_cases negative : i < 0 <;> simp [intText,withSign,negative]

/-! ### Words -/

private theorem wordOf_natCast (n : Nat) : wordOf n = word n := by
  rw [wordOf,s2u_toNat,← word_mod n]
  congr 1
private theorem word_ofNat (n : Nat) : word (BitVec.ofNat 256 n).toNat = word n := by
  rw [BitVec.toNat_ofNat,word_mod]

/-- Within half the words, a number of the same sign has the same word only if it is the same. -/
theorem wordOf_signed {negative : Bool} {m n : Nat} (high : m ≤ 2 ^ 255) (less : n ≤ m) :
    wordOf (signedValue negative n) = wordOf (signedValue negative m) ↔ n = m := by
  refine ⟨fun same => ?_,fun same => by rw [same]⟩
  have words := word_injective (s2u (signedValue negative n)).isLt (s2u (signedValue negative m)).isLt same
  rw [s2u_toNat,s2u_toNat] at words
  cases negative <;> simp only [signedValue,Bool.false_eq_true,if_false,if_true] at words <;> omega

/-! ### Nodes -/

section
variable {C : ContractABICodec} {fits : Int → Prop} {node tree : AbstractType} {json : Json}

/-- A node that is filled and serialized to a word. -/
theorem exact_filled {bits : Bytes} (filled : initAbstractType C node json = .ok tree)
    (writes : ∀ buffer, serialize C.U tree buffer = .ok (buffer ++ bits)) :
    Exact C fits node json ↔ ∃ i, denoted json = some i ∧ fits i ∧ bits = wordOf i := by
  rw [Exact,filled]
  simp only [writes,Except.ok.injEq,List.append_cancel_left_eq,forall_const]
/-- An argument that is rejected. -/
theorem exact_rejected (rejected : ∃ what, initAbstractType C node json = throws what) : Exact C fits node json := by
  obtain ⟨what,rejected⟩ := rejected
  rw [Exact,rejected]
  exact ⟨what,rfl⟩

theorem jsonTypeMatchCheck_ok {name : Bytes} {kinds : List ValueType} {kind : ValueType} (listed : kind ∈ kinds)
    (converts : C.J.isConvertibleTo json kind = true) : jsonTypeMatchCheck C name json kinds = .ok () := by
  rw [jsonTypeMatchCheck,if_pos (List.any_eq_true.mpr ⟨kind,listed,converts⟩)]
theorem jsonTypeMatchCheck_throws {kinds : List ValueType} (name : Bytes)
    (never : ∀ kind ∈ kinds, C.J.isConvertibleTo json kind = false) : ∃ what, jsonTypeMatchCheck C name json kinds = throws what := by
  have none : kinds.any (fun kind => C.J.isConvertibleTo json kind) = false := List.any_eq_false.mpr (by simpa using never)
  rw [jsonTypeMatchCheck,none]
  exact ⟨_,rfl⟩

variable {name : Bytes} {extent : Extent}

/-- A number that is checked for two kinds of values and read. -/
theorem checked_read {α : Type} {read : Call α} {make : α → AbstractType} {kind other : ValueType}
    (converts : C.J.isConvertibleTo json kind = true ∨ C.J.isConvertibleTo json other = true) :
    (do
      jsonTypeMatchCheck C name json [kind,other]
      .ok (make (← read))) = (do .ok (make (← read)) : Call AbstractType) := by
  have checked : jsonTypeMatchCheck C name json [kind,other] = .ok () := by
    rcases converts with number | text
    · exact jsonTypeMatchCheck_ok List.mem_cons_self number
    · exact jsonTypeMatchCheck_ok (List.mem_cons_of_mem _ List.mem_cons_self) text
  rw [checked]
  rfl

private theorem exact_uint {value u : U256} (converts : C.J.isConvertibleTo json .uintValue = true ∨ C.J.isConvertibleTo json .stringValue = true)
    (read : unsignedArgument C json = .ok u) :
    Exact C fits (.uint name extent value) json ↔ ∃ i, denoted json = some i ∧ fits i ∧ word u.toNat = wordOf i := by
  have filled : initAbstractType C (.uint name extent value) json = .ok (.uint name extent u) := by
    rw [initAbstractType]
    refine (checked_read converts).trans ?_
    rw [read]
    rfl
  exact exact_filled filled (fun buffer => by rw [serialize,serializeU256])
private theorem exact_uint_throws {value : U256} (converts : C.J.isConvertibleTo json .stringValue = true)
    (read : ∃ what, unsignedArgument C json = throws what) : Exact C fits (.uint name extent value) json := by
  obtain ⟨what,read⟩ := read
  apply exact_rejected
  refine ⟨what,?_⟩
  rw [initAbstractType]
  refine (checked_read (.inr converts)).trans ?_
  rw [read]
  rfl
private theorem exact_int {value i : Int} (converts : C.J.isConvertibleTo json .intValue = true ∨ C.J.isConvertibleTo json .stringValue = true)
    (read : signedArgument C json = .ok i) :
    Exact C fits (.int name extent value) json ↔ ∃ j, denoted json = some j ∧ fits j ∧ wordOf i = wordOf j := by
  have filled : initAbstractType C (.int name extent value) json = .ok (.int name extent i) := by
    rw [initAbstractType]
    refine (checked_read converts).trans ?_
    rw [read]
    rfl
  exact exact_filled filled (fun buffer => by rw [serialize,serializeS256,wordOf])
private theorem exact_int_throws {value : Int} (converts : C.J.isConvertibleTo json .stringValue = true)
    (read : ∃ what, signedArgument C json = throws what) : Exact C fits (.int name extent value) json := by
  obtain ⟨what,read⟩ := read
  apply exact_rejected
  refine ⟨what,?_⟩
  rw [initAbstractType]
  refine (checked_read (.inr converts)).trans ?_
  rw [read]
  rfl

/-- An argument that converts to neither kind of values. -/
theorem mismatch_throws {kinds : List ValueType} {α : Type} {rest : Unit → Call α}
    (never : ∀ kind ∈ kinds, C.J.isConvertibleTo json kind = false) :
    ∃ what, (jsonTypeMatchCheck C name json kinds >>= rest) = throws what := by
  obtain ⟨what,checked⟩ := jsonTypeMatchCheck_throws name never
  exact ⟨what,by rw [checked]; rfl⟩
private theorem exact_uint_mismatch {u : U256} (texts : C.J.isConvertibleTo json .stringValue = false)
    (uints : C.J.isConvertibleTo json .uintValue = false) : Exact C fits (.uint name extent u) json := by
  apply exact_rejected
  rw [initAbstractType]
  exact mismatch_throws (List.forall_mem_cons.mpr ⟨uints,List.forall_mem_singleton.mpr texts⟩)
private theorem exact_int_mismatch {i : Int} (texts : C.J.isConvertibleTo json .stringValue = false)
    (ints : C.J.isConvertibleTo json .intValue = false) : Exact C fits (.int name extent i) json := by
  apply exact_rejected
  rw [initAbstractType]
  exact mismatch_throws (List.forall_mem_cons.mpr ⟨ints,List.forall_mem_singleton.mpr texts⟩)

end

/-! ### Numbers -/

private theorem denoted_number {json : Json} {i : Int} (number : json.number = some i) : denoted json = some i := by
  cases json <;> first | exact number | cases number
private theorem number_range {json : Json} {i : Int} (number : json.number = some i) : -2 ^ 63 ≤ i ∧ i < 2 ^ 64 := by
  cases json with
  | int n =>
    cases number
    have low := n.le_toInt
    have high := n.toInt_lt
    omega
  | uint n =>
    cases number
    have high := n.toNat_lt
    omega
  | _ => cases number

section
variable {C : ContractABICodec} {json : Json} {i : Int} {name : Bytes} {extent : Extent}

/-- A text with a minus sign is no unsigned number. -/
theorem isUnsigned_minus (n : Nat) : isUnsigned (withSign true (stdToString n)) = false := by
  rw [← Bool.not_eq_true]
  intro unsigned
  have decimal := isUnsigned_iff.mp unsigned
  rw [trim_clean (clean_withSign (stdToString_decimal n))] at decimal
  cases decimal.digits 45 List.mem_cons_self

theorem unsignedArgument_number (documented : C.J.Documented) (decimals : C.M.Documented) (number : json.number = some i) :
    (0 ≤ i → unsignedArgument C json = .ok (BitVec.ofNat 256 i.toNat)) ∧ (i < 0 → ∃ what, unsignedArgument C json = throws what) := by
  have range := number_range number
  by_cases small : 0 ≤ i ∧ i < 4294967296
  · refine ⟨fun _ => ?_,fun negative => by omega⟩
    have fits : (UInt32.ofNat i.toNat).toNat = i.toNat := UInt32.toNat_ofNat_of_lt' (by show i.toNat < 4294967296; omega)
    rw [unsignedArgument,if_pos ((documented.number_uint json i number).mpr small),documented.uint_reads json i number small.1 small.2,
      ok_bind,fits]
  · have never : C.J.isConvertibleTo json .uintValue ≠ true := mt (documented.number_uint json i number).mp small
    rw [unsignedArgument,if_neg never,(documented.number_string json i number).2,ok_bind,intText_withSign]
    constructor
    · intro positive
      have sign : decide (i < 0) = false := decide_eq_false (by omega)
      have unsigned : isUnsigned (stdToString i.natAbs) = true := by
        rw [isUnsigned_iff,trim_decimal (stdToString_decimal _)]
        exact stdToString_decimal _
      rw [sign]
      refine (if_pos unsigned).trans ?_
      have same : i.natAbs = i.toNat := by omega
      rw [same]
      exact decimals.u256_reads i.toNat (by omega)
    · intro negative
      rw [decide_eq_true negative,isUnsigned_minus]
      exact ⟨_,rfl⟩
theorem signedArgument_number (documented : C.J.Documented) (decimals : C.M.Documented) (number : json.number = some i) :
    signedArgument C json = .ok i := by
  have range := number_range number
  by_cases small : -2147483648 ≤ i ∧ i < 2147483648
  · have fits : (Int32.ofInt i).toInt = i := Int32.toInt_ofInt_of_le small.1 small.2
    rw [signedArgument,if_pos ((documented.number_int json i number).mpr small),documented.int_reads json i number small.1 small.2,
      ok_bind,fits]
  · have never : C.J.isConvertibleTo json .intValue ≠ true := mt (documented.number_int json i number).mp small
    have signed : isSigned (intText i) = true := by
      rw [intText_withSign]
      exact isSigned_withSign (stdToString_decimal _)
    rw [signedArgument,if_neg never,(documented.number_string json i number).2,ok_bind,if_pos signed]
    exact decimals.s256_reads i (by omega)

private theorem exact_number_uint (documented : C.J.Documented) (decimals : C.M.Documented) (number : json.number = some i) (u : U256) :
    Exact C (FitsUint extent) (.uint name extent u) json ↔ i < 2 ^ extent.1 := by
  have text := (documented.number_string json i number).1
  obtain ⟨positive,negative⟩ := unsignedArgument_number documented decimals number
  by_cases sign : 0 ≤ i
  · rw [exact_uint (.inr text) (positive sign),denoted_number number,word_ofNat,← wordOf_natCast,Int.toNat_of_nonneg sign]
    constructor
    · rintro ⟨j,same,⟨_,fits⟩,_⟩
      cases same
      exact fits
    · exact fun fits => ⟨i,rfl,⟨sign,fits⟩,rfl⟩
  · refine iff_of_true (exact_uint_throws text (negative (by omega))) ?_
    have := Int.pow_pos (n := 2) (m := extent.1) (by decide)
    omega
private theorem exact_number_int (documented : C.J.Documented) (decimals : C.M.Documented) (number : json.number = some i) (value : Int) :
    Exact C (FitsInt extent) (.int name extent value) json ↔ FitsInt extent i := by
  rw [exact_int (.inr (documented.number_string json i number).1) (signedArgument_number documented decimals number),
    denoted_number number]
  constructor
  · rintro ⟨j,same,fits,_⟩
    cases same
    exact fits
  · exact fun fits => ⟨i,rfl,fits,rfl⟩

/-! ### Texts of digits -/

private theorem exact_text_uint (documented : C.J.Documented) (reads : ReadsDigits C.M) (text : Bytes) (u : U256) :
    Exact C (FitsUint extent) (.uint name extent u) (.string text) ↔
      (Decimal text → Misspelled text ∨ (Unambiguous text ∧ digitsValue text < 2 ^ extent.1)) := by
  have converts := (documented.string_reads text).1
  have never : C.J.isConvertibleTo (.string text) .uintValue ≠ true := by simp [documented.string_noNumber]
  have argument : unsignedArgument C (.string text) = if isUnsigned text then C.M.u256 text
      else throws (lit "use string as uint type argument, but string format is invalid, value is " ++ text) := by
    rw [unsignedArgument,if_neg never,(documented.string_reads text).2,ok_bind]
  by_cases decimal : Decimal text
  · have unsigned : isUnsigned text = true := isUnsigned_iff.mpr (by rwa [trim_decimal decimal])
    rw [if_pos unsigned] at argument
    have read := reads.u256_digits text decimal
    rw [← argument] at read
    simp only [decimal,true_implies]
    cases spelled : magnitude text with
    | none =>
      rw [spelled] at read
      exact iff_of_true (exact_uint_throws converts read) (.inl (magnitude_none.mp spelled))
    | some n =>
      rw [spelled] at read
      have correct : ¬ Misspelled text := by
        rw [← magnitude_none,spelled]
        exact nofun
      obtain ⟨less,unambiguous⟩ := magnitude_some decimal spelled
      have value : denoted (.string text) = some (digitsValue text : Int) := denoted_withSign false decimal
      have room : 2 ^ extent.1 ≤ 2 ^ 256 := Nat.pow_le_pow_right (by decide) extent.2.2.1
      rw [exact_uint (.inr converts) read,value,word_ofNat]
      constructor
      · rintro ⟨i,same,⟨_,fits⟩,words⟩
        cases same
        rw [wordOf_natCast] at words
        have bound : digitsValue text < 2 ^ extent.1 := by exact_mod_cast fits
        exact .inr ⟨unambiguous.mp (word_injective (by omega) (by omega) words),bound⟩
      · rintro (misspelled | ⟨plain,bound⟩)
        · exact absurd misspelled correct
        · refine ⟨_,rfl,⟨Int.natCast_nonneg _,by exact_mod_cast bound⟩,?_⟩
          rw [wordOf_natCast,unambiguous.mpr plain]
  · refine iff_of_true (exact_uint_throws converts ?_) (fun digits => absurd digits decimal)
    rw [argument]
    by_cases unsigned : isUnsigned text = true
    · rw [if_pos unsigned]
      exact reads.u256_blanks text (isUnsigned_iff.mp unsigned) decimal
    · rw [if_neg unsigned]
      exact ⟨_,rfl⟩

private theorem fitsInt_bound {n : Nat} {negative : Bool} (fits : FitsInt extent.1 (signedValue negative n)) : n ≤ 2 ^ 255 := by
  have room : 2 ^ (extent.1 - 1) ≤ 2 ^ 255 := Nat.pow_le_pow_right (by decide) (by have := extent.2.2.1; omega)
  have bound : n ≤ 2 ^ (extent.1 - 1) := by
    obtain ⟨low,high⟩ := fits
    have cast : ((2 ^ (extent.1 - 1) : Nat) : Int) = 2 ^ (extent.1 - 1) := by push_cast; rfl
    rw [← cast] at low high
    cases negative <;> simp only [signedValue,Bool.false_eq_true,if_false,if_true] at low high <;> omega
  exact bound.trans room

private theorem exact_text_int (documented : C.J.Documented) (reads : ReadsDigits C.M) (text : Bytes) (value : Int) :
    Exact C (FitsInt extent) (.int name extent value) (.string text) ↔
      ∀ negative digits, Decimal digits → text = withSign negative digits →
        Misspelled digits ∨ (Unambiguous digits ∧ FitsInt extent (signedValue negative (digitsValue digits))) := by
  have converts := (documented.string_reads text).1
  have never : C.J.isConvertibleTo (.string text) .intValue ≠ true := by simp [documented.string_noNumber]
  have argument : signedArgument C (.string text) = if isSigned text then C.M.s256 text
      else throws (lit "use string as int type argument, but string format is invalid, value is " ++ text) := by
    rw [signedArgument,if_neg never,(documented.string_reads text).2,ok_bind]
  by_cases spelled : ∃ negative digits, Decimal digits ∧ text = withSign negative digits
  · obtain ⟨negative,digits,decimal,rfl⟩ := spelled
    -- the sign and the digits of the text are those
    have alone : (∀ negative' digits', Decimal digits' → withSign negative digits = withSign negative' digits' →
        Misspelled digits' ∨ (Unambiguous digits' ∧ FitsInt extent (signedValue negative' (digitsValue digits')))) ↔
          Misspelled digits ∨ (Unambiguous digits ∧ FitsInt extent (signedValue negative (digitsValue digits))) := by
      constructor
      · exact fun all => all negative digits decimal rfl
      · intro one negative' digits' decimal' same
        have signs := congrArg signOf same
        rw [signOf_withSign decimal,signOf_withSign decimal'] at signs
        cases signs
        exact one
    rw [alone]
    rw [if_pos (isSigned_withSign decimal)] at argument
    have read := reads.s256_digits negative digits decimal
    rw [← argument] at read
    cases known : magnitude digits with
    | none =>
      rw [known] at read
      exact iff_of_true (exact_int_throws converts read) (.inl (magnitude_none.mp known))
    | some n =>
      rw [known] at read
      have correct : ¬ Misspelled digits := by
        rw [← magnitude_none,known]
        exact nofun
      obtain ⟨less,unambiguous⟩ := magnitude_some decimal known
      rw [exact_int (.inr converts) read,denoted_withSign negative decimal]
      -- a number that fits is not reduced
      have same : FitsInt extent (signedValue negative (digitsValue digits)) →
          (wordOf (signedValue negative (n % 2 ^ 256)) = wordOf (signedValue negative (digitsValue digits)) ↔ Unambiguous digits) := by
        intro fits
        have high := fitsInt_bound fits
        rw [Nat.mod_eq_of_lt (by omega),wordOf_signed high less,unambiguous]
      constructor
      · rintro ⟨i,found,fits,words⟩
        cases found
        exact .inr ⟨(same fits).mp words,fits⟩
      · rintro (misspelled | ⟨plain,fits⟩)
        · exact absurd misspelled correct
        · exact ⟨_,rfl,fits,(same fits).mpr plain⟩
  · have other : ∀ negative digits, Decimal digits → text ≠ withSign negative digits :=
      fun negative digits decimal same => spelled ⟨negative,digits,decimal,same⟩
    refine iff_of_true (exact_int_throws converts ?_) (fun negative digits decimal same => absurd same (other negative digits decimal))
    rw [argument]
    by_cases signed : isSigned text = true
    · rw [if_pos signed]
      exact reads.s256_blanks text signed other
    · rw [if_neg signed]
      exact ⟨_,rfl⟩

/-! ### Other values -/

/-- A value that is no integer and no text is not rejected when it converts to a number. -/
theorem exact_uint_converted {fits : Int → Prop} {u : U256} (mute : denoted json = none)
    (converts : C.J.isConvertibleTo json .uintValue = true) (reads : ∃ n, C.J.asUInt json = .ok n) :
    ¬ Exact C fits (.uint name extent u) json := by
  obtain ⟨n,read⟩ := reads
  rw [exact_uint (.inl converts) (by rw [unsignedArgument,if_pos converts,read,ok_bind]),mute]
  rintro ⟨i,same,_⟩
  cases same
private theorem exact_int_converted {fits : Int → Prop} {value : Int} (mute : denoted json = none)
    (converts : C.J.isConvertibleTo json .intValue = true) (reads : ∃ n, C.J.asInt json = .ok n) :
    ¬ Exact C fits (.int name extent value) json := by
  obtain ⟨n,read⟩ := reads
  rw [exact_int (.inl converts) (by rw [signedArgument,if_pos converts,read,ok_bind]),mute]
  rintro ⟨i,same,_⟩
  cases same

private theorem exact_real_uint {fits : Int → Prop} (converts : Converts C.J) (text : Bytes) (u : U256) :
    Exact C fits (.uint name extent u) (.real text) ↔ C.J.isConvertibleTo (.real text) .uintValue = false := by
  by_cases number : C.J.isConvertibleTo (.real text) .uintValue = true
  · exact iff_of_false (exact_uint_converted rfl number (converts.real_uint text number)) (by simp [number])
  · obtain ⟨texts,written,read,_,unsigned⟩ := converts.real_string text
    refine iff_of_true (exact_uint_throws texts ?_) (Bool.not_eq_true _ ▸ number)
    rw [unsignedArgument,if_neg number,read,ok_bind,unsigned]
    exact ⟨_,rfl⟩
private theorem exact_real_int {fits : Int → Prop} (converts : Converts C.J) (text : Bytes) (value : Int) :
    Exact C fits (.int name extent value) (.real text) ↔ C.J.isConvertibleTo (.real text) .intValue = false := by
  by_cases number : C.J.isConvertibleTo (.real text) .intValue = true
  · exact iff_of_false (exact_int_converted rfl number (converts.real_int text number)) (by simp [number])
  · obtain ⟨texts,written,read,signed,_⟩ := converts.real_string text
    refine iff_of_true (exact_int_throws texts ?_) (Bool.not_eq_true _ ▸ number)
    rw [signedArgument,if_neg number,read,ok_bind,signed]
    exact ⟨_,rfl⟩

/-! ### All arguments -/

/-- A number for a `uintN` or an `intN` means what it says and fits its type exactly when
    it is plain. -/
theorem numbers_exact_iff (documented : C.J.Documented) (converts : Converts C.J) (decimals : C.M.Documented)
    (reads : ReadsDigits C.M) (name : Bytes) (extent : Extent) (u : U256) (value : Int) (json : Json) :
    (Exact C (FitsUint extent) (.uint name extent u) json ↔ PlainUint C.J extent json) ∧
      (Exact C (FitsInt extent) (.int name extent value) json ↔ PlainInt C.J extent json) := by
  cases json with
  | null =>
    constructor
    · exact iff_of_false (exact_uint_converted rfl converts.null_converts.1 ⟨_,converts.null_reads.1⟩) id
    · exact iff_of_false (exact_int_converted rfl converts.null_converts.2 ⟨_,converts.null_reads.2⟩) id
  | boolean b =>
    constructor
    · exact iff_of_false (exact_uint_converted rfl (converts.boolean_converts b).1 ⟨_,(converts.boolean_reads b).1⟩) id
    · exact iff_of_false (exact_int_converted rfl (converts.boolean_converts b).2 ⟨_,(converts.boolean_reads b).2⟩) id
  | real text => exact ⟨exact_real_uint converts text u,exact_real_int converts text value⟩
  | int i => exact ⟨exact_number_uint documented decimals rfl u,exact_number_int documented decimals rfl value⟩
  | uint n =>
    refine ⟨(exact_number_uint documented decimals rfl u).trans ?_,exact_number_int documented decimals rfl value⟩
    rw [PlainUint]
    exact_mod_cast Iff.rfl
  | string text => exact ⟨exact_text_uint documented reads text u,exact_text_int documented reads text value⟩
  | array elements =>
    have never := documented.array_other elements
    constructor
    · exact iff_of_true (exact_uint_mismatch (never _ (.inl rfl)) (never _ (.inr (.inr rfl)))) trivial
    · exact iff_of_true (exact_int_mismatch (never _ (.inl rfl)) (never _ (.inr (.inl rfl)))) trivial
  | object members =>
    have never := converts.object_other members
    constructor
    · exact iff_of_true (exact_uint_mismatch (never _ (.inl rfl)) (never _ (.inr (.inr rfl)))) trivial
    · exact iff_of_true (exact_int_mismatch (never _ (.inl rfl)) (never _ (.inr (.inl rfl)))) trivial

end

/-! ### Functions with the documented behaviour -/

/-- The whole part of the text of a double without an exponent. -/
def wholePart (text : Bytes) : Option Int :=
  let (negative,number) := signOf text
  let digits := number.takeWhile isDigit
  if digits = [] then none else some (signedValue negative (digitsValue digits))

/-- Jsoncpp for integers and texts. -/
def plain : Jsoncpp := Jsoncpp.reference (fun _ => none)
/-- Jsoncpp with its conversions of null, of booleans and of doubles. -/
def converting : Jsoncpp :=
  { plain with
    isConvertibleTo := fun json kind => match json, kind with
      | .null, .uintValue | .null, .intValue | .null, .stringValue => true
      | .boolean _, .uintValue | .boolean _, .intValue | .boolean _, .stringValue => true
      | .real text, .uintValue => (wholePart text).any (fun i => 0 ≤ i ∧ i < 4294967296)
      | .real text, .intValue => (wholePart text).any (fun i => -2147483648 ≤ i ∧ i < 2147483648)
      | json, kind => plain.isConvertibleTo json kind
    asUInt := fun
      | .null => .ok 0
      | .boolean b => .ok (if b then 1 else 0)
      | .real text => .ok (UInt32.ofNat ((wholePart text).getD 0).toNat)
      | json => plain.asUInt json
    asInt := fun
      | .null => .ok 0
      | .boolean b => .ok (if b then 1 else 0)
      | .real text => .ok (Int32.ofInt ((wholePart text).getD 0))
      | json => plain.asInt json
    asString := fun
      | .null => .ok []
      | .boolean b => .ok (if b then lit "true" else lit "false")
      -- the text of a double has a point or an exponent
      | .real text => .ok (if isSigned text || isUnsigned text then lit "0.0" else text)
      | json => plain.asString json }

/-- Integers convert as they do without the others. -/
theorem converting_number {json : Json} {i : Int} (number : json.number = some i) :
    (∀ kind, converting.isConvertibleTo json kind = plain.isConvertibleTo json kind) ∧
      converting.asUInt json = plain.asUInt json ∧ converting.asInt json = plain.asInt json ∧
      converting.asString json = plain.asString json := by
  cases json with
  | int n | uint n => simp [converting]
  | _ => cases number
private theorem converting_documented : converting.Documented where
  boolean_reads _ := ⟨rfl,rfl⟩
  string_reads _ := ⟨rfl,rfl⟩
  string_noNumber _ := ⟨rfl,rfl⟩
  number_string json i number := by
    rw [(converting_number number).1,(converting_number number).2.2.2]
    exact (jsoncpp_documented (fun _ => none)).number_string json i number
  number_int json i number := by
    rw [(converting_number number).1]
    exact (jsoncpp_documented (fun _ => none)).number_int json i number
  number_uint json i number := by
    rw [(converting_number number).1]
    exact (jsoncpp_documented (fun _ => none)).number_uint json i number
  int_reads json i number low high := by
    rw [(converting_number number).2.2.1]
    exact (jsoncpp_documented (fun _ => none)).int_reads json i number low high
  uint_reads json i number low high := by
    rw [(converting_number number).2.1]
    exact (jsoncpp_documented (fun _ => none)).uint_reads json i number low high
  array_array _ := rfl
  array_other elements kind other := by rcases other with rfl | rfl | rfl <;> rfl
  object_object _ := rfl
private theorem converting_converts : Converts converting where
  null_converts := ⟨rfl,rfl⟩
  null_reads := ⟨rfl,rfl⟩
  boolean_converts _ := ⟨rfl,rfl⟩
  boolean_reads _ := ⟨rfl,rfl⟩
  real_uint _ _ := ⟨_,rfl⟩
  real_int _ _ := ⟨_,rfl⟩
  real_string text := by
    refine ⟨rfl,_,rfl,?_⟩
    by_cases digits : (isSigned text || isUnsigned text) = true
    · rw [if_pos digits]
      decide +kernel
    · rw [if_neg digits]
      exact Bool.or_eq_false_iff.mp (Bool.not_eq_true _ ▸ digits)
  object_other members kind other := by rcases other with rfl | rfl | rfl <;> rfl

/-- A minus sign, and what follows it. -/
def minusOf : Bytes → Bool × Bytes
  | 45 :: rest => (true,rest)
  | text => (false,text)
/-- Boost.Multiprecision on texts of digits, which are octal after a leading zero. -/
def readingDigits : Multiprecision where
  u256 text :=
    if text ≠ [] ∧ text.all isDigit then
      match magnitude text with
      | some n => .ok (BitVec.ofNat 256 n)
      | none => throws (lit "Unexpected content found while parsing character string.")
    else throws (lit "Unexpected character encountered in input.")
  s256 text :=
    let (negative,digits) := minusOf text
    if digits ≠ [] ∧ digits.all isDigit then
      match magnitude digits with
      | some n => .ok (signedValue negative (n % 2 ^ 256))
      | none => throws (lit "Unexpected content found while parsing character string.")
    else throws (lit "Unexpected character encountered in input.")

private theorem decimal_iff {text : Bytes} : Decimal text ↔ text ≠ [] ∧ text.all isDigit = true := by
  rw [List.all_eq_true]
  exact ⟨fun ⟨digits,nonempty⟩ => ⟨nonempty,digits⟩,fun ⟨nonempty,digits⟩ => ⟨digits,nonempty⟩⟩
private theorem minusOf_withSign {negative : Bool} {digits : Bytes} (decimal : Decimal digits) :
    minusOf (withSign negative digits) = (negative,digits) := by
  cases negative with
  | true => rfl
  | false =>
    unfold minusOf
    split
    · rename_i rest same
      have spelled : digits = 45 :: rest := same
      cases decimal.digits 45 (spelled ▸ List.mem_cons_self)
    · rfl

/-- The text of a positive number has no leading zero. -/
theorem leading_stdToString {n : Nat} : Leading (stdToString n) ↔ n = 0 := by
  induction n using Nat.strong_induction_on with
  | _ n ih =>
    by_cases small : n < 10
    · rw [stdToString_of_lt small]
      interval_cases n <;> decide
    · have front : (stdToString n).head? = (stdToString (n / 10)).head? := by
        rw [stdToString_of_le (by omega),List.head?_append_of_ne_nil _ (stdToString_decimal _).nonempty]
      rw [Leading,front]
      refine (ih (n / 10) (by omega)).trans ?_
      omega
private theorem magnitude_stdToString (n : Nat) : magnitude (stdToString n) = some n := by
  by_cases zero : n = 0
  · subst zero
    decide +kernel
  · have other : (stdToString n).head? ≠ some 48 := mt leading_stdToString.mp zero
    rw [magnitude,if_neg other,digitsValue_stdToString]

private theorem readingDigits_u256 {digits : Bytes} (decimal : Decimal digits) :
    Yields (readingDigits.u256 digits) ((magnitude digits).map (BitVec.ofNat 256)) := by
  have checked : readingDigits.u256 digits = match magnitude digits with
      | some n => .ok (BitVec.ofNat 256 n)
      | none => throws (lit "Unexpected content found while parsing character string.") := if_pos (decimal_iff.mp decimal)
  rw [checked]
  cases magnitude digits with
  | some n => rfl
  | none => exact ⟨_,rfl⟩
private theorem readingDigits_s256 (negative : Bool) {digits : Bytes} (decimal : Decimal digits) :
    Yields (readingDigits.s256 (withSign negative digits)) ((magnitude digits).map (fun n => signedValue negative (n % 2 ^ 256))) := by
  have checked : readingDigits.s256 (withSign negative digits) = match magnitude digits with
      | some n => .ok (signedValue negative (n % 2 ^ 256))
      | none => throws (lit "Unexpected content found while parsing character string.") := by
    simp only [readingDigits,minusOf_withSign decimal]
    exact if_pos (decimal_iff.mp decimal)
  rw [checked]
  cases magnitude digits with
  | some n => rfl
  | none => exact ⟨_,rfl⟩

private theorem readingDigits_documented : readingDigits.Documented where
  u256_reads n small := by
    have read := readingDigits_u256 (stdToString_decimal n)
    rwa [magnitude_stdToString] at read
  s256_reads i small := by
    have read := readingDigits_s256 (decide (i < 0)) (stdToString_decimal i.natAbs)
    rw [magnitude_stdToString,← intText_withSign,Option.map_some,Nat.mod_eq_of_lt small] at read
    refine read.trans (congrArg _ ?_)
    by_cases sign : i < 0 <;> simp only [signedValue,sign,decide_true,decide_false,if_true,Bool.false_eq_true,if_false] <;> omega
private theorem readingDigits_reads : ReadsDigits readingDigits where
  u256_digits _ decimal := readingDigits_u256 decimal
  u256_blanks text _ blanks := ⟨_,if_neg (mt decimal_iff.mpr blanks)⟩
  s256_digits negative _ decimal := readingDigits_s256 negative decimal
  s256_blanks text signed other := by
    have not : ¬ Decimal (minusOf text).2 := by
      intro decimal
      refine other (minusOf text).1 (minusOf text).2 decimal ?_
      unfold minusOf
      split <;> rfl
    exact ⟨_,if_neg (mt decimal_iff.mpr not)⟩

/-! ### Arguments -/

/-- A codec with these libraries. -/
def numberCodec : ContractABICodec := { EventTopics.zeroCodec (fun _ => none) with J := converting,M := readingDigits }
/-- The extent of `uint8` and of `int8`. -/
def byteExtent : Extent := ⟨8,by decide,by decide,by decide⟩

theorem numbers_exact_byte : Exact numberCodec (FitsUint byteExtent) (.uint [] byteExtent 0) (.string (lit "255")) ∧
    Exact numberCodec (FitsInt byteExtent) (.int [] byteExtent 0) (.int (-128)) := by
  have exact := numbers_exact_iff (C := numberCodec) converting_documented converting_converts readingDigits_documented
    readingDigits_reads [] byteExtent 0 0
  constructor
  · exact (exact _).1.mpr (fun _ => .inr ⟨by decide +kernel,by decide +kernel⟩)
  · exact (exact _).2.mpr ⟨by decide,by decide⟩

/-- Null, a boolean, a double, a number out of range, an octal number and one beyond a word are encoded. -/
theorem numbers_break :
    ¬ Exact numberCodec (FitsUint byteExtent) (.uint [] byteExtent 0) .null ∧
      ¬ Exact numberCodec (FitsUint byteExtent) (.uint [] byteExtent 0) (.boolean true) ∧
      ¬ Exact numberCodec (FitsUint byteExtent) (.uint [] byteExtent 0) (.real (lit "1.5")) ∧
      ¬ Exact numberCodec (FitsUint byteExtent) (.uint [] byteExtent 0) (.int 300) ∧
      ¬ Exact numberCodec (FitsUint byteExtent) (.uint [] byteExtent 0) (.string (lit "010")) ∧
      ¬ Exact numberCodec (FitsInt byteExtent) (.int [] byteExtent 0) (.string (lit "-200")) := by
  have documented : numberCodec.J.Documented := converting_documented
  have converts : Converts numberCodec.J := converting_converts
  have reads : ReadsDigits numberCodec.M := readingDigits_reads
  have octal : Decimal (lit "010") := decimal_iff.mpr (by decide +kernel)
  have digits : Decimal (lit "200") := decimal_iff.mpr (by decide +kernel)
  refine ⟨?_,?_,?_,?_,?_,?_⟩
  · exact exact_uint_converted rfl converts.null_converts.1 ⟨_,converts.null_reads.1⟩
  · exact exact_uint_converted rfl (converts.boolean_converts true).1 ⟨_,(converts.boolean_reads true).1⟩
  · rw [exact_real_uint converts]
    decide +kernel
  · have value : Json.number (.int 300) = some 300 := rfl
    rw [exact_number_uint documented readingDigits_documented value]
    decide
  · rw [exact_text_uint documented reads]
    intro plain
    have ambiguous : ¬ (Misspelled (lit "010") ∨ (Unambiguous (lit "010") ∧ digitsValue (lit "010") < 2 ^ byteExtent.1)) := by decide +kernel
    exact ambiguous (plain octal)
  · rw [exact_text_int documented reads]
    intro plain
    have wide : ¬ (Misspelled (lit "200") ∨ (Unambiguous (lit "200") ∧ FitsInt byteExtent (signedValue true (digitsValue (lit "200"))))) := by
      decide +kernel
    exact wide (plain true (lit "200") digits (by decide +kernel))

end CppSdk.NumericArguments

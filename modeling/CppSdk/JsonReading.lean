import CppSdk.EventParams

/-!
What a value that was written and read again is worth: it prints as it did, and it is as
long. A reader that knows the texts of some values stands for Jsoncpp where a run is given.
-/
namespace CppSdk.JsonReading
open CppSdk.ByteString CppSdk.Runtime CppSdk.Texts CppSdk.JsonValues CppSdk.EventParams

/-! ### Compact texts -/

section
variable (quote : Bytes → Bytes)

mutual
/-- The compact text of a value, with the strings as they are quoted. -/
def printValue : Json → Bytes
  | .null => lit "null"
  | .int i => intText i.toInt
  | .uint u => stdToString u.toNat
  | .real text => text
  | .string text => quote text
  | .boolean b => if b then lit "true" else lit "false"
  | .array elements => lit "[" ++ (lit ",").intercalate (printElements elements) ++ lit "]"
  | .object members => lit "\x7b" ++ (lit ",").intercalate (printMembers members) ++ lit "\x7d"
/-- The texts of the elements. -/
def printElements : List Json → List Bytes
  | [] => []
  | json :: rest => printValue json :: printElements rest
/-- The texts of the members. -/
def printMembers : List (Bytes × Json) → List Bytes
  | [] => []
  | (key,json) :: rest => (quote key ++ lit ":" ++ printValue json) :: printMembers rest
end

private theorem printValue_number {json : Json} {i : Int} (number : json.number = some i) : printValue quote json = intText i := by
  cases json with
  | int n =>
    cases number
    rfl
  | uint n =>
    cases number
    rw [printValue,intText,if_neg (Int.not_lt.mpr (Int.natCast_nonneg _)),Int.natAbs_natCast]
  | _ => cases number

mutual
/-- A value that is read again prints as it did. -/
theorem printValue_same : ∀ json read, Same json read → printValue quote json = printValue quote read
  | .null, read, same => by rw [fixed_null _ same]
  | .string text, read, same => by rw [fixed_string text _ same]
  | .int i, read, same => by rw [printValue_number quote (number_of_same same rfl),printValue_number quote rfl]
  | .uint u, read, same => by rw [printValue_number quote (number_of_same same rfl),printValue_number quote rfl]
  | .real text, read, same => by
    cases same with
    | real => rfl
    | number number => cases number
  | .boolean b, read, same => by
    cases same with
    | boolean => rfl
    | number number => cases number
  | .array elements, read, same => by
    cases same with
    | array pairs => rw [printValue,printValue,printElements_same _ _ pairs]
    | number number => cases number
  | .object members, read, same => by
    cases same with
    | object pairs => rw [printValue,printValue,printMembers_same _ _ pairs]
    | number number => cases number
private theorem printElements_same : ∀ elements read, List.Forall₂ Same elements read →
    printElements quote elements = printElements quote read
  | [], read, pairs => by
    cases pairs
    rfl
  | json :: rest, read, pairs => by
    cases pairs with
    | cons same later => rw [printElements,printElements,printValue_same _ _ same,printElements_same _ _ later]
private theorem printMembers_same : ∀ members read, List.Forall₂ SameMember members read →
    printMembers quote members = printMembers quote read
  | [], read, pairs => by
    cases pairs
    rfl
  | (key,json) :: rest, read, pairs => by
    cases pairs with
    | cons same later =>
      cases same with
      | named _ same => rw [printMembers,printMembers,printValue_same _ _ same,printMembers_same _ _ later]
end
end

private theorem length_intercalate {pieces longer : List Bytes} (each : List.Forall₂ (fun a b => a.length ≤ b.length) pieces longer) :
    ((lit ",").intercalate pieces).length ≤ ((lit ",").intercalate longer).length := by
  induction each with
  | nil => exact Nat.le_refl _
  | cons first rest ih =>
    cases rest with
    | nil => simpa [List.intercalate] using first
    | cons _ _ =>
      simp only [List.intercalate,List.intersperse_cons_cons,List.flatten_cons,List.length_append] at ih ⊢
      omega

mutual
/-- Shorter strings make a shorter text. -/
theorem length_printValue {short long : Bytes → Bytes} (shorter : ∀ text, (short text).length ≤ (long text).length) :
    ∀ json, (printValue short json).length ≤ (printValue long json).length
  | .null | .int _ | .uint _ | .real _ | .boolean _ => Nat.le_refl _
  | .string text => shorter text
  | .array elements => by
    have inside := length_intercalate (length_printElements shorter elements)
    simp only [printValue,List.length_append]
    omega
  | .object members => by
    have inside := length_intercalate (length_printMembers shorter members)
    simp only [printValue,List.length_append]
    omega
private theorem length_printElements {short long : Bytes → Bytes} (shorter : ∀ text, (short text).length ≤ (long text).length) :
    ∀ elements, List.Forall₂ (fun a b => a.length ≤ b.length) (printElements short elements) (printElements long elements)
  | [] => .nil
  | json :: rest => .cons (length_printValue shorter json) (length_printElements shorter rest)
private theorem length_printMembers {short long : Bytes → Bytes} (shorter : ∀ text, (short text).length ≤ (long text).length) :
    ∀ members, List.Forall₂ (fun a b => a.length ≤ b.length) (printMembers short members) (printMembers long members)
  | [] => .nil
  | (key,json) :: rest => by
    refine .cons ?_ (length_printMembers shorter rest)
    have name := shorter key
    have value := length_printValue shorter json
    simp only [List.length_append]
    omega
end

/-! ### What Jsoncpp does -/

/-- The writer prints a number without regard to its kind. -/
def PrintsAlike (R : Reader) : Prop := ∀ json read, Same json read → R.write json = R.write read
/-- `asInt` throws on a number that `int` does not hold. -/
def ThrowsBeyondInt (R : Reader) : Prop :=
  ∀ json i, json.number = some i → ¬(-2147483648 ≤ i ∧ i < 2147483648) → ∃ what, R.asInt json = throws what

/-- A string between quotation marks as it is. -/
def plain (text : Bytes) : Bytes := lit "\"" ++ text ++ lit "\""

mutual
/-- There are no doubles in the value. -/
def noReals : Json → Bool
  | .real _ => false
  | .array elements => noRealElements elements
  | .object members => noRealMembers members
  | _ => true
def noRealElements : List Json → Bool
  | [] => true
  | json :: rest => noReals json && noRealElements rest
def noRealMembers : List (Bytes × Json) → Bool
  | [] => true
  | (_,json) :: rest => noReals json && noRealMembers rest
end

/-- No text is shorter than the compact text of what is read from it, with the strings as
    they are: an escape is longer than what it stands for. -/
def NoShorter (R : Reader) : Prop :=
  ∀ text json read, noReals json = true → Same json read → R.parse text = some read → (printValue plain json).length ≤ text.length

/-- What the writer makes of a character of a string. -/
def escape (c : UInt8) : Bytes :=
  if c = 34 then lit "\\\"" else if c = 92 then lit "\\\\"
  else if c = 8 then lit "\\b" else if c = 9 then lit "\\t" else if c = 10 then lit "\\n"
  else if c = 12 then lit "\\f" else if c = 13 then lit "\\r"
  else if c < 32 then lit "\\u00" ++ toHex [c] else [c]
/-- A string as the writer quotes it. -/
def quoted (text : Bytes) : Bytes := plain (text.flatMap escape)

/-- Jsoncpp that knows the texts of the values. -/
def readerOf (values : List Json) : Reader where
  toJsoncpp := { Jsoncpp.reference (fun text => values.find? (fun json => printValue quoted json == text)) with
    write := printValue quoted }
  asInt64 := (Reader.reference .null).asInt64

theorem readerOf_documented (values : List Json) : (readerOf values).Documented where
  toDocumented :=
    have reference := jsoncpp_documented (fun _ => none)
    { reference with }
  int64_reads := (reader_documented .null).int64_reads
theorem readerOf_printsAlike (values : List Json) : PrintsAlike (readerOf values) := printValue_same quoted
theorem readerOf_throwsBeyondInt (values : List Json) : ThrowsBeyondInt (readerOf values) := by
  intro json i number outside
  refine ⟨lit "Value is not convertible",?_⟩
  simp only [readerOf,Jsoncpp.reference,number,if_neg outside]
  rfl

private theorem length_quoted (text : Bytes) : (plain text).length ≤ (quoted text).length := by
  have escaped : text.length ≤ (text.flatMap escape).length := by
    induction text with
    | nil => exact Nat.le_refl _
    | cons c rest ih =>
      have one : 1 ≤ (escape c).length := by
        unfold escape
        split_ifs <;> simp [lit]
      rw [List.flatMap_cons,List.length_append,List.length_cons]
      omega
  simp only [quoted,plain,List.length_append]
  omega
theorem readerOf_noShorter (values : List Json) : NoShorter (readerOf values) := by
  intro text json read _ same parsed
  have printed := List.find?_some parsed
  rw [beq_iff_eq] at printed
  rw [printValue_same plain _ _ same,← printed]
  exact length_printValue length_quoted read

theorem parse_head (json : Json) (rest : List Json) : (readerOf (json :: rest)).parse (printValue quoted json) = some json := by
  simp [readerOf,Jsoncpp.reference]
theorem parse_later {first json : Json} {rest : List Json} (differs : printValue quoted first ≠ printValue quoted json)
    (later : (readerOf rest).parse (printValue quoted json) = some json) :
    (readerOf (first :: rest)).parse (printValue quoted json) = some json := by
  simp only [readerOf,Jsoncpp.reference] at later ⊢
  rw [List.find?_cons_of_neg (by simpa using differs)]
  exact later
theorem inverts_of_parse {values : List Json} {json : Json} (parsed : (readerOf values).parse (printValue quoted json) = some json) :
    Inverts (readerOf values) json := ⟨json,parsed,same_refl json⟩

end CppSdk.JsonReading

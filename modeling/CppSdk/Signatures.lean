import CppSdk.MethodDefinition
import CppSdk.TypeBuilder

/-!
Canonical signatures. A signature is read back in one way only: its last parentheses
enclose the types, and where the text of a type ends the next character says so.
-/
namespace CppSdk.Signatures
open CppSdk.ByteString CppSdk.Runtime CppSdk.Texts CppSdk.JsonValues CppSdk.ContractABIType
open CppSdk.ContractABIDefinitionFactory hiding buildComponents
open CppSdk.TypeBuilder hiding Param
open CppSdk.MethodDefinition

/-! ### Types -/

/-- The decimals of a fixed point number. -/
abbrev Decimals := {count : Nat // count ≤ 80}

/-- The canonical names of the types that are no arrays and no tuples. -/
inductive Elementary : Bytes → Prop where
  | address : Elementary (lit "address")
  | bool : Elementary (lit "bool")
  | bytes : Elementary (lit "bytes")
  | string : Elementary (lit "string")
  | function : Elementary (lit "function")
  | uint (extent : Extent) : Elementary (lit "uint" ++ stdToString extent.1)
  | int (extent : Extent) : Elementary (lit "int" ++ stdToString extent.1)
  | bytesN (fixedN : FixedN) : Elementary (lit "bytes" ++ stdToString fixedN.1)
  | fixed (extent : Extent) (decimals : Decimals) :
      Elementary (lit "fixed" ++ (stdToString extent.1 ++ (lit "x" ++ stdToString decimals.1)))
  | ufixed (extent : Extent) (decimals : Decimals) :
      Elementary (lit "ufixed" ++ (stdToString extent.1 ++ (lit "x" ++ stdToString decimals.1)))

/-- An array suffix: `[k]`, or `[]`. -/
abbrev Suffix := Option Dimension
/-- The text of array suffixes. -/
def suffixText (suffixes : List Suffix) : Bytes := suffixes.flatMap (fun suffix => bracket (suffix.elim 0 Subtype.val))

/-- The structure of a type, with the array suffixes in the order in which they are written. -/
inductive Ty where
  | elementary (name : {name : Bytes // Elementary name}) (suffixes : List Suffix)
  | tuple (components : List Ty) (suffixes : List Suffix)

/-- Induction on types with a hypothesis for every component. -/
@[elab_as_elim]
theorem Ty.induct {motive : Ty → Prop} (elementary : ∀ name suffixes, motive (.elementary name suffixes))
    (tuple : ∀ components suffixes, (∀ t ∈ components, motive t) → motive (.tuple components suffixes)) (t : Ty) : motive t :=
  @Ty.rec motive (fun components => ∀ t ∈ components, motive t) elementary tuple (by simp)
    (fun _ _ here later => List.forall_mem_cons.mpr ⟨here,later⟩) t

mutual
/-- The canonical text of a type. -/
def Ty.text : Ty → Bytes
  | .elementary name suffixes => name.1 ++ suffixText suffixes
  | .tuple components suffixes => lit "(" ++ ((lit ",").intercalate (texts components) ++ (lit ")" ++ suffixText suffixes))
/-- The canonical texts of types. -/
def texts : List Ty → List Bytes
  | [] => []
  | t :: rest => t.text :: texts rest
end

/-- The canonical signature of a name and input types. -/
def canonicalSignature (name : Bytes) (inputs : List Ty) : Bytes :=
  name ++ (lit "(" ++ ((lit ",").intercalate (texts inputs) ++ lit ")"))

/-! ### Types in JSON -/

/-- The `type` of a type in JSON. -/
def Ty.typeField : Ty → Bytes
  | .elementary name suffixes => name.1 ++ suffixText suffixes
  | .tuple _ suffixes => lit "tuple" ++ suffixText suffixes

mutual
/-- The components describe those of the type. -/
def Ty.Components : Ty → Json → Prop
  | .elementary _ _, _ => True
  | .tuple components _, json => ∃ elements, json = .array elements ∧ AllDescribed components elements
/-- The JSON values describe the types. -/
def AllDescribed : List Ty → List Json → Prop
  | [], [] => True
  | t :: ts, json :: rest =>
    (json.member (lit "type") = some (.string t.typeField) ∧
      t.Components ((json.member (lit "components")).getD (.array []))) ∧ AllDescribed ts rest
  | _, _ => False
end
/-- The JSON value describes the type. -/
def Ty.Described (t : Ty) (json : Json) : Prop :=
  json.member (lit "type") = some (.string t.typeField) ∧
    t.Components ((json.member (lit "components")).getD (.array []))

/-- The JSON value is a method or an event of the name with inputs of the types. -/
structure MethodDescribed (jMethod : Json) (name : Bytes) (inputs : List Ty) : Prop where
  named : (jMethod.member (lit "name")).getD (.string []) = .string name
  described : ∃ elements, (jMethod.member (lit "inputs")).getD (.array []) = .array elements ∧
    AllDescribed inputs elements

/-! ### Names and suffixes -/

/-- No parenthesis, no comma and no bracket. -/
def Clear (c : UInt8) : Prop := c ≠ 40 ∧ c ≠ 41 ∧ c ≠ 44 ∧ c ≠ 91
instance (c : UInt8) : Decidable (Clear c) := inferInstanceAs (Decidable (_ ∧ _))

private theorem clear_digit {c : UInt8} (digit : isDigit c = true) : Clear c := by
  refine ⟨?_,?_,?_,?_⟩ <;> (rintro rfl; cases digit)
private theorem clear_number (n : Nat) : ∀ c ∈ stdToString n, Clear c :=
  fun c member => clear_digit ((stdToString_decimal n).digits c member)

private theorem clear_of_all {text : Bytes} (all : text.all (fun c => decide (Clear c)) = true) : ∀ c ∈ text, Clear c :=
  fun c member => of_decide_eq_true (List.all_eq_true.mp all c member)

private theorem elementary_clear {name : Bytes} (elementary : Elementary name) : ∀ c ∈ name, Clear c := by
  have both : ∀ {front back : Bytes}, (∀ c ∈ front, Clear c) → (∀ c ∈ back, Clear c) → ∀ c ∈ front ++ back, Clear c := by
    intro front back left right c member
    rcases List.mem_append.mp member with before | after
    · exact left c before
    · exact right c after
  cases elementary with
  | uint extent => exact both (clear_of_all (by decide)) (clear_number extent.1)
  | int extent => exact both (clear_of_all (by decide)) (clear_number extent.1)
  | bytesN fixedN => exact both (clear_of_all (by decide)) (clear_number fixedN.1)
  | fixed extent decimals =>
    exact both (clear_of_all (by decide))
      (both (clear_number extent.1) (both (clear_of_all (by decide)) (clear_number decimals.1)))
  | ufixed extent decimals =>
    exact both (clear_of_all (by decide))
      (both (clear_number extent.1) (both (clear_of_all (by decide)) (clear_number decimals.1)))
  | _ => exact clear_of_all (by decide)
private theorem elementary_nonempty {name : Bytes} (elementary : Elementary name) : name ≠ [] := by
  cases elementary <;> exact List.cons_ne_nil _ _
/-- No elementary type is taken for a tuple. -/
theorem elementary_startsWith {name : Bytes} (elementary : Elementary name) (rest : Bytes) :
    startsWith (name ++ rest) (lit "tuple") = false := by
  cases elementary <;> rfl

private theorem suffixText_absent (suffixes : List Suffix) : ∀ c ∈ suffixText suffixes, c ≠ 116 := by
  intro c member
  obtain ⟨suffix,_,inside⟩ := List.mem_flatMap.mp member
  obtain ⟨digit,same,digits,_⟩ := bracket_eq (suffix.elim 0 Subtype.val)
  rw [same] at inside
  rintro rfl
  rcases List.mem_cons.mp inside with first | later
  · cases first
  · rcases List.mem_append.mp later with middle | last
    · cases digits 116 middle
    · cases List.mem_singleton.mp last

/-! ### The printer -/

/-- A text without the first character of a word is left as it is. -/
theorem replaceFrom_absent {c : UInt8} (word replacement : Bytes) {text : Bytes} (absent : ∀ d ∈ text, d ≠ c) :
    replaceFrom (c :: word) replacement 0 text = text := by
  induction text with
  | nil => rfl
  | cons d rest ih =>
    obtain ⟨here,later⟩ := List.forall_mem_cons.mp absent
    have other : (c :: word).isPrefixOf (d :: rest) = false := by simp [List.isPrefixOf,Ne.symm here]
    rw [replaceFrom,if_neg (Bool.eq_false_iff.mp other),ih later]
/-- What replaces the word is not looked at again, nor are the suffixes changed. -/
theorem replaceAll_tuple (replacement : Bytes) (suffixes : List Suffix) :
    replaceAll (lit "tuple" ++ suffixText suffixes) (lit "tuple") replacement = replacement ++ suffixText suffixes := by
  have found : (lit "tuple").isPrefixOf (116 :: 117 :: 112 :: 108 :: 101 :: suffixText suffixes) = true :=
    List.isPrefixOf_iff_prefix.mpr (List.prefix_append (lit "tuple") (suffixText suffixes))
  have rest : replaceFrom (lit "tuple") replacement 4 (117 :: 112 :: 108 :: 101 :: suffixText suffixes) =
      suffixText suffixes := replaceFrom_absent [117,112,108,101] replacement (suffixText_absent suffixes)
  show replaceFrom (lit "tuple") replacement 0 (116 :: 117 :: 112 :: 108 :: 101 :: suffixText suffixes) = _
  rw [replaceFrom,if_pos found]
  exact congrArg (fun text => replacement ++ text) rest

/-- Texts with a comma after each. -/
theorem commas_eq (text : Bytes) (rest : List Bytes) :
    (text :: rest).flatMap (fun t => t ++ lit ",") = (lit ",").intercalate (text :: rest) ++ lit "," := by
  induction rest generalizing text with
  | nil => simp
  | cons next rest ih =>
    rw [List.flatMap_cons,ih next,List.intercalate_cons_cons]
    simp only [List.append_assoc]
/-- One comma is taken off the end. -/
theorem popComma_texts (front : Bytes) (other : front.getLast? ≠ some 44) (texts : List Bytes) :
    popComma (front ++ texts.flatMap (fun t => t ++ lit ",")) = front ++ (lit ",").intercalate texts := by
  cases texts with
  | nil =>
    rw [List.flatMap_nil,List.append_nil,popComma,if_neg other]
    exact (List.append_nil front).symm
  | cons text rest =>
    have last : (front ++ ((lit ",").intercalate (text :: rest) ++ lit ",")).getLast? = some 44 := by
      rw [← List.append_assoc]
      exact List.getLast?_concat
    rw [commas_eq,popComma,if_pos last,← List.append_assoc]
    exact List.dropLast_concat

/-- The components are those of the member. -/
theorem buildComponents_eq (J : Jsoncpp) {members : List (Bytes × Json)} {elements : List Json}
    (found : (members.lookup (lit "components")).getD (.array []) = .array elements) :
    buildComponents J members = buildEach J elements := by
  induction members with
  | nil =>
    cases found
    rfl
  | cons entry rest ih =>
    obtain ⟨key,value⟩ := entry
    rw [buildComponents]
    by_cases here : key = lit "components"
    · have same : value = .array elements := by simpa [List.lookup_cons,here] using found
      rw [if_pos here,same,buildNamedTypes]
    · have later : (lit "components" == key) = false := beq_eq_false_iff_ne.mpr (Ne.symm here)
      rw [if_neg here]
      exact ih (by simpa [List.lookup_cons,later] using found)

/-- What a type is made of. -/
theorem buildNamedType_ok {J : Jsoncpp} {json : Json} {namedType : NamedType} {type : Bytes}
    (built : buildNamedType J json = .ok namedType) (typed : json.member (lit "type") = some (.string type))
    (read : J.asString (.string type) = .ok type) :
    ∃ members name indexed components, json = .object members ∧ buildComponents J members = .ok components ∧
      namedType = .mk name type indexed components := by
  cases json with
  | object members =>
    obtain ⟨name,_,built⟩ := bind_ok.mp built
    obtain ⟨type',typed',built⟩ := bind_ok.mp built
    obtain ⟨indexed,_,built⟩ := bind_ok.mp built
    obtain ⟨components,components_built,same⟩ := bind_ok.mp built
    rw [field_member _ _ typed,read] at typed'
    cases typed'
    cases same
    exact ⟨members,name,indexed,components,rfl,components_built,rfl⟩
  | _ => cases typed

/-- The types of the elements are printed with a comma after each. -/
theorem typesAsString_each {J : Jsoncpp} {ts : List Ty}
    (each : ∀ t ∈ ts, ∀ json namedType, buildNamedType J json = .ok namedType → t.Described json →
      getTypeAsString namedType = t.text)
    {elements : List Json} {namedTypes : List NamedType} (built : buildEach J elements = .ok namedTypes)
    (described : AllDescribed ts elements) :
    typesAsString namedTypes = (texts ts).flatMap (fun t => t ++ lit ",") := by
  induction ts generalizing elements namedTypes with
  | nil =>
    cases elements with
    | nil =>
      cases built
      rfl
    | cons _ _ => exact described.elim
  | cons t ts ih =>
    cases elements with
    | nil => exact described.elim
    | cons json rest =>
      obtain ⟨here,later⟩ := List.forall_mem_cons.mp each
      rw [buildEach] at built
      obtain ⟨first,one,more⟩ := bind_ok.mp built
      obtain ⟨others,all,listed⟩ := bind_ok.mp more
      cases listed
      rw [typesAsString,texts,List.flatMap_cons,here json first one described.1,ih later all described.2]
      simp only [List.append_assoc]

/-- A type is printed in its canonical text. -/
theorem getTypeAsString_text {J : Jsoncpp} (documented : J.Documented) (t : Ty) {json : Json} {namedType : NamedType}
    (built : buildNamedType J json = .ok namedType) (described : t.Described json) :
    getTypeAsString namedType = t.text := by
  induction t using Ty.induct generalizing json namedType with
  | elementary name suffixes =>
    obtain ⟨_,_,_,_,_,_,rfl⟩ := buildNamedType_ok built described.1 (documented.string_reads _).2
    rw [getTypeAsString]
    exact if_neg (Bool.eq_false_iff.mp (elementary_startsWith name.2 _))
  | tuple components suffixes ih =>
    obtain ⟨elements,listed,all⟩ := described.2
    obtain ⟨members,_,_,namedTypes,rfl,read,rfl⟩ := buildNamedType_ok built described.1 (documented.string_reads _).2
    have found : startsWith (lit "tuple" ++ suffixText suffixes) (lit "tuple") = true :=
      List.isPrefixOf_iff_prefix.mpr (List.prefix_append _ _)
    have each : buildEach J elements = .ok namedTypes := (buildComponents_eq J listed).symm.trans read
    have printed := typesAsString_each (fun t member json namedType built here => ih t member built here) each all
    have raw := popComma_texts [] (by simp) (texts components)
    rw [List.nil_append,List.nil_append] at raw
    rw [getTypeAsString,Ty.typeField,if_pos found,replaceAll_tuple,printed,raw,Ty.text]
    simp only [List.append_assoc]

/-- The name and the inputs that a method is built from. -/
theorem buildMethod_ok {J : Jsoncpp} {jMethod : Json} {method : ContractABIMethodDefinition}
    (built : buildMethod J jMethod = .ok method) :
    jMethod.field "name" J.asString (.ok []) = .ok method.name ∧
      jMethod.field "inputs" (buildNamedTypes J) (.ok []) = .ok method.inputs := by
  obtain ⟨name,named,built⟩ := bind_ok.mp built
  obtain ⟨type,_,built⟩ := bind_ok.mp built
  obtain ⟨constant,_,built⟩ := bind_ok.mp built
  obtain ⟨payable,_,built⟩ := bind_ok.mp built
  obtain ⟨anonymous,_,built⟩ := bind_ok.mp built
  obtain ⟨stateMutability,_,built⟩ := bind_ok.mp built
  obtain ⟨inputs,read,built⟩ := bind_ok.mp built
  obtain ⟨outputs,_,same⟩ := bind_ok.mp built
  cases same
  exact ⟨named,read⟩
/-- A member with a default is read as `read` reads the default. -/
theorem field_getD {α : Type} {json value missing : Json} {key : String} {read : Json → Call α} {a b : α}
    (called : json.field key read (.ok a) = .ok b) (found : (json.member (lit key)).getD missing = value)
    (default : read missing = .ok a) : read value = .ok b := by
  cases member : json.member (lit key) with
  | some value' =>
    rw [member] at found
    cases found
    exact (field_member read _ member).symm.trans called
  | none =>
    rw [member] at found
    cases found
    refine default.trans ?_
    cases json with
    | object members => exact (field_absent read _ member).symm.trans called
    | null => exact called
    | _ => cases called

/-- The signature of a method in JSON is the canonical one. -/
theorem getMethodSignatureAsString_canonical {J : Jsoncpp} (documented : J.Documented) {jMethod : Json}
    {method : ContractABIMethodDefinition} (built : buildMethod J jMethod = .ok method) {name : Bytes} {inputs : List Ty}
    (described : MethodDescribed jMethod name inputs) :
    method.getMethodSignatureAsString = canonicalSignature name inputs := by
  obtain ⟨elements,listed,all⟩ := described.described
  obtain ⟨named,read⟩ := buildMethod_ok built
  have same : (.ok name : Call Bytes) = .ok method.name :=
    (documented.string_reads name).2.symm.trans (field_getD named described.named (documented.string_reads []).2)
  have each : buildEach J elements = .ok method.inputs := field_getD read listed rfl
  have printed := typesAsString_each (fun t _ json namedType => getTypeAsString_text documented t) each all
  have last : (name ++ lit "(").getLast? ≠ some 44 := by
    have parenthesis : (name ++ lit "(").getLast? = some 40 := List.getLast?_concat
    rw [parenthesis]
    decide
  rw [ContractABIMethodDefinition.getMethodSignatureAsString,← Except.ok.inj same,printed,popComma_texts _ last,
    canonicalSignature]
  simp only [List.append_assoc]

/-! ### Reading a signature -/

/-- Where a type ends there is a comma, a parenthesis or nothing. -/
def Follows (rest : Bytes) : Prop := ∀ c ∈ rest.head?, c = 44 ∨ c = 41
/-- Where a name ends there may be a bracket too. -/
def FollowsName (rest : Bytes) : Prop := ∀ c ∈ rest.head?, ¬ Clear c

private theorem followsName_suffixes (suffixes : List Suffix) {rest : Bytes} (follows : Follows rest) :
    FollowsName (suffixText suffixes ++ rest) := by
  intro c first
  cases suffixes with
  | nil =>
    rcases follows c first with rfl | rfl
    · decide
    · decide
  | cons suffix suffixes =>
    cases first
    decide

/-- What consists of characters of a kind ends where the first other one stands. -/
theorem span_unique {Kind : UInt8 → Prop} {front front' rest rest' : Bytes} (all : ∀ c ∈ front, Kind c)
    (all' : ∀ c ∈ front', Kind c) (follows : ∀ c ∈ rest.head?, ¬ Kind c) (follows' : ∀ c ∈ rest'.head?, ¬ Kind c)
    (same : front ++ rest = front' ++ rest') : front = front' ∧ rest = rest' := by
  induction front generalizing front' with
  | nil =>
    cases front' with
    | nil => exact ⟨rfl,same⟩
    | cons c front' =>
      rw [List.nil_append] at same
      exact absurd (all' c List.mem_cons_self) (follows c (by simp [same]))
  | cons c front ih =>
    cases front' with
    | nil =>
      rw [List.nil_append] at same
      exact absurd (all c List.mem_cons_self) (follows' c (by simp [← same]))
    | cons c' front' =>
      obtain ⟨rfl,tail⟩ := List.cons.inj same
      obtain ⟨_,later⟩ := List.forall_mem_cons.mp all
      obtain ⟨_,later'⟩ := List.forall_mem_cons.mp all'
      obtain ⟨rfl,rest⟩ := ih later later' tail
      exact ⟨rfl,rest⟩

/-- The digits in a bracket. -/
def extentDigits (extent : Nat) : Bytes := if extent = 0 then [] else stdToString extent

private theorem extentDigits_all (extent : Nat) : ∀ c ∈ extentDigits extent, isDigit c = true := by
  unfold extentDigits
  split
  · exact fun c member => (nomatch member)
  · exact (stdToString_decimal extent).digits
private theorem extentDigits_value (extent : Nat) : digitsValue (extentDigits extent) = extent := by
  unfold extentDigits
  split
  · rename_i zero
    rw [zero]
    rfl
  · exact digitsValue_stdToString extent
/-- A bracketed extent ends at its bracket. -/
theorem bracket_unique {extent extent' : Nat} {rest rest' : Bytes}
    (same : bracket extent ++ rest = bracket extent' ++ rest') : extent = extent' ∧ rest = rest' := by
  have spelled : ∀ (n : Nat) (more : Bytes), bracket n ++ more = 91 :: (extentDigits n ++ (93 :: more)) := by
    intro n more
    simp [bracket,extentDigits,lit]
  rw [spelled,spelled] at same
  have closed : ∀ {more : Bytes}, ∀ c ∈ (93 :: more).head?, ¬ isDigit c = true := by
    rintro more c ⟨⟩
    decide
  obtain ⟨digits,tail⟩ := span_unique (extentDigits_all extent) (extentDigits_all extent') closed closed
    (List.cons.inj same).2
  have value := congrArg digitsValue digits
  rw [extentDigits_value,extentDigits_value] at value
  exact ⟨value,(List.cons.inj tail).2⟩
private theorem suffix_injective {suffix suffix' : Suffix} (same : suffix.elim 0 Subtype.val = suffix'.elim 0 Subtype.val) :
    suffix = suffix' := by
  cases suffix with
  | none =>
    cases suffix' with
    | none => rfl
    | some dimension => exact absurd same (Nat.ne_of_lt dimension.2)
  | some dimension =>
    cases suffix' with
    | none => exact absurd same (Nat.ne_of_gt dimension.2)
    | some dimension' => exact congrArg some (Subtype.ext same)
private theorem suffixes_unique {suffixes suffixes' : List Suffix} {rest rest' : Bytes} (follows : Follows rest)
    (follows' : Follows rest') (same : suffixText suffixes ++ rest = suffixText suffixes' ++ rest') :
    suffixes = suffixes' ∧ rest = rest' := by
  have bracketed : ∀ (suffix : Suffix) (suffixes : List Suffix) (rest : Bytes), suffixText (suffix :: suffixes) ++ rest =
      bracket (suffix.elim 0 Subtype.val) ++ (suffixText suffixes ++ rest) := by
    intro suffix suffixes rest
    rw [suffixText,List.flatMap_cons,List.append_assoc]
    rfl
  have stops : ∀ {text more : Bytes} {extent : Nat}, Follows text → text ≠ bracket extent ++ more := by
    rintro text more extent follows rfl
    rcases follows 91 rfl with other | other
    · cases other
    · cases other
  induction suffixes generalizing suffixes' with
  | nil =>
    cases suffixes' with
    | nil => exact ⟨rfl,same⟩
    | cons suffix suffixes' => exact absurd (same.trans (bracketed _ _ _)) (stops follows)
  | cons suffix suffixes ih =>
    cases suffixes' with
    | nil => exact absurd (same.symm.trans (bracketed _ _ _)) (stops follows')
    | cons suffix' suffixes' =>
      rw [bracketed,bracketed] at same
      obtain ⟨extent,tail⟩ := bracket_unique same
      obtain ⟨rfl,rest⟩ := ih tail
      exact ⟨by rw [suffix_injective extent],rest⟩

/-- The text of a type ends where the type does. -/
def Unique (t : Ty) : Prop := ∀ {t' : Ty} {rest rest' : Bytes}, Follows rest → Follows rest' →
  t.text ++ rest = t'.text ++ rest' → t = t' ∧ rest = rest'

/-- The texts of the types that follow another one. -/
def laterText (ts : List Ty) : Bytes := (texts ts).flatMap (fun text => lit "," ++ text)

private theorem intercalate_texts (t : Ty) (ts : List Ty) :
    (lit ",").intercalate (texts (t :: ts)) = t.text ++ laterText ts := by
  induction ts generalizing t with
  | nil => simp [texts,laterText]
  | cons next ts ih =>
    rw [texts,texts,List.intercalate_cons_cons,← texts,ih next]
    simp [laterText,texts]
private theorem follows_later (ts : List Ty) (rest : Bytes) : Follows (laterText ts ++ 41 :: rest) := by
  cases ts with
  | nil =>
    rintro c ⟨⟩
    exact .inr rfl
  | cons t ts =>
    rintro c ⟨⟩
    exact .inl rfl
private theorem laterText_unique {ts ts' : List Ty} (each : ∀ t ∈ ts, Unique t) {rest rest' : Bytes}
    (same : laterText ts ++ 41 :: rest = laterText ts' ++ 41 :: rest') : ts = ts' ∧ rest = rest' := by
  have first : ∀ (t : Ty) (ts : List Ty) (rest : Bytes), laterText (t :: ts) ++ 41 :: rest =
      44 :: (t.text ++ (laterText ts ++ 41 :: rest)) := by
    intro t ts rest
    simp [laterText,texts,lit]
  induction ts generalizing ts' with
  | nil =>
    cases ts' with
    | nil => exact ⟨rfl,(List.cons.inj same).2⟩
    | cons t' ts' =>
      rw [first] at same
      cases (List.cons.inj same).1
  | cons t ts ih =>
    cases ts' with
    | nil =>
      rw [first] at same
      cases (List.cons.inj same).1
    | cons t' ts' =>
      obtain ⟨here,later⟩ := List.forall_mem_cons.mp each
      rw [first,first] at same
      obtain ⟨rfl,tail⟩ := here (follows_later ts rest) (follows_later ts' rest') (List.cons.inj same).2
      obtain ⟨rfl,rest⟩ := ih later tail
      exact ⟨rfl,rest⟩

private theorem text_first (t : Ty) (rest : Bytes) : ∃ c more, t.text ++ rest = c :: more ∧ c ≠ 41 := by
  cases t with
  | elementary name suffixes =>
    obtain ⟨text,elementary⟩ := name
    cases text with
    | nil => exact absurd rfl (elementary_nonempty elementary)
    | cons c text =>
      refine ⟨c,text ++ (suffixText suffixes ++ rest),?_,(elementary_clear elementary c List.mem_cons_self).2.1⟩
      rw [Ty.text,List.append_assoc]
      rfl
  | tuple components suffixes => exact ⟨40,_,rfl,by decide⟩
/-- Types in parentheses end at the last one. -/
theorem types_unique {ts ts' : List Ty} (each : ∀ t ∈ ts, Unique t) {rest rest' : Bytes}
    (same : (lit ",").intercalate (texts ts) ++ 41 :: rest = (lit ",").intercalate (texts ts') ++ 41 :: rest') :
    ts = ts' ∧ rest = rest' := by
  have stops : ∀ (t : Ty) (ts : List Ty) (more more' : Bytes),
      41 :: more ≠ (lit ",").intercalate (texts (t :: ts)) ++ more' := by
    intro t ts more more' closed
    obtain ⟨c,others,starts,other⟩ := text_first t (laterText ts ++ more')
    rw [intercalate_texts,List.append_assoc,starts] at closed
    exact other (List.cons.inj closed).1.symm
  cases ts with
  | nil =>
    cases ts' with
    | nil => exact ⟨rfl,(List.cons.inj same).2⟩
    | cons t' ts' => exact absurd same (stops t' ts' rest _)
  | cons t ts =>
    cases ts' with
    | nil => exact absurd same.symm (stops t ts rest' _)
    | cons t' ts' =>
      obtain ⟨here,later⟩ := List.forall_mem_cons.mp each
      rw [intercalate_texts,intercalate_texts,List.append_assoc,List.append_assoc] at same
      obtain ⟨rfl,tail⟩ := here (follows_later ts rest) (follows_later ts' rest') same
      obtain ⟨rfl,rest⟩ := laterText_unique later tail
      exact ⟨rfl,rest⟩

private theorem text_unique (t : Ty) : Unique t := by
  have opened : ∀ {name : {name : Bytes // Elementary name}} {more more' : Bytes}, name.1 ++ more ≠ 40 :: more' := by
    rintro ⟨text,elementary⟩ more more' same
    cases text with
    | nil => exact elementary_nonempty elementary rfl
    | cons c text => exact (elementary_clear elementary c List.mem_cons_self).1 (List.cons.inj same).1
  induction t using Ty.induct with
  | elementary name suffixes =>
    intro t' rest rest' follows follows' same
    cases t' with
    | elementary name' suffixes' =>
      rw [Ty.text,Ty.text,List.append_assoc,List.append_assoc] at same
      obtain ⟨names,tail⟩ := span_unique (elementary_clear name.2) (elementary_clear name'.2)
        (followsName_suffixes suffixes follows) (followsName_suffixes suffixes' follows') same
      obtain ⟨rfl,rest⟩ := suffixes_unique follows follows' tail
      exact ⟨by rw [Subtype.ext names],rest⟩
    | tuple components' suffixes' =>
      rw [Ty.text,List.append_assoc] at same
      exact absurd same opened
  | tuple components suffixes ih =>
    intro t' rest rest' follows follows' same
    cases t' with
    | elementary name' suffixes' =>
      rw [Ty.text,Ty.text,List.append_assoc name'.1] at same
      exact absurd same.symm opened
    | tuple components' suffixes' =>
      simp only [Ty.text,List.append_assoc] at same
      obtain ⟨rfl,tail⟩ := types_unique ih (List.cons.inj same).2
      obtain ⟨rfl,rest⟩ := suffixes_unique follows follows' tail
      exact ⟨rfl,rest⟩

/-! ### Parentheses -/

/-- The parentheses match: no end of the text opens more than it closes. -/
structure Nested (text : Bytes) : Prop where
  balanced : text.count 40 = text.count 41
  closes : ∀ front back, text = front ++ back → back.count 40 ≤ back.count 41

private theorem nested_without {text : Bytes} (opens : 40 ∉ text) (closes : 41 ∉ text) : Nested text where
  balanced := by rw [List.count_eq_zero_of_not_mem opens,List.count_eq_zero_of_not_mem closes]
  closes := by
    rintro front back rfl
    rw [List.count_eq_zero_of_not_mem (fun member => opens (List.mem_append_right front member))]
    exact Nat.zero_le _
private theorem nested_append {left right : Bytes} (nestedLeft : Nested left) (nestedRight : Nested right) :
    Nested (left ++ right) where
  balanced := by rw [List.count_append,List.count_append,nestedLeft.balanced,nestedRight.balanced]
  closes := by
    intro front back same
    rcases List.append_eq_append_iff.mp same with ⟨middle,_,rest⟩ | ⟨middle,split,rest⟩
    · exact nestedRight.closes middle back rest
    · have inner := nestedLeft.closes front middle split
      have outer := nestedRight.balanced
      rw [rest,List.count_append,List.count_append]
      omega
private theorem nested_parentheses {text : Bytes} (nested : Nested text) : Nested (40 :: (text ++ [41])) where
  balanced := by simp [nested.balanced]
  closes := by
    intro front back same
    cases front with
    | nil =>
      rw [← List.nil_append back,← same]
      simp [nested.balanced]
    | cons c front =>
      rcases List.append_eq_append_iff.mp (List.cons.inj same).2 with ⟨middle,_,rest⟩ | ⟨middle,split,rest⟩
      · rcases List.append_eq_cons_iff.mp rest.symm with ⟨_,last⟩ | ⟨more,_,last⟩
        · simp [last]
        · obtain ⟨_,empty⟩ := List.append_eq_nil_iff.mp last.symm
          simp [empty]
      · have inner := nested.closes front middle split
        rw [rest,List.count_append,List.count_append]
        simp
        omega

private theorem suffixText_nested (suffixes : List Suffix) : Nested (suffixText suffixes) := by
  have inside : ∀ c ∈ suffixText suffixes, c ≠ 40 ∧ c ≠ 41 := by
    intro c member
    obtain ⟨suffix,_,member⟩ := List.mem_flatMap.mp member
    obtain ⟨digit,same,digits,_⟩ := bracket_eq (suffix.elim 0 Subtype.val)
    rw [same] at member
    rcases List.mem_cons.mp member with rfl | later
    · decide
    · rcases List.mem_append.mp later with middle | last
      · exact ⟨(clear_digit (digits c middle)).1,(clear_digit (digits c middle)).2.1⟩
      · rw [List.mem_singleton.mp last]
        decide
  exact nested_without (fun member => (inside 40 member).1 rfl) (fun member => (inside 41 member).2 rfl)
private theorem laterText_nested {ts : List Ty} (each : ∀ t ∈ ts, Nested t.text) : Nested (laterText ts) := by
  have comma : Nested (lit ",") := nested_without (by decide) (by decide)
  induction ts with
  | nil => exact nested_without List.not_mem_nil List.not_mem_nil
  | cons t ts ih =>
    obtain ⟨here,later⟩ := List.forall_mem_cons.mp each
    exact nested_append (nested_append comma here) (ih later)
private theorem types_nested {ts : List Ty} (each : ∀ t ∈ ts, Nested t.text) : Nested ((lit ",").intercalate (texts ts)) := by
  cases ts with
  | nil => exact nested_without List.not_mem_nil List.not_mem_nil
  | cons t ts =>
    obtain ⟨here,later⟩ := List.forall_mem_cons.mp each
    rw [intercalate_texts]
    exact nested_append here (laterText_nested later)
private theorem text_nested (t : Ty) : Nested t.text := by
  induction t using Ty.induct with
  | elementary name suffixes =>
    have clear := elementary_clear name.2
    exact nested_append (nested_without (fun member => (clear 40 member).1 rfl) (fun member => (clear 41 member).2.1 rfl))
      (suffixText_nested suffixes)
  | tuple components suffixes ih =>
    have whole := nested_append (nested_parentheses (types_nested ih)) (suffixText_nested suffixes)
    simpa [Ty.text,lit] using whole

/-- The last parentheses of a signature enclose its types. -/
theorem canonicalSignature_injective {name name' : Bytes} {inputs inputs' : List Ty}
    (same : canonicalSignature name inputs = canonicalSignature name' inputs') : name = name' ∧ inputs = inputs' := by
  have nested : ∀ ts : List Ty, Nested ((lit ",").intercalate (texts ts)) :=
    fun ts => types_nested (fun t _ => text_nested t)
  have inside : ∀ {name name' : Bytes} {ts ts' : List Ty} {middle : Bytes}, name' = name ++ middle →
      40 :: (lit ",").intercalate (texts ts) = middle ++ 40 :: (lit ",").intercalate (texts ts') →
      name = name' ∧ ts = ts' := by
    intro name name' ts ts' middle front rest
    cases middle with
    | nil =>
      have closed := congrArg (fun text => text ++ [41]) (List.cons.inj rest).2
      exact ⟨by simp [front],(types_unique (fun t _ => text_unique t) closed).1⟩
    | cons c middle =>
      have opens := (nested ts).closes middle _ (List.cons.inj rest).2
      rw [List.count_cons_self,List.count_cons_of_ne (by decide),(nested ts').balanced] at opens
      omega
  have without : name ++ 40 :: (lit ",").intercalate (texts inputs) = name' ++ 40 :: (lit ",").intercalate (texts inputs') := by
    refine (List.append_left_inj (lit ")")).mp ?_
    simpa [canonicalSignature,lit] using same
  rcases List.append_eq_append_iff.mp without with ⟨middle,front,rest⟩ | ⟨middle,front,rest⟩
  · exact inside front rest
  · obtain ⟨rfl,rfl⟩ := inside front rest
    exact ⟨rfl,rfl⟩

/-- The text that is hashed for a method in JSON is its canonical signature, and equal texts
    come from equal names and equal types. -/
theorem signature_canonical {J : Jsoncpp} (documented : J.Documented) {jMethod jMethod' : Json}
    {method method' : ContractABIMethodDefinition} (built : buildMethod J jMethod = .ok method)
    (built' : buildMethod J jMethod' = .ok method') {name name' : Bytes} {inputs inputs' : List Ty}
    (described : MethodDescribed jMethod name inputs) (described' : MethodDescribed jMethod' name' inputs') :
    method.getMethodSignatureAsString = canonicalSignature name inputs ∧
      (∀ H : Hash, method.getMethodID H = (H.hash (canonicalSignature name inputs)).take 4) ∧
      (method.getMethodSignatureAsString = method'.getMethodSignatureAsString → name = name' ∧ inputs = inputs') := by
  have printed := getMethodSignatureAsString_canonical documented built described
  have printed' := getMethodSignatureAsString_canonical documented built' described'
  refine ⟨printed,fun H => ?_,fun same => ?_⟩
  · rw [ContractABIMethodDefinition.getMethodID,ContractABIMethodDefinition.signatureHash,printed]
  · rw [printed,printed'] at same
    exact canonicalSignature_injective same

/-- Arrays of two tuples, each of `bool` and of an empty tuple, in an array. -/
def nestedTuple : Ty := .tuple [.elementary ⟨lit "bool",.bool⟩ [],.tuple [] []] [some ⟨2,Nat.succ_pos 1⟩,none]
/-- Its method in JSON; the inner tuple has no components. -/
def nestedMethod : Json :=
  .object [(lit "name",.string (lit "f")),(lit "type",.string (lit "function")),
    (lit "inputs",.array [.object [(lit "type",.string (lit "tuple[2][]")),
      (lit "components",.array [.object [(lit "type",.string (lit "bool"))],.object [(lit "type",.string (lit "tuple"))]])]])]

private theorem nestedMethod_described : MethodDescribed nestedMethod (lit "f") [nestedTuple] where
  named := rfl
  described := ⟨_,rfl,⟨rfl,_,rfl,⟨rfl,trivial⟩,⟨rfl,[],rfl,trivial⟩,trivial⟩,trivial⟩
/-- `f((bool,())[2][])`. -/
theorem signature_canonical_nested : ∃ method, buildMethod (Jsoncpp.reference (fun _ => none)) nestedMethod = .ok method ∧
    method.getMethodSignatureAsString = lit "f((bool,())[2][])" := by
  have built : ∃ method, buildMethod (Jsoncpp.reference (fun _ => none)) nestedMethod = .ok method := ⟨_,rfl⟩
  obtain ⟨method,built⟩ := built
  exact ⟨method,built,(signature_canonical (jsoncpp_documented _) built built nestedMethod_described
    nestedMethod_described).1⟩

end CppSdk.Signatures

import CppSdk.ArgumentDepths
import CppSdk.CallData

/-!
The inputs of a method, encoded and decoded (`coded_exactly`). For types that the factory
builds as it should, arguments whose heads start below 2^31 come back exactly when they are
cloneable. For the other types none come back in which no array is empty.
-/
namespace CppSdk.MethodCoding
open CppSdk.ByteString CppSdk.Runtime CppSdk.Texts CppSdk.JsonValues CppSdk.SolidityAbi CppSdk.ContractABIType
open CppSdk.ContractABITypeCodec CppSdk.ContractABIDefinitionFactory CppSdk.MethodDefinition CppSdk.AbiCodec
open CppSdk.Conformance CppSdk.HeadPositions CppSdk.RoundTrip CppSdk.MethodArguments CppSdk.ArgumentDepths
open CppSdk.CallData (methodID_four)
open CppSdk.TypeBuilder (Param namedTypes trees tys wholeExtent AllBuildable tree_typed componentsBuilt square)

/-! ### Values and their JSON -/

/-- The types of components against values. -/
theorem tys_pairs {R : Ty → Value → Prop} {components : List (Bytes × Param)} {jsons : List Json} {xs : List Value}
    (rows : Rows (fun c _ x => R c.2.ty x) components jsons xs) : List.Forall₂ R (tys components) xs := by
  induction rows with
  | nil => exact .nil
  | cons here later ih => exact .cons here ih

/-- What an argument is for is a value of the type. -/
theorem argument_typed {t : Param} {json : Json} {x : Value} (argument : Argument t json x) : Typed t.ty x := by
  induction argument with
  | uint spelled range => exact .uint (uint_range range)
  | int spelled low high =>
    obtain ⟨low,high⟩ := int_range low high
    exact .int low high
  | bool b => exact .bool b
  | string text => exact .string text
  | bytes hex => exact .bytes _
  | @bytesN fixedN text content hex exact' => exact .bytesN exact' fixedN.2.1 fixedN.2.2
  | address exact' => exact .address exact'
  | list count each ih => exact .list (zip_right count ih)
  | fixed full count each ih => exact .fixed (by omega) (zip_right count ih)
  | @tuple components jsons xs types count each ih =>
    have rows : Rows (fun c _ x => Typed c.2.ty x) components jsons xs := rows_of_zip types count ih
    have pairs := tys_pairs rows
    exact .tuple pairs.length_eq (zip_of_pairwise pairs)

section
variable {U : Utilities}

private theorem membersJson_eq {vs : List AbstractType} {ts : List Ty} {xs : List Value}
    (rows : Rows (fun v t x => toJson U v = canonical t x) vs ts xs) : membersJson U vs = canonicals ts xs := by
  induction rows with
  | nil => rfl
  | cons here later ih => rw [membersJson,canonicals,here,ih]

/-- The JSON of a tree is the canonical one of what it stands for. -/
theorem toJson_denotes (documented : U.Documented) {limit : Nat} {tv : AbstractType} {t : Ty} {x : Value}
    (denotes : Denotes limit tv t x) : toJson U tv = canonical t x := by
  induction denotes with
  | fixedBytes name exact' => rw [toJson,canonical,documented.toHexString_writes]
  | dynamicBytes name content => rw [toJson,canonical,documented.toHexString_writes]
  | @dynamicList name vs t xs count short each ih =>
    rw [toJson,canonical,membersJson_eq (rows_replicate count ih)]
  | @fixedList name dimension vs t xs full nonempty count each ih =>
    have same : dimension.toNat = xs.length := by omega
    rw [toJson,canonical,same,membersJson_eq (rows_replicate count ih)]
  | @struct name vs ts xs types count each ih =>
    rw [toJson,canonical,membersJson_eq (rows_of_zip types count ih)]
  | _ => rfl

end

/-! ### Trees to decode into -/

/-- The trees of components can be decoded into where each of them can. -/
theorem fillable_components {indeterminate : Bool} {components : List (Bytes × Param)} {jsons : List Json} {xs : List Value}
    (rows : Rows (fun c _ x => c.2.Buildable → Cloneable c.2 x → ∀ name, Fillable (c.2.tree indeterminate name) c.2.ty x)
      components jsons xs) (buildable : AllBuildable components) (cloneable : AllCloneable components xs) :
    Rows Fillable (trees indeterminate components) (tys components) xs := by
  induction rows with
  | nil => exact .nil
  | @cons c json x rest jsons xs here later ih =>
    obtain ⟨name,t⟩ := c
    exact .cons (here buildable.1 cloneable.1 name) (ih buildable.2 cloneable.2)

/-- The tree of a type can be decoded into where it can be filled. -/
theorem fillable_tree (indeterminate : Bool) {t : Param} {json : Json} {x : Value} (argument : Argument t json x) :
    t.Buildable → Cloneable t x → ∀ name, Fillable (t.tree indeterminate name) t.ty x := by
  induction argument with
  | uint spelled range => exact fun _ _ name => .uint name _ _ _
  | int spelled low high => exact fun _ _ name => .int name _ _ _
  | bool b => exact fun _ _ name => .boolean name _ _
  | string text => exact fun _ _ name => .string name _ _
  | bytes hex => exact fun _ _ name => .dynamicBytes name _ _
  | bytesN hex exact' => exact fun _ _ name => .fixedBytes name _ _ _
  | address exact' => exact fun _ _ name => .addr name _ _
  | @list element jsons xs count each ih =>
    intro buildable cloneable name
    refine .dynamicList name (tree_typed element buildable name) (fun some => ?_) (zip_right count (fun p member => ?_))
    · exact (exact_tree element name).mpr (cloneable.resolve_left some)
    · have bytesless : Bytesless element := cloneable.resolve_left (List.ne_nil_of_mem (List.of_mem_zip member).2)
      exact ih p member buildable (bytesless_cloneable bytesless p.2) name
  | @fixed element dimension jsons xs full count each ih =>
    rintro ⟨buildable,small,_⟩ cloneable name
    have dimensioned : (UInt32.ofNat dimension.1).toNat = dimension.1 := by rw [UInt32.toNat_ofNat']; omega
    have fillable : Fillable (.fixedList name (UInt32.ofNat dimension.1) (List.replicate dimension.1 (element.tree indeterminate name)))
        (.fixed element.ty (UInt32.ofNat dimension.1).toNat) (.seq xs) := by
      refine .fixedList name (by rw [List.length_replicate,dimensioned]) (by rw [dimensioned]; exact dimension.2)
        (by rw [List.length_replicate,← count,full]) (fun p member => ?_)
      obtain ⟨inTrees,inValues⟩ := List.of_mem_zip member
      have each : ∀ x ∈ xs, Fillable (element.tree indeterminate name) element.ty x :=
        zip_right count (fun q listed => ih q listed buildable (cloneable q.2 (List.of_mem_zip listed).2) name)
      rw [List.eq_of_mem_replicate inTrees]
      exact each p.2 inValues
    rwa [dimensioned] at fillable
  | @tuple components jsons xs types count each ih =>
    intro buildable cloneable name
    rw [Param.Buildable] at buildable
    rw [Cloneable] at cloneable
    have rows : Rows (fun c _ x => c.2.Buildable → Cloneable c.2 x → ∀ name, Fillable (c.2.tree indeterminate name) c.2.ty x)
        components jsons xs := rows_of_zip types count ih
    have members := fillable_components rows buildable cloneable
    exact .struct name members.lengths.1 members.lengths.2 (zip_of_rows members)

/-! ### Lengths -/

/-- Every supported type takes at least a word in the head. -/
theorem headSize_supported {t : Param} : Supported t → 32 ≤ t.ty.headSize := by
  induction t using Param.induct with
  | tuple components ih =>
    rw [Supported]
    rintro ⟨some,supported⟩
    rw [Param.ty,Ty.headSize]
    split
    · exact Nat.le_refl 32
    · obtain ⟨⟨name,t⟩,rest,rfl⟩ := List.exists_cons_of_ne_nil some
      have first := ih (name,t) List.mem_cons_self supported.1
      rw [tys,headSizes]
      exact Nat.le_trans first (Nat.le_add_right _ _)
  | fixed element dimension ih =>
    intro supported
    rw [Param.ty,Ty.headSize]
    split
    · exact Nat.le_refl 32
    · exact Nat.le_trans (ih supported) (Nat.le_mul_of_pos_left _ dimension.2)
  | _ => exact fun _ => Nat.le_refl 32
private theorem headSizes_supported {components : List (Bytes × Param)} (supported : AllSupported components) :
    ∀ t ∈ tys components, 32 ≤ t.headSize := by
  induction components with
  | nil => simp [tys]
  | cons c rest ih =>
    obtain ⟨name,t⟩ := c
    exact List.forall_mem_cons.mpr ⟨headSize_supported supported.1,ih supported.2⟩

/-- What takes a word for each component in heads below 2^31 is brief. -/
theorem brief_parts {limit : Nat} (enough : 2147483647 ≤ limit) {ts : List Ty} {xs : List Value} (count : ts.length = xs.length) (typed : ∀ p ∈ ts.zip xs, Typed p.1 p.2)
    (wide : ∀ t ∈ ts, 32 ≤ t.headSize)
    (each : ∀ p ∈ ts.zip xs, ∀ position, Near p.1 p.2 position → Brief limit p.2) {base cursor offset : Nat}
    (near : NearParts base ts xs cursor offset) : Brief limit (.seq xs) := by
  have words : ∀ p ∈ parts ts xs, 32 ≤ p.headSize := by
    intro p member
    rw [parts_eq] at member
    obtain ⟨q,listed,rfl⟩ := List.mem_map.mp member
    have size := wide q.1 (List.of_mem_zip listed).1
    rw [Part.headSize]
    split
    · exact Nat.le_refl 32
    · rename_i static
      rw [enc_length_static (typed q listed) (Bool.not_eq_true _ ▸ static)]
      exact size
  constructor
  · by_cases none : xs = []
    · simp only [none,List.length_nil]
      omega
    · have room := nearParts_count count words near none
      omega
  · have members : ∀ p ∈ ts.zip xs, Brief limit p.2 := by
      intro p member
      obtain ⟨position,here,_⟩ := nearParts_each count near p member
      exact each p member position here
    exact allBrief_iff.mpr (zip_right count members)

private theorem brief_components {limit : Nat} {components : List (Bytes × Param)} {jsons : List Json} {xs : List Value}
    (rows : Rows (fun c _ x => Typed c.2.ty x ∧ (Supported c.2 → ∀ position, Near c.2.ty x position → Brief limit x))
      components jsons xs) (supported : AllSupported components) :
    List.Forall₂ (fun t x => Typed t x ∧ ∀ position, Near t x position → Brief limit x) (tys components) xs := by
  induction rows with
  | nil => exact .nil
  | @cons c json x rest jsons xs here later ih =>
    obtain ⟨name,t⟩ := c
    exact .cons ⟨here.1,here.2 supported.1⟩ (ih supported.2)

/-- Components that are brief wherever they are near are brief in a tuple. -/
theorem brief_tuple {limit : Nat} (enough : 2147483647 ≤ limit) {components : List (Bytes × Param)} {jsons : List Json}
    {xs : List Value} (types : components.length = jsons.length) (count : jsons.length = xs.length)
    (each : ∀ p ∈ components.zip (jsons.zip xs), Typed p.1.2.ty p.2.2 ∧
      (Supported p.1.2 → ∀ position, Near p.1.2.ty p.2.2 position → Brief limit p.2.2))
    (supported : AllSupported components) {position : Nat} (near : Near (.tuple (tys components)) (.seq xs) position) :
    Brief limit (.seq xs) := by
  have rows : Rows (fun c _ x => Typed c.2.ty x ∧ (Supported c.2 → ∀ position, Near c.2.ty x position → Brief limit x))
      components jsons xs := rows_of_zip types count each
  have pairs := brief_components rows supported
  have both := zip_of_pairwise pairs
  exact brief_parts enough pairs.length_eq (fun p member => (both p member).1) (headSizes_supported supported)
    (fun p member => (both p member).2) near
/-- Elements that are brief wherever they are near are brief in an array. -/
theorem brief_elements {limit : Nat} (enough : 2147483647 ≤ limit) {element : Param} {jsons : List Json} {xs : List Value}
    (count : jsons.length = xs.length) (each : ∀ p ∈ jsons.zip xs, Argument element p.1 p.2)
    (brief : ∀ p ∈ jsons.zip xs, Supported element → ∀ position, Near element.ty p.2 position → Brief limit p.2)
    (supported : Supported element) {size : Nat} (full : size = xs.length) {base cursor offset : Nat}
    (near : NearParts base (List.replicate size element.ty) xs cursor offset) : Brief limit (.seq xs) := by
  subst full
  have members : ∀ x ∈ xs, ∀ position, Near element.ty x position → Brief limit x :=
    zip_right count (fun p member => brief p member supported)
  have typed : ∀ x ∈ xs, Typed element.ty x := zip_right count (fun p member => argument_typed (each p member))
  refine brief_parts enough List.length_replicate (each_replicate typed) (fun t listed => ?_)
    (each_replicate (P := fun t x => ∀ position, Near t x position → Brief limit x) members) near
  rw [List.eq_of_mem_replicate listed]
  exact headSize_supported supported
/-- An argument for a supported type whose heads start below 2^31 is brief. -/
theorem brief_of_near {limit : Nat} (enough : 2147483647 ≤ limit) {t : Param} {json : Json} {x : Value} (argument : Argument t json x) :
    Supported t → ∀ position, Near t.ty x position → Brief limit x := by
  induction argument with
  | list count each ih => exact fun supported position near => brief_elements enough count each ih supported rfl near
  | fixed full count each ih =>
    exact fun supported position near => brief_elements enough count each ih supported (full.symm.trans count) near
  | tuple types count each ih =>
    intro supported position near
    rw [Supported] at supported
    exact brief_tuple enough types count (fun p member => ⟨argument_typed (each p member),ih p member⟩) supported.2 near
  | _ => exact fun _ _ _ => trivial

/-! ### Coding -/

/-- The parameters are encoded, and decoded to the canonical text of the value. -/
def Coded (C : ContractABICodec) (method : ContractABIMethodDefinition) (jsonParams : Bytes) (t : Ty) (x : Value) : Prop :=
  ∃ data, encodeDefinition C method jsonParams = .ok data ∧ decodeMethodInput C method data = .ok (C.J.write (canonical t x))

section
variable {C : ContractABICodec} (documented : C.J.Documented)
  (noBoolean : ∀ elements, C.J.isConvertibleTo (.array elements) .booleanValue = false) (decimals : C.M.Documented)
  (utilities : C.U.Documented) (hex : ReadsHex C.U) {method : ContractABIMethodDefinition} {components : List (Bytes × Param)}
  (inputs : method.inputs = namedTypes components) {jsonParams : Bytes} {json : Json} (parsed : C.J.parse jsonParams = some json)
  {x : Value} (argument : Argument (.tuple components) json x)

include inputs parsed in
private theorem encodeDefinition_parts {data : Bytes} (encoded : encodeDefinition C method jsonParams = .ok data) :
    ∃ vs tv, buildComponents C.indeterminate (namedTypes components) = .ok vs ∧
      initAbstractType C (.struct [] vs) json = .ok tv := by
  rw [encodeDefinition,stringToJsonValue,parsed,ok_bind,encodeMethodJson,buildInput,inputs] at encoded
  obtain ⟨input,called,encoded⟩ := bind_ok.mp encoded
  obtain ⟨vs,all,same⟩ := bind_ok.mp called
  obtain rfl := Except.ok.inj same
  obtain ⟨tv,filled,_⟩ := bind_ok.mp encoded
  exact ⟨vs,tv,all,filled⟩

include documented noBoolean inputs parsed argument in
/-- Only arguments for types that are built as they should be are encoded, where no array is empty. -/
theorem buildable_of_encoded (full : Full json) {data : Bytes} (encoded : encodeDefinition C method jsonParams = .ok data) :
    AllBuildable components := by
  obtain ⟨vs,tv,all,filled⟩ := encodeDefinition_parts inputs parsed encoded
  cases argument with
  | @tuple _ jsons xs types count each =>
    obtain ⟨_,_,members,elements,_⟩ := initAbstractType_array.mp filled
    have rows : Rows (fun c json _ => BuildableIfFilled C c.2 json) components jsons xs :=
      rows_of_zip types count (fun p member => buildable_of_fill documented noBoolean (each p member))
    exact buildable_components rows (allFull_iff.mp full.2) all elements

include documented inputs parsed argument in
/-- Only cloneable arguments are encoded. -/
theorem cloneable_of_encoded (buildable : AllBuildable components) {data : Bytes}
    (encoded : encodeDefinition C method jsonParams = .ok data) : Cloneable (.tuple components) x := by
  obtain ⟨vs,tv,all,filled⟩ := encodeDefinition_parts inputs parsed encoded
  have built : buildComponents C.indeterminate (namedTypes components) = .ok (trees C.indeterminate components) :=
    (componentsBuilt (.tuple components) components rfl).mpr buildable
  obtain rfl := Except.ok.inj (all.symm.trans built)
  have whole : (Param.tuple components).Buildable := buildable
  exact cloneable_of_fill documented argument whole [] tv filled

include documented decimals utilities hex inputs parsed argument in
/-- Cloneable arguments whose heads start below 2^31 come back. -/
theorem coded_of_cloneable (supported : AllSupported components) (buildable : AllBuildable components)
    (cloneable : Cloneable (.tuple components) x) (near : Near (Param.tuple components).ty x 4)
    (room : 4 + (enc (Param.tuple components).ty x).length < 2 ^ 63 - 1) :
    Coded C method jsonParams (Param.tuple components).ty x := by
  have whole : (Param.tuple components).Buildable := buildable
  have built : buildComponents C.indeterminate (namedTypes components) = .ok (trees C.indeterminate components) :=
    (componentsBuilt (.tuple components) components rfl).mpr buildable
  have input : buildInput C.indeterminate method.inputs = .ok ((Param.tuple components).tree C.indeterminate []) := by
    rw [buildInput,inputs,built,Param.tree]
    rfl
  have limit : 2147483647 ≤ countLimit C.ndebug := by
    unfold countLimit
    split <;> omega
  have brief : Brief (countLimit C.ndebug) x := by
    cases argument with
    | tuple types count each =>
      exact brief_tuple limit types count (fun p member => ⟨argument_typed (each p member),brief_of_near limit (each p member)⟩)
        supported near
  obtain ⟨tv,filled,denotes⟩ := fill_cloneable documented decimals hex argument whole cloneable brief []
  obtain ⟨out,appends⟩ := appends_of_denotes utilities denotes
  have fits := headsFit_of_near (denotes_typed denotes) 4 near
  have selector := methodID_four C.H method
  refine ⟨method.getMethodID C.H ++ enc (Param.tuple components).ty x,?_,?_⟩
  · rw [encodeDefinition,stringToJsonValue,parsed,ok_bind,encodeMethodJson,input,ok_bind,filled,ok_bind,appends.emits.2,
      appends.sound fits]
  · have four : (4 : UInt64).toNat = 4 := rfl
    have found : Occurs (method.getMethodID C.H ++ enc (Param.tuple components).ty x) (4 : UInt64).toNat
        (enc (Param.tuple components).ty x) := ⟨method.getMethodID C.H,[],by simp,selector.trans four.symm⟩
    have bounded : (method.getMethodID C.H ++ enc (Param.tuple components).ty x).length < 2 ^ 63 - 1 := by
      rw [List.length_append,selector]
      exact room
    obtain ⟨result,uses,decoded,stands⟩ := decodes_fillable bounded utilities denotes
      (fillable_tree C.indeterminate argument whole cloneable []) 4 found near
    rw [decodeMethodInput,input,ok_bind,deserialize,decoded,ok_bind,ok_bind,toJsonString,toJson_denotes utilities stands]

include documented noBoolean decimals utilities hex inputs parsed argument in
/-- Arguments come back where the types are buildable and the arguments cloneable. Where
    the types are not buildable, none come back in which no array is empty. -/
theorem coded_exactly (supported : AllSupported components) :
    (AllBuildable components ∧ Cloneable (.tuple components) x → Near (Param.tuple components).ty x 4 →
        4 + (enc (Param.tuple components).ty x).length < 2 ^ 63 - 1 → Coded C method jsonParams (Param.tuple components).ty x) ∧
      (Coded C method jsonParams (Param.tuple components).ty x → AllBuildable components ∨ Full json →
        AllBuildable components ∧ Cloneable (.tuple components) x) := by
  constructor
  · rintro ⟨buildable,cloneable⟩ near room
    exact coded_of_cloneable documented decimals utilities hex inputs parsed argument supported buildable cloneable near room
  · rintro ⟨data,encoded,_⟩ usual
    have buildable : AllBuildable components := by
      rcases usual with buildable | full
      · exact buildable
      · exact buildable_of_encoded documented noBoolean inputs parsed argument full encoded
    exact ⟨buildable,cloneable_of_encoded documented inputs parsed argument buildable encoded⟩

end

/-! ### Arguments that come back and arguments that do not -/

/-- The reference functions, with digits of either case. -/
def bothCases : Utilities :=
  { Utilities.reference with fromHexString := fun text => Utilities.reference.fromHexString (text.map lowerCase) }

private theorem lowerCase_toHex (content : Bytes) : (toHex content).map lowerCase = toHex content := by
  refine (List.map_congr_left (fun c member => ?_)).trans (List.map_id _)
  have digit := toHex_digits content c member
  refine if_neg (fun upper => ?_)
  simp only [IsHexDigit] at digit
  simp only [UInt8.le_iff_toNat_le,UInt8.toNat_ofNat] at upper
  omega
private theorem bothCases_reads : ReadsHex bothCases := by
  intro text content spelled
  show Utilities.reference.fromHexString (text.map lowerCase) = .ok content
  rw [spelled]
  exact reference_documented.fromHexString_reads content
private theorem bothCases_documented : bothCases.Documented where
  address_reads := reference_documented.address_reads
  hexPrefixed_writes := reference_documented.hexPrefixed_writes
  toHexString_writes := reference_documented.toHexString_writes
  fromHexString_reads content := bothCases_reads (toHex content) content (lowerCase_toHex content)

/-- A codec for the parameters. -/
def codecOf (json : Json) : ContractABICodec :=
  { EventTopics.zeroCodec (fun text => if text = writeValue json then some json else none) with U := bothCases }
/-- A method of the parameters. -/
def methodOf (components : List (Bytes × Param)) : ContractABIMethodDefinition :=
  { name := lit "f",type := lit "function",inputs := namedTypes components }

private theorem codecOf_parses (json : Json) : (codecOf json).J.parse (writeValue json) = some json := if_pos rfl

private theorem tag_range : 0 < 4 ∧ 4 ≤ 32 := by decide
/-- `bytes4`. -/
def tag : Param := .bytesN ⟨4,tag_range⟩
/-- `f(uint256[],bytes4)`. -/
def tagged : List (Bytes × Param) := [(lit "numbers",.list (.uint none)),(lit "tag",tag)]
/-- Its arguments. -/
def taggedJson : Json := .array [.array [.string (intText 7)],.string (lit "hex://" ++ lit "0A0b0C0d")]

private theorem tagged_argument : Argument (.tuple tagged) taggedJson (.seq [.seq [.nat 7],.bytes [10,11,12,13]]) := by
  have number : Argument (.uint none) (.string (intText 7)) (.nat 7) := .uint (.inr rfl) (by decide)
  have hex : HexText (lit "0A0b0C0d") [10,11,12,13] := by
    rw [HexText]
    decide
  refine .tuple rfl rfl (List.forall_mem_cons.mpr ⟨?_,List.forall_mem_singleton.mpr (.bytesN hex rfl)⟩)
  exact .list rfl (List.forall_mem_singleton.mpr number)

/-- A list of numbers and four bytes come back. -/
theorem coded_exactly_tagged : Coded (codecOf taggedJson) (methodOf tagged) (writeValue taggedJson) (Param.tuple tagged).ty
    (.seq [.seq [.nat 7],.bytes [10,11,12,13]]) := by
  have size : 4 + (enc (Param.tuple tagged).ty (.seq [.seq [.nat 7],.bytes [10,11,12,13]])).length = 132 := by decide +kernel
  have near := near_of_small (argument_typed tagged_argument) 4 (by rw [size]; decide)
  exact (coded_exactly (jsoncpp_documented _) (fun _ => rfl) multiprecision_documented bothCases_documented bothCases_reads rfl
    (codecOf_parses taggedJson) tagged_argument ⟨trivial,trivial,trivial⟩).1
    ⟨⟨trivial,trivial,trivial⟩,.inr trivial,trivial,trivial⟩ near (by rw [size]; decide)

/-- The arguments of a method of `uint256[2][2]`. -/
def squareJson : Json :=
  .array [.array [.array [.string (intText 1),.string (intText 2)],.array [.string (intText 3),.string (intText 4)]]]
/-- Their value. -/
def squareValue : Value := .seq [.seq [.seq [.nat 1,.nat 2],.seq [.nat 3,.nat 4]]]
/-- The arguments of a method of `bytes4[]`. -/
def tagsJson : Json := .array [.array [.string (lit "hex://" ++ lit "0a0b0c0d")]]
/-- Their value. -/
def tagsValue : Value := .seq [.seq [.bytes [10,11,12,13]]]

private theorem square_argument : Argument (.tuple [([],square)]) squareJson squareValue := by
  have number : ∀ n : Nat, n < 2 ^ 256 → Argument (.uint (some wholeExtent)) (.string (intText n)) (.nat n) :=
    fun n range => .uint (.inr rfl) range
  have row : ∀ n m : Nat, n < 2 ^ 256 → m < 2 ^ 256 → Argument (.fixed (.uint (some wholeExtent)) ⟨2,by decide⟩)
      (.array [.string (intText n),.string (intText m)]) (.seq [.nat n,.nat m]) := by
    intro n m first second
    exact .fixed rfl rfl (List.forall_mem_cons.mpr ⟨number n first,List.forall_mem_singleton.mpr (number m second)⟩)
  exact .tuple rfl rfl (List.forall_mem_singleton.mpr (.fixed rfl rfl (List.forall_mem_cons.mpr
    ⟨row 1 2 (by decide) (by decide),List.forall_mem_singleton.mpr (row 3 4 (by decide) (by decide))⟩)))
private theorem tags_argument : Argument (.tuple [([],.list tag)]) tagsJson tagsValue := by
  have hex : HexText (lit "0a0b0c0d") [10,11,12,13] := by
    rw [HexText]
    decide
  exact .tuple rfl rfl (List.forall_mem_singleton.mpr (.list rfl (List.forall_mem_singleton.mpr (.bytesN hex rfl))))

/-- Squares of numbers and lists of four bytes do not come back. -/
theorem coding_breaks :
    (Argument (.tuple [([],square)]) squareJson squareValue ∧ AllSupported [([],square)] ∧
        ¬ Coded (codecOf squareJson) (methodOf [([],square)]) (writeValue squareJson) (Param.tuple [([],square)]).ty squareValue) ∧
      Argument (.tuple [([],.list tag)]) tagsJson tagsValue ∧ AllSupported [([],.list tag)] ∧
        ¬ Coded (codecOf tagsJson) (methodOf [([],.list tag)]) (writeValue tagsJson) (Param.tuple [([],.list tag)]).ty tagsValue := by
  refine ⟨⟨square_argument,⟨trivial,trivial⟩,?_⟩,tags_argument,⟨trivial,trivial⟩,?_⟩
  · rintro ⟨data,encoded,_⟩
    have full : Full squareJson := by simp [squareJson,Full,AllFull]
    obtain ⟨⟨_,_,small | bare⟩,_⟩ := buildable_of_encoded (jsoncpp_documented _) (fun _ => rfl) rfl (codecOf_parses squareJson)
      square_argument full encoded
    · cases small
    · exact bare trivial
  · rintro ⟨data,encoded,_⟩
    obtain ⟨none | bytesless,_⟩ := cloneable_of_encoded (jsoncpp_documented _) rfl (codecOf_parses tagsJson) tags_argument
      ⟨trivial,trivial⟩ encoded
    · cases none
    · exact bytesless

end CppSdk.MethodCoding

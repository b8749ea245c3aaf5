import CppSdk.CallData
import CppSdk.Signatures

/-!
Functions named by a signature. The types are cut out of the text between the first
parentheses and hashed as they are spelled, while the factory builds the arguments from
prefixes of the spelling. Both agree exactly for the strings that are `Spelled`: the
name has no blanks inside, nothing follows the parenthesis, no parameter is empty, and each
is the canonical text of a type that the factory builds as it should.
-/
namespace CppSdk.SignatureStrings
open CppSdk.ByteString CppSdk.Runtime CppSdk.Texts CppSdk.JsonValues CppSdk.ContractABIType
open CppSdk.ContractABIDefinitionFactory CppSdk.AbiCodec CppSdk.CallData
open CppSdk.TypeBuilder (Param namedTypes trees AllBuildable text_ne_nil componentsBuilt wholeExtent buildComponents_iff)
open CppSdk.MethodDefinition hiding buildComponents
open CppSdk.Signatures (popComma_texts span_unique)

/-! ### Texts -/

/-- The text without its blanks. -/
def strip (text : Bytes) : Bytes := text.filter (fun c => !isSpace c)

private theorem contains_iff {part text : Bytes} : contains part text = true ↔ part <:+: text := by
  induction text with
  | nil => rw [contains,List.isEmpty_iff,List.infix_nil]
  | cons c rest ih => rw [contains,Bool.or_eq_true,ih,List.isPrefixOf_iff_prefix,List.infix_cons_iff]

private theorem trim_within (text : Bytes) : trim text <:+: text := Blanks.trimBy_within
theorem strip_append (front back : Bytes) : strip (front ++ back) = strip front ++ strip back := Blanks.stripBy_append front back
theorem strip_clean {text : Bytes} (clean : ∀ c ∈ text, isSpace c = false) : strip text = text := Blanks.stripBy_clean clean
theorem strip_trim (text : Bytes) : strip (trim text) = strip text := Blanks.stripBy_trimBy text
/-- Only blanks are trimmed to nothing. -/
theorem trim_nil {text : Bytes} : trim text = [] ↔ strip text = [] := Blanks.trimBy_nil
private theorem strip_intercalate (texts : List Bytes) :
    strip ((lit ",").intercalate texts) = (lit ",").intercalate (texts.map strip) := Blanks.stripBy_intercalate rfl texts

/-- A text is cut at the first of its characters `c`. -/
theorem cut_first {c : UInt8} {text : Bytes} {position : Nat} (found : text.idxOf? c = some position) :
    text = text.take position ++ c :: text.drop (position + 1) ∧ c ∉ text.take position := by
  obtain ⟨inside,here,before⟩ := List.idxOf?_eq_some_iff.mp found
  constructor
  · have split := List.take_append_drop position text
    rw [List.drop_eq_getElem_cons inside,here] at split
    exact split.symm
  · intro member
    obtain ⟨i,bound,same⟩ := List.getElem_of_mem member
    rw [List.length_take] at bound
    exact before i (by omega) (by rw [← same,List.getElem_take])

/-- A text is cut at the first of two characters, of which `o` comes first. -/
theorem cut_between {o c : UInt8} {s : Bytes} {p0 p1 : Nat} (opened : s.idxOf? o = some p0) (closed : s.idxOf? c = some p1)
    (ordered : p0 < p1) :
    s = s.take p0 ++ o :: ((s.drop (p0 + 1)).take (p1 - p0 - 1) ++ c :: s.drop (p1 + 1)) ∧ o ∉ s.take p0 ∧
      c ∉ s.take p0 ++ o :: (s.drop (p0 + 1)).take (p1 - p0 - 1) := by
  obtain ⟨whole,opening⟩ := cut_first opened
  have closing := (cut_first closed).2
  obtain ⟨bound,here,_⟩ := List.idxOf?_eq_some_iff.mp closed
  have cut : s.drop p1 = c :: s.drop (p1 + 1) := by rw [List.drop_eq_getElem_cons bound,here]
  have middle : s.drop (p0 + 1) = (s.drop (p0 + 1)).take (p1 - p0 - 1) ++ c :: s.drop (p1 + 1) := by
    have split := List.take_append_drop (p1 - p0 - 1) (s.drop (p0 + 1))
    rw [List.drop_drop,show p0 + 1 + (p1 - p0 - 1) = p1 by omega,cut] at split
    exact split.symm
  have same : s = s.take p0 ++ o :: ((s.drop (p0 + 1)).take (p1 - p0 - 1) ++ c :: s.drop (p1 + 1)) := by
    rw [← middle]
    exact whole
  refine ⟨same,opening,?_⟩
  have size : (s.take p0 ++ o :: (s.drop (p0 + 1)).take (p1 - p0 - 1)).length = p1 := by
    simp only [List.length_append,List.length_cons,List.length_take,List.length_drop]
    omega
  have whole' : s = (s.take p0 ++ o :: (s.drop (p0 + 1)).take (p1 - p0 - 1)) ++ c :: s.drop (p1 + 1) :=
    same.trans (by simp only [List.append_assoc,List.cons_append])
  exact (congrArg (List.take p1) whole').trans (List.take_left' size) ▸ closing

/-- There is one way to cut a text at the first of its characters `c`. -/
theorem cut_unique {c : UInt8} {front front' rest rest' : Bytes} (absent : c ∉ front) (absent' : c ∉ front')
    (same : front ++ c :: rest = front' ++ c :: rest') : front = front' ∧ rest = rest' := by
  have unlike : ∀ {text : Bytes}, c ∉ text → ∀ d ∈ text, d ≠ c := fun absent d member same => absent (same ▸ member)
  have stops : ∀ {more : Bytes}, ∀ d ∈ (c :: more).head?, ¬ d ≠ c := by
    rintro more d ⟨⟩ other
    exact other rfl
  obtain ⟨fronts,rests⟩ := span_unique (unlike absent) (unlike absent') stops stops same
  exact ⟨fronts,(List.cons.inj rests).2⟩

/-- Where the two characters are that a text is cut at. -/
theorem positions_between {o c : UInt8} {text front inner rest : Bytes} (same : text = front ++ o :: (inner ++ c :: rest))
    (opening : o ∉ front) (closing : c ∉ front ++ o :: inner) :
    ∃ left right, text.idxOf? o = some left ∧ text.idxOf? c = some right ∧ left < right ∧ text.take left = front ∧
      (text.drop (left + 1)).take (right - left - 1) = inner ∧ text.drop (right + 1) = rest := by
  have whole : text = (front ++ o :: inner) ++ c :: rest := by rw [same,List.append_assoc,List.cons_append]
  refine ⟨front.length,front.length + 1 + inner.length,?_,?_,by omega,?_,?_,?_⟩
  · rw [same]
    exact idxOf_first front opening _
  · rw [whole,idxOf_first _ closing,List.length_append,List.length_cons]
    congr 1
    omega
  · rw [same]
    exact List.take_left
  · have shift : text = (front ++ [o]) ++ (inner ++ c :: rest) := by rw [same]; simp
    rw [shift,List.drop_left' (by simp)]
    exact List.take_left' (by omega)
  · have shift : text = (front ++ o :: (inner ++ [c])) ++ rest := by rw [same]; simp
    rw [shift]
    exact List.drop_left' (by simp; omega)

/-! ### The parts of a signature -/

/-- The parts of a signature around its first parentheses. -/
structure Parts (s front inner rest : Bytes) : Prop where
  same : s = front ++ 40 :: (inner ++ 41 :: rest)
  opening : 40 ∉ front
  closing : 41 ∉ front ++ 40 :: inner

theorem parts_unique {s front front' inner inner' rest rest' : Bytes} (parts : Parts s front inner rest)
    (parts' : Parts s front' inner' rest') : front = front' ∧ inner = inner' ∧ rest = rest' := by
  obtain ⟨rfl,tail⟩ := cut_unique parts.opening parts'.opening (parts.same.symm.trans parts'.same)
  have inside : ∀ {text : Bytes}, 41 ∉ front ++ 40 :: text → 41 ∉ text := fun absent member =>
    absent (List.mem_append_right _ (List.mem_cons_of_mem _ member))
  obtain ⟨rfl,last⟩ := cut_unique (inside parts.closing) (inside parts'.closing) tail
  exact ⟨rfl,rfl,last⟩

/-- The method of a name and the spelled types. -/
def spelledMethod (name : Bytes) (types : List Bytes) : ContractABIMethodDefinition :=
  { name,type := lit "function",inputs := types.map (fun type => .mk [] type false []) }

/-- The parts around parentheses at two positions. -/
theorem parts_of_cuts {s : Bytes} {p0 p1 : Nat} (opened : s.idxOf? 40 = some p0) (closed : s.idxOf? 41 = some p1) (ordered : p0 < p1) :
    Parts s (s.take p0) ((s.drop (p0 + 1)).take (p1 - p0 - 1)) (s.drop (p1 + 1)) := by
  obtain ⟨same,opening,closing⟩ := cut_between opened closed ordered
  exact ⟨same,opening,closing⟩

/-- The parts that a method is built from. -/
theorem buildMethodBySignature_ok {s : Bytes} {m : ContractABIMethodDefinition} (built : buildMethodBySignature s = .ok m) :
    ∃ front inner rest, Parts s front inner rest ∧ contains (lit "tuple") (trim inner) = false ∧
      m = spelledMethod (trim front) (signatureTypes (trim inner)) := by
  unfold buildMethodBySignature at built
  split at built
  case h_2 => cases built
  case h_1 p0 p1 opened closed =>
    dsimp only at built
    split at built
    · cases built
    · rename_i ordered
      rw [not_or,Nat.not_le] at ordered
      split at built
      · cases built
      · rename_i plain
        cases built
        exact ⟨_,_,_,parts_of_cuts opened closed ordered.1,Bool.not_eq_true _ ▸ plain,rfl⟩

/-! ### Canonical types -/

/-- A type spelled with its extent, and no tuple. -/
def Canonical : Param → Prop
  | .uint extent => extent.isSome = true
  | .int extent => extent.isSome = true
  | .tuple _ => False
  | .list element => Canonical element
  | .fixed element _ => Canonical element
  | _ => True

/-- No parenthesis, no comma and no blank. -/
def Solid (text : Bytes) : Prop := ∀ c ∈ text, c ≠ 40 ∧ c ≠ 41 ∧ c ≠ 44 ∧ isSpace c = false

private theorem solid_append {front back : Bytes} (left : Solid front) (right : Solid back) : Solid (front ++ back) :=
  fun c member => (List.mem_append.mp member).elim (left c) (right c)
private theorem solid_of_all {text : Bytes} (all : text.all (fun c => c != 40 && c != 41 && c != 44 && !isSpace c) = true) : Solid text := by
  intro c member
  simpa [and_assoc] using List.all_eq_true.mp all c member
private theorem solid_digits {digits : Bytes} (all : ∀ c ∈ digits, isDigit c = true) : Solid digits := by
  intro c member
  have digit := all c member
  refine ⟨?_,?_,?_,isSpace_of_isDigit digit⟩ <;> (rintro rfl; cases digit)
private theorem solid_bracket (extent : Nat) : Solid (bracket extent) := by
  obtain ⟨digit,same,digits,_⟩ := bracket_eq extent
  have opening : Solid [91] := solid_of_all (by decide)
  have closing : Solid [93] := solid_of_all (by decide)
  rw [same]
  exact solid_append opening (solid_append (solid_digits digits) closing)
private theorem solid_text (t : Param) : Solid t.text := by
  have extents : ∀ extent, Solid (TypeBuilder.extentText extent) := by
    intro extent
    cases extent with
    | none => exact fun c member => (nomatch member)
    | some extent => exact solid_digits (stdToString_decimal extent.1).digits
  induction t using Param.induct with
  | uint extent => exact solid_append (solid_of_all (by decide)) (extents extent)
  | int extent => exact solid_append (solid_of_all (by decide)) (extents extent)
  | bytesN fixedN => exact solid_append (solid_of_all (by decide)) (solid_digits (stdToString_decimal fixedN.1).digits)
  | list element ih => exact solid_append ih (solid_bracket 0)
  | fixed element dimension ih => exact solid_append ih (solid_bracket dimension.1)
  | tuple components =>
    have word : Solid (lit "tuple") := solid_of_all (by decide)
    exact word
  | _ => exact solid_of_all (by decide)
theorem closing_intercalate {texts : List Bytes} (each : ∀ text ∈ texts, 41 ∉ text) : 41 ∉ (lit ",").intercalate texts := by
  induction texts with
  | nil => simp
  | cons text rest ih =>
    obtain ⟨absent,later⟩ := List.forall_mem_cons.mp each
    cases rest with
    | nil => simpa using absent
    | cons next rest =>
      have comma : (41 : UInt8) ∉ lit "," := by decide
      rw [List.intercalate_cons_cons,List.mem_append,List.mem_append]
      exact not_or.mpr ⟨not_or.mpr ⟨absent,comma⟩,ih later⟩

private theorem canonical_components {t : Param} (canonical : Canonical t) : t.components = [] := by
  induction t using Param.induct with
  | tuple components => exact canonical.elim
  | list element ih => exact ih canonical
  | fixed element dimension ih => exact ih canonical
  | _ => rfl

/-- A tree is that of one canonical type. -/
theorem canonical_tree {indeterminate : Bool} {t t' : Param} (canonical : Canonical t) (canonical' : Canonical t')
    (same : t.tree indeterminate [] = t'.tree indeterminate []) : t = t' := by
  induction t using Param.induct generalizing t' with
  | tuple components => exact canonical.elim
  | list element ih =>
    cases t' with
    | list element' =>
      simp only [Param.tree,AbstractType.dynamicList.injEq,List.cons.injEq,and_true,true_and] at same
      have inner : Canonical element' := canonical'
      rw [ih canonical inner same]
    | _ => cases same
  | fixed element dimension ih =>
    cases t' with
    | fixed element' dimension' =>
      simp only [Param.tree,AbstractType.fixedList.injEq,true_and] at same
      have sizes := congrArg List.length same.2
      rw [List.length_replicate,List.length_replicate] at sizes
      have members := same.2
      rw [sizes,List.replicate_right_inj (Nat.ne_of_gt dimension'.2)] at members
      have inner : Canonical element' := canonical'
      rw [ih canonical inner members,Subtype.ext sizes]
    | _ => cases same
  | uint extent =>
    cases t' with
    | uint extent' =>
      obtain ⟨e,rfl⟩ := Option.isSome_iff_exists.mp canonical
      obtain ⟨e',rfl⟩ := Option.isSome_iff_exists.mp canonical'
      simp only [Param.tree,Option.getD_some,AbstractType.uint.injEq,and_true,true_and] at same
      rw [same]
    | _ => cases same
  | int extent =>
    cases t' with
    | int extent' =>
      obtain ⟨e,rfl⟩ := Option.isSome_iff_exists.mp canonical
      obtain ⟨e',rfl⟩ := Option.isSome_iff_exists.mp canonical'
      simp only [Param.tree,Option.getD_some,AbstractType.int.injEq,and_true,true_and] at same
      rw [same]
    | _ => cases same
  | bytesN fixedN =>
    cases t' with
    | bytesN fixedN' =>
      simp only [Param.tree,AbstractType.fixedBytes.injEq,and_true,true_and] at same
      rw [same]
    | _ => cases same
  | _ => cases t' <;> first | rfl | cases same
private theorem canonical_trees {indeterminate : Bool} {ts ts' : List Param} (canonical : ∀ t ∈ ts, Canonical t)
    (canonical' : ∀ t ∈ ts', Canonical t)
    (same : ts.map (fun t => t.tree indeterminate []) = ts'.map (fun t => t.tree indeterminate [])) : ts = ts' := by
  induction ts generalizing ts' with
  | nil => exact (List.map_eq_nil_iff.mp same.symm).symm
  | cons t rest ih =>
    cases ts' with
    | nil => cases same
    | cons t' rest' =>
      obtain ⟨here,later⟩ := List.forall_mem_cons.mp canonical
      obtain ⟨here',later'⟩ := List.forall_mem_cons.mp canonical'
      rw [List.map_cons,List.map_cons,List.cons.injEq] at same
      rw [canonical_tree here here' same.1,ih later later' same.2]

/-! ### Signatures -/

/-- The signature of a name and the texts of types. -/
def signatureText (name : Bytes) (types : List Bytes) : Bytes := name ++ (lit "(" ++ ((lit ",").intercalate types ++ lit ")"))

private theorem infix_intercalate {types : List Bytes} {type : Bytes} (listed : type ∈ types) : type <:+: (lit ",").intercalate types := by
  induction types with
  | nil => cases listed
  | cons first rest ih =>
    cases rest with
    | nil =>
      rw [List.mem_singleton.mp listed,List.intercalate_singleton]
    | cons next rest =>
      rw [List.intercalate_cons_cons,List.append_assoc]
      rcases List.mem_cons.mp listed with rfl | later
      · exact (List.prefix_append _ _).isInfix
      · exact (ih later).trans ((List.suffix_append _ _).trans (List.suffix_append _ _)).isInfix
/-- A text is its pieces with commas between them. -/
theorem intercalate_pieces (text : Bytes) : (lit ",").intercalate (text.splitOn 44) = text := List.intercalate_splitOn 44
theorem pieces_intercalate {pieces : List Bytes} (each : ∀ piece ∈ pieces, 44 ∉ piece) (some : pieces ≠ []) :
    ((lit ",").intercalate pieces).splitOn 44 = pieces := List.splitOn_intercalate 44 each some
theorem comma_pieces (text : Bytes) : ∀ piece ∈ text.splitOn 44, 44 ∉ piece := by
  induction text with
  | nil => simp
  | cons c rest ih =>
    rw [List.splitOn_cons_eq_if_modifyHead]
    split
    · exact List.forall_mem_cons.mpr ⟨by simp,ih⟩
    · rename_i other
      obtain ⟨first,later,split⟩ := List.exists_cons_of_ne_nil (List.splitOn_ne_nil 44 rest)
      rw [split] at ih ⊢
      obtain ⟨here,tail⟩ := List.forall_mem_cons.mp ih
      refine List.forall_mem_cons.mpr ⟨fun member => ?_,tail⟩
      rcases List.mem_cons.mp member with same | inside
      · exact other (by simp [same])
      · exact here inside

/-- What is cut out of a text without the word `tuple` does not start with it. -/
theorem signatureTypes_plain {strType type : Bytes} (plain : contains (lit "tuple") strType = false)
    (listed : type ∈ signatureTypes strType) : startsWith type (lit "tuple") = false := by
  obtain ⟨piece,member,rfl⟩ := List.mem_map.mp (List.mem_of_mem_filter listed)
  rw [← Bool.not_eq_true] at plain ⊢
  intro word
  apply plain
  rw [contains_iff]
  have whole := infix_intercalate member
  rw [intercalate_pieces] at whole
  exact ((List.isPrefixOf_iff_prefix.mp word).isInfix.trans (trim_within piece)).trans whole

private theorem typesAsString_spelled {types : List Bytes} (plain : ∀ type ∈ types, startsWith type (lit "tuple") = false) :
    typesAsString (types.map (fun type => .mk [] type false [])) = types.flatMap (fun type => type ++ lit ",") := by
  induction types with
  | nil => rfl
  | cons type rest ih =>
    obtain ⟨here,later⟩ := List.forall_mem_cons.mp plain
    have printed : getTypeAsString (.mk [] type false []) = type := by
      rw [getTypeAsString,if_neg (by rw [here]; exact Bool.false_ne_true)]
    rw [List.map_cons,typesAsString,List.flatMap_cons,printed,ih later,List.append_assoc]
/-- Types are hashed as they are spelled. -/
theorem signature_spelled (name : Bytes) {types : List Bytes} (plain : ∀ type ∈ types, startsWith type (lit "tuple") = false) :
    (spelledMethod name types).getMethodSignatureAsString = signatureText name types := by
  have last : (name ++ lit "(").getLast? ≠ some 44 := by
    have parenthesis : (name ++ lit "(").getLast? = some 40 := List.getLast?_concat
    rw [parenthesis]
    decide
  have printed := typesAsString_spelled plain
  show popComma (name ++ lit "(" ++ typesAsString (types.map (fun type => .mk [] type false []))) ++ lit ")" = _
  rw [printed,popComma_texts _ last,signatureText]
  simp only [List.append_assoc]

/-! ### Inputs -/

section
variable {indeterminate : Bool} {ts : List Param}

private theorem trees_unnamed : trees indeterminate (ts.map (fun t => ([],t))) = ts.map (fun t => t.tree indeterminate []) := by
  induction ts with
  | nil => rfl
  | cons t rest ih => rw [List.map_cons,List.map_cons,trees,ih]
private theorem allBuildable_unnamed : AllBuildable (ts.map (fun t => ([],t))) ↔ ∀ t ∈ ts, t.Buildable := by
  induction ts with
  | nil => simp [AllBuildable]
  | cons t rest ih => rw [List.map_cons,AllBuildable,ih,List.forall_mem_cons]
private theorem inputs_unnamed (canonical : ∀ t ∈ ts, Canonical t) (name : Bytes) :
    (spelledMethod name (ts.map Param.text)).inputs = namedTypes (ts.map (fun t => ([],t))) := by
  show ((ts.map Param.text).map (fun type => NamedType.mk [] type false [])) = _
  induction ts with
  | nil => rfl
  | cons t rest ih =>
    obtain ⟨here,later⟩ := List.forall_mem_cons.mp canonical
    rw [List.map_cons,List.map_cons,List.map_cons,namedTypes,ih later,canonical_components here]

/-- Canonical types are built as their trees exactly when they are buildable. -/
theorem buildInput_canonical (canonical : ∀ t ∈ ts, Canonical t) (name : Bytes) :
    buildInput indeterminate (spelledMethod name (ts.map Param.text)).inputs =
      .ok (.struct [] (ts.map (fun t => t.tree indeterminate []))) ↔ ∀ t ∈ ts, t.Buildable := by
  rw [inputs_unnamed canonical,← allBuildable_unnamed,← buildComponents_iff (fun c _ => componentsBuilt c.2),trees_unnamed]
  constructor
  · intro built
    obtain ⟨members,all,same⟩ := bind_ok.mp built
    cases same
    exact all
  · exact fun all => bind_ok.mpr ⟨_,all,rfl⟩

end

/-! ### The property -/

/-- The types that the factory builds are spelled by the string, in their canonical texts,
    and those are hashed: the string without blanks is the signature, and the call data of
    any arguments begins with its hash. -/
def Selects (C : ContractABICodec) (s : Bytes) (m : ContractABIMethodDefinition) (tree : AbstractType) : Prop :=
  ∃ ts : List Param, (∀ t ∈ ts, Canonical t) ∧ strip s = signatureText m.name (ts.map Param.text) ∧
    m.getMethodSignatureAsString = signatureText m.name (ts.map Param.text) ∧
    tree = .struct [] (ts.map (fun t => t.tree C.indeterminate [])) ∧
    ∀ jsonParams data, encodeMethodBySignature C s jsonParams = .ok data →
      data.take 4 = (C.H.hash (signatureText m.name (ts.map Param.text))).take 4

/-- No blanks stand inside the name, only blanks follow the first closing parenthesis, and
    what stands before it is blank or the canonical texts of buildable types, each between
    blanks, with commas between them. -/
def Spelled (s : Bytes) : Prop :=
  ∃ front inner rest, Parts s front inner rest ∧ strip front = trim front ∧ strip rest = [] ∧ (strip inner = [] ∨
    ∃ ts : List Param, (∀ t ∈ ts, Canonical t ∧ t.Buildable) ∧ ((trim inner).splitOn 44).map trim = ts.map Param.text)

section
variable {ts : List Param}

private theorem clean_text (t : Param) : ∀ c ∈ t.text, isSpace c = false := fun c member => (solid_text t c member).2.2.2
private theorem strip_texts (ts : List Param) : (ts.map Param.text).map strip = ts.map Param.text := by
  rw [List.map_map]
  exact List.map_congr_left (fun t _ => strip_clean (clean_text t))
private theorem comma_texts (ts : List Param) : ∀ text ∈ ts.map Param.text, 44 ∉ text := by
  intro text listed comma
  obtain ⟨t,_,rfl⟩ := List.mem_map.mp listed
  exact (solid_text t 44 comma).2.2.1 rfl
private theorem closing_texts (ts : List Param) : 41 ∉ (lit ",").intercalate (ts.map Param.text) := by
  apply closing_intercalate
  intro text listed member
  obtain ⟨t,_,rfl⟩ := List.mem_map.mp listed
  exact (solid_text t 41 member).2.1 rfl

theorem signatureText_eq (name : Bytes) (types : List Bytes) :
    signatureText name types = name ++ 40 :: ((lit ",").intercalate types ++ [41]) := by
  have opening : lit "(" = [40] := rfl
  have closing : lit ")" = [41] := rfl
  rw [signatureText,opening,closing]
  rfl
theorem strip_parts {s front inner rest : Bytes} (parts : Parts s front inner rest) :
    strip s = strip front ++ 40 :: (strip inner ++ 41 :: strip rest) := by
  have opening : ∀ text : Bytes, strip (40 :: text) = 40 :: strip text := fun _ => rfl
  have closing : ∀ text : Bytes, strip (41 :: text) = 41 :: strip text := fun _ => rfl
  rw [parts.same,strip_append,opening,strip_append,closing]

/-- The pieces of a text without blanks. -/
theorem strip_pieces (text : Bytes) : strip text = (lit ",").intercalate (((trim text).splitOn 44).map strip) := by
  rw [← strip_intercalate,intercalate_pieces,strip_trim]

/-- A string without blanks is the signature of types when the name has none, nothing
    follows the parenthesis and the text before it is that of the types. -/
theorem strip_iff {s front inner rest : Bytes} (parts : Parts s front inner rest) :
    strip s = signatureText (trim front) (ts.map Param.text) ↔
      strip front = trim front ∧ strip inner = (lit ",").intercalate (ts.map Param.text) ∧ strip rest = [] := by
  rw [strip_parts parts,signatureText_eq]
  constructor
  · intro same
    have named : 40 ∉ strip front := fun member => parts.opening (List.mem_of_mem_filter member)
    have trimmed : 40 ∉ trim front := fun member => parts.opening ((trim_within front).subset member)
    obtain ⟨name,tail⟩ := cut_unique named trimmed same
    have inside : 41 ∉ strip inner := fun member =>
      parts.closing (List.mem_append_right _ (List.mem_cons_of_mem _ (List.mem_of_mem_filter member)))
    obtain ⟨text,last⟩ := cut_unique inside (closing_texts ts) tail
    exact ⟨name,text,last⟩
  · rintro ⟨name,text,blank⟩
    rw [name,text,blank]

end

/-- The call data begins with the hash of the signature. -/
theorem selector_of_encode {C : ContractABICodec} (documented : C.U.Documented) {s jsonParams data : Bytes}
    {m : ContractABIMethodDefinition} (built : buildMethodBySignature s = .ok m)
    (encoded : encodeMethodBySignature C s jsonParams = .ok data) : data.take 4 = (C.H.hash m.getMethodSignatureAsString).take 4 := by
  rw [encodeMethodBySignature,built] at encoded
  obtain ⟨tree,encoding,_,_,rfl⟩ := encodeDefinition_ok documented encoded
  exact List.take_left' (methodID_four C.H m)

section
variable {C : ContractABICodec} {s : Bytes} {m : ContractABIMethodDefinition} {tree : AbstractType}

/-- The texts of the types are the pieces, trimmed. -/
theorem pieces_of_strip {inner : Bytes} {ts : List Param} (text : strip inner = (lit ",").intercalate (ts.map Param.text))
    (hashed : (lit ",").intercalate (signatureTypes (trim inner)) = (lit ",").intercalate (ts.map Param.text)) (some : ts ≠ []) :
    ((trim inner).splitOn 44).map trim = ts.map Param.text := by
  have texts : ts.map Param.text ≠ [] := by simpa using some
  have known : ((trim inner).splitOn 44).map strip = ts.map Param.text := by
    rw [strip_pieces] at text
    have cut := congrArg (List.splitOn 44) text
    rw [pieces_intercalate (comma_texts ts) texts] at cut
    refine (pieces_intercalate ?_ (by simp)).symm.trans cut
    intro piece listed comma
    obtain ⟨whole,member,rfl⟩ := List.mem_map.mp listed
    exact comma_pieces _ whole member (List.mem_of_mem_filter comma)
  -- no piece is blank, so none is left out
  have kept : signatureTypes (trim inner) = ((trim inner).splitOn 44).map trim := by
    refine List.filter_eq_self.mpr (fun type listed => decide_eq_true ?_)
    obtain ⟨piece,member,rfl⟩ := List.mem_map.mp listed
    rw [Ne,trim_nil]
    have spelled : strip piece ∈ ts.map Param.text := known ▸ List.mem_map_of_mem member
    obtain ⟨t,_,same⟩ := List.mem_map.mp spelled
    exact same ▸ text_ne_nil t
  rw [kept] at hashed
  have cut := congrArg (List.splitOn 44) hashed
  rw [pieces_intercalate (comma_texts ts) texts] at cut
  refine (pieces_intercalate ?_ (by simp)).symm.trans cut
  intro piece listed comma
  obtain ⟨whole,member,rfl⟩ := List.mem_map.mp listed
  exact comma_pieces _ whole member ((trim_within whole).subset comma)

/-- The types that are cut out of canonical pieces. -/
theorem signatureTypes_canonical {inner : Bytes} {ts : List Param} (spelled : ((trim inner).splitOn 44).map trim = ts.map Param.text) :
    signatureTypes (trim inner) = ts.map Param.text ∧ strip inner = (lit ",").intercalate (ts.map Param.text) := by
  constructor
  · rw [signatureTypes,spelled]
    refine List.filter_eq_self.mpr (fun type listed => decide_eq_true ?_)
    obtain ⟨t,_,rfl⟩ := List.mem_map.mp listed
    exact text_ne_nil t
  · have stripped : ((trim inner).splitOn 44).map strip = ts.map Param.text := by
      rw [← strip_texts ts,← spelled,List.map_map]
      exact List.map_congr_left (fun piece _ => (strip_trim piece).symm)
    rw [strip_pieces,stripped]

private theorem spelled_of_selects (built : buildMethodBySignature s = .ok m) (typed : buildInput C.indeterminate m.inputs = .ok tree)
    (selects : Selects C s m tree) : Spelled s := by
  obtain ⟨front,inner,rest,parts,plain,rfl⟩ := buildMethodBySignature_ok built
  obtain ⟨ts,canonical,whole,hashed,rfl,_⟩ := selects
  obtain ⟨name,text,blank⟩ := (strip_iff parts).mp whole
  refine ⟨front,inner,rest,parts,name,blank,?_⟩
  by_cases none : ts = []
  · subst none
    exact .inl text
  · rw [signature_spelled (trim front) (fun type listed => signatureTypes_plain plain listed)] at hashed
    have types : (lit ",").intercalate (signatureTypes (trim inner)) = (lit ",").intercalate (ts.map Param.text) :=
      List.append_cancel_right (List.append_cancel_left (List.append_cancel_left hashed))
    have spelled := pieces_of_strip text types none
    rw [(signatureTypes_canonical spelled).1] at typed
    have buildable := (buildInput_canonical canonical (trim front)).mp typed
    exact .inr ⟨ts,fun t listed => ⟨canonical t listed,buildable t listed⟩,spelled⟩

private theorem selects_of_spelled (documented : C.U.Documented) (built : buildMethodBySignature s = .ok m)
    (typed : buildInput C.indeterminate m.inputs = .ok tree) (spelled : Spelled s) : Selects C s m tree := by
  obtain ⟨front,inner,rest,parts,plain,same⟩ := buildMethodBySignature_ok built
  obtain ⟨front',inner',rest',parts',name,blank,pieces⟩ := spelled
  obtain ⟨rfl,rfl,rfl⟩ := parts_unique parts parts'
  -- the types that were cut out, and those that they are the texts of
  have types : ∃ ts : List Param, (∀ t ∈ ts, Canonical t ∧ t.Buildable) ∧ signatureTypes (trim inner) = ts.map Param.text ∧
      strip inner = (lit ",").intercalate (ts.map Param.text) := by
    rcases pieces with empty | ⟨ts,each,pieces⟩
    · refine ⟨[],by simp,?_,empty⟩
      rw [trim_nil.mpr empty]
      decide
    · exact ⟨ts,each,signatureTypes_canonical pieces⟩
  obtain ⟨ts,each,cut,text⟩ := types
  have hashed : m.getMethodSignatureAsString = signatureText m.name (ts.map Param.text) := by
    rw [same,signature_spelled (trim front) (fun type listed => signatureTypes_plain plain listed),cut]
    rfl
  refine ⟨ts,fun t listed => (each t listed).1,?_,hashed,?_,fun jsonParams data encoded => ?_⟩
  · rw [same]
    exact (strip_iff parts).mpr ⟨name,text,blank⟩
  · have trees : buildInput C.indeterminate (spelledMethod (trim front) (ts.map Param.text)).inputs = .ok _ :=
      (buildInput_canonical (fun t listed => (each t listed).1) (trim front)).mpr (fun t listed => (each t listed).2)
    rw [same,cut] at typed
    exact Except.ok.inj (typed.symm.trans trees)
  · rw [← hashed]
    exact selector_of_encode documented built encoded

/-- Strings that select the functions of one name and one tree give the same call data. -/
theorem encode_agrees {s' : Bytes} {m' : ContractABIMethodDefinition} (built : buildMethodBySignature s = .ok m)
    (typed : buildInput C.indeterminate m.inputs = .ok tree) (selects : Selects C s m tree)
    (built' : buildMethodBySignature s' = .ok m') (typed' : buildInput C.indeterminate m'.inputs = .ok tree)
    (selects' : Selects C s' m' tree) (named : m'.name = m.name) (jsonParams : Bytes) :
    encodeMethodBySignature C s' jsonParams = encodeMethodBySignature C s jsonParams := by
  obtain ⟨ts,canonical,_,hashed,same,_⟩ := selects
  obtain ⟨ts',canonical',_,hashed',same',_⟩ := selects'
  have trees : ts'.map (fun t => t.tree C.indeterminate []) = ts.map (fun t => t.tree C.indeterminate []) := by
    rw [same,AbstractType.struct.injEq] at same'
    exact same'.2.symm
  have types : ts' = ts := canonical_trees canonical' canonical trees
  have signature : m'.getMethodSignatureAsString = m.getMethodSignatureAsString := by rw [hashed,hashed',named,types]
  have selector : m'.getMethodID C.H = m.getMethodID C.H := by
    rw [ContractABIMethodDefinition.getMethodID,ContractABIMethodDefinition.getMethodID,
      ContractABIMethodDefinition.signatureHash,ContractABIMethodDefinition.signatureHash,signature]
  simp only [encodeMethodBySignature,built,built',ok_bind,encodeDefinition,encodeMethodJson,typed,typed',selector]

/-- A string that is accepted selects the function that its arguments are encoded for
    exactly when it is spelled. -/
theorem signature_selects_iff (documented : C.U.Documented) (built : buildMethodBySignature s = .ok m)
    (typed : buildInput C.indeterminate m.inputs = .ok tree) :
    (Selects C s m tree ↔ Spelled s) ∧
      ∀ s' m', buildMethodBySignature s' = .ok m' → buildInput C.indeterminate m'.inputs = .ok tree → m'.name = m.name →
        Spelled s → Spelled s' → ∀ jsonParams, encodeMethodBySignature C s' jsonParams = encodeMethodBySignature C s jsonParams := by
  constructor
  · exact ⟨spelled_of_selects built typed,selects_of_spelled documented built typed⟩
  · intro s' m' built' typed' named spelled spelled'
    exact encode_agrees built typed (selects_of_spelled documented built typed spelled) built' typed'
      (selects_of_spelled documented built' typed' spelled') named

end

/-! ### An alias -/

/-- The reference codec with a hash that repeats the length of the text, and a parser of one
    list of parameters. -/
def lengthCodec : ContractABICodec :=
  { EventTopics.zeroCodec (fun text => if text = lit "[1]" then some (.array [.int 1]) else none) with
    H := ⟨fun text => List.replicate 32 (UInt8.ofNat text.length),fun _ => List.length_replicate⟩ }
/-- The types of the tree of a number and a boolean. -/
def numberAndFlag : List Param := [.uint (some wholeExtent),.bool]

private theorem canonical_numberAndFlag : ∀ t ∈ numberAndFlag, Canonical t ∧ t.Buildable := by
  have number : Canonical (.uint (some wholeExtent)) := rfl
  intro t listed
  rcases List.mem_pair.mp listed with rfl | rfl
  · exact ⟨number,trivial⟩
  · exact ⟨trivial,trivial⟩
theorem spelled_numberAndFlag : Spelled (lit " f( uint256,bool )") :=
  ⟨lit " f",lit " uint256,bool ",[],⟨by decide,by decide,by decide⟩,by decide,by decide,
    .inr ⟨numberAndFlag,canonical_numberAndFlag,by decide +kernel⟩⟩
/-- Blanks around the types leave the function as it is. -/
theorem signature_selects_numberAndFlag :
    (Selects lengthCodec (lit " f( uint256,bool )") (spelledMethod (lit "f") (numberAndFlag.map Param.text))
      (.struct [] (numberAndFlag.map (fun t => t.tree false []))) ↔ Spelled (lit " f( uint256,bool )")) ∧
      ∀ s' m', buildMethodBySignature s' = .ok m' →
        buildInput lengthCodec.indeterminate m'.inputs = .ok (.struct [] (numberAndFlag.map (fun t => t.tree false []))) →
        m'.name = lit "f" → Spelled (lit " f( uint256,bool )") → Spelled s' →
        ∀ jsonParams, encodeMethodBySignature lengthCodec s' jsonParams =
          encodeMethodBySignature lengthCodec (lit " f( uint256,bool )") jsonParams :=
  signature_selects_iff reference_documented rfl
    ((buildInput_canonical (fun t listed => (canonical_numberAndFlag t listed).1) (lit "f")).mpr
      (fun t listed => (canonical_numberAndFlag t listed).2))

/-- An alias is hashed as it is spelled: the call is that of another function. -/
theorem alias_breaks : ∃ m tree,
    buildMethodBySignature (lit "f(uint)") = .ok m ∧ buildInput lengthCodec.indeterminate m.inputs = .ok tree ∧
      (∃ m', buildMethodBySignature (lit "f(uint256)") = .ok m' ∧ m'.name = m.name ∧
        buildInput lengthCodec.indeterminate m'.inputs = .ok tree) ∧
      encodeMethodBySignature lengthCodec (lit "f(uint)") (lit "[1]") = .ok ([7,7,7,7] ++ List.replicate 31 0 ++ [1]) ∧
      encodeMethodBySignature lengthCodec (lit "f(uint256)") (lit "[1]") = .ok ([10,10,10,10] ++ List.replicate 31 0 ++ [1]) ∧
      ¬ Selects lengthCodec (lit "f(uint)") m tree := by
  have number : ∀ t ∈ [Param.uint (some wholeExtent)], Canonical t := by
    rintro t (_ | ⟨_,⟨⟩⟩)
    rfl
  refine ⟨spelledMethod (lit "f") [lit "uint"],.struct [] [.uint [] wholeExtent 0],rfl,rfl,
    ⟨spelledMethod (lit "f") [lit "uint256"],rfl,rfl,rfl⟩,ok_of_toOption (by decide +kernel),ok_of_toOption (by decide +kernel),?_⟩
  rintro ⟨ts,canonical,_,hashed,same,_⟩
  have trees : ts.map (fun t => t.tree lengthCodec.indeterminate []) =
      [Param.uint (some wholeExtent)].map (fun t => t.tree lengthCodec.indeterminate []) := by
    rw [AbstractType.struct.injEq] at same
    exact same.2.symm
  rw [canonical_trees canonical number trees] at hashed
  have spelled : lit "f(uint)" = lit "f(uint256)" := hashed
  revert spelled
  decide

end CppSdk.SignatureStrings

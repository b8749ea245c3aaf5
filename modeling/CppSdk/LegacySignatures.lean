import CppSdk.Transition
import CppSdk.TypeStrings

/-!
The older parser of signatures. It cuts the types out of the text between the first
parentheses, leaves out the empty ones and adds each one it accepts to those that the
object holds already, also when a later one is refused. Every call of a sequence is exact
only if the strings are `Simple` or `Refused` and no simple one follows one with types
(`calls_exact_iff`).
-/
namespace CppSdk.LegacySignatures
open CppSdk.ByteString CppSdk.Runtime CppSdk.Transition CppSdk.Blanks
open CppSdk.Texts (isDigit digitsValue stdToString_decimal)
open CppSdk.MethodDefinition (popComma)
open CppSdk.Signatures (popComma_texts)
open CppSdk.SignatureStrings (Parts parts_unique parts_of_cuts positions_between cut_unique closing_intercalate intercalate_pieces signatureText signatureText_eq pieces_intercalate comma_pieces)
open CppSdk.TypeStrings (Pieces bracketed pieces_nil pieces_cons piece_cut cut_piece flatMap_opens bracketed_pieces takeWhile_flat dropWhile_opens)

/-! ### Types -/

/-- `ABI_ELEMENTARY_TYPE`. -/
inductive ElementaryType where
  | invalid | bool | int | uint | bytesN | addr | bytes | string | fixed | unfixed
  deriving DecidableEq

/-- A name followed by each of the numbers. -/
def numbered (kind : String) (numbers : List Nat) : List Bytes := numbers.map (fun n => lit kind ++ stdToString n)
/-- The numbers after `uint` and `int`. -/
def widths : List Nat :=
  [8,16,24,32,40,48,56,64,72,80,88,96,104,112,120,128,136,144,152,160,168,176,184,192,200,208,216,224,232,240,248,256]
/-- `setUint`. -/
def setUint : List Bytes := lit "uint" :: numbered "uint" widths
/-- `setInt`. -/
def setInt : List Bytes := lit "int" :: numbered "int" widths
/-- `setByteN`. -/
def setByteN : List Bytes :=
  numbered "bytes" [1,2,3,4,5,6,7,8,9,10,11,12,13,14,15,16,17,18,19,20,21,22,23,24,25,26,27,28,29,30,31,32]

/-- `getEnumType`. -/
def getEnumType (strType : Bytes) : ElementaryType :=
  if strType = lit "bool" then .bool
  else if strType = lit "address" then .addr
  else if strType = lit "string" then .string
  else if strType = lit "bytes" then .bytes
  else if setUint.contains strType then .uint
  else if setInt.contains strType then .int
  else if setByteN.contains strType then .bytesN
  else .invalid

/-- The one character that counts as blank. -/
def isBlank (c : UInt8) : Bool := c == 32
/-- `trim`. -/
def trim (str : Bytes) : Bytes := trimBy isBlank str

/-- `strtoul` of digits: the largest number where they spell a larger one. -/
def strtoul (digits : Bytes) : Nat := min (digitsValue digits) 18446744073709551615

/-- The loop of `reset` over the rest of the text. -/
def extentsOf (rest : Bytes) : Option (List Nat) :=
  if _ : rest = [] then some []
  else
    match rest.idxOf? 91, rest.idxOf? 93 with
    | some leftBracket, some rightBracket =>
      if rightBracket ≤ leftBracket then none
      else
        let digit := trim ((rest.drop (leftBracket + 1)).take (rightBracket - leftBracket - 1))
        if digit.all isDigit then
          (extentsOf (rest.drop (rightBracket + 1))).map (fun r => (if digit = [] then 0 else strtoul digit) :: r)
        else none
    | _, _ => none
termination_by rest.length
decreasing_by
  have := List.length_pos_iff.mpr ‹¬ rest = []›
  rw [List.length_drop]
  omega

/-- `ABIInType`. -/
structure ABIInType where
  aet : ElementaryType
  strEleType : Bytes
  strType : Bytes
  extents : List Nat

/-- `reset`; where it returns false, the type is cleared. -/
def reset (s : Bytes) : Option ABIInType :=
  let strType := trim s
  let strEleType := trim (strType.takeWhile (fun c => c != 91))
  let t := getEnumType strEleType
  if t = .invalid then none
  else (extentsOf (strType.dropWhile (fun c => c != 91))).map (fun r => ⟨t,strEleType,strType,r⟩)

/-! ### Signatures -/

/-- `ABIFunc`. -/
structure ABIFunc where
  strFuncName : Bytes
  strFuncSignature : Bytes
  allParamsType : List ABIInType

/-- `getParamsType`. -/
def ABIFunc.getParamsType (func : ABIFunc) : List Bytes := func.allParamsType.map ABIInType.strType

/-- The loop of `parser` over the types, with the signature so far: none where it returns
    false, and the types that it has added by then. -/
def parseTypes (sig : Bytes) (allParamsType : List ABIInType) : List Bytes → Option Bytes × List ABIInType
  | [] => (some sig,allParamsType)
  | type :: types =>
    if trim type = [] then parseTypes sig allParamsType types
    else
      match reset (trim type) with
      | none => (none,allParamsType)
      | some at_ => parseTypes (sig ++ trim type ++ lit ",") (allParamsType ++ [at_]) types

/-- `parser`. -/
def ABIFunc.parser (func : ABIFunc) (sig : Bytes) : Bool × ABIFunc :=
  match sig.idxOf? 40, sig.idxOf? 41 with
  | some i0, some i1 =>
    if i1 ≤ i0 then (false,func)
    else
      let strFuncName := trim (sig.take i0)
      let strTypes := (sig.drop (i0 + 1)).take (i1 - i0 - 1)
      match parseTypes (strFuncName ++ lit "(") func.allParamsType (strTypes.splitOn 44) with
      | (none,allParamsType) => (false,{ func with allParamsType })
      | (some sig,allParamsType) =>
        let sig := if sig.getLast? = some 44 then sig.dropLast ++ lit ")" else sig ++ lit ")"
        (true,⟨strFuncName,sig,allParamsType⟩)
  | _, _ => (false,func)

/-- Calls of `parser` on one object. -/
def calls : System ABIFunc Bytes where
  start := ⟨[],[],[]⟩
  step func sig := some (func.parser sig).2

/-! ### The property -/

/-- The text without its blanks. -/
def strip (text : Bytes) : Bytes := stripBy isBlank text
/-- A base type that `getEnumType` knows. -/
def Known (base : Bytes) : Prop := getEnumType base ≠ .invalid
/-- A known base type and brackets with digits in them. -/
def TypeText (type : Bytes) : Prop :=
  ∃ (base : Bytes) (runs : List Bytes), Known base ∧ (∀ run ∈ runs, ∀ c ∈ run, isDigit c = true) ∧ type = base ++ runs.flatMap bracketed

/-- Without blanks, the string is the signature of the name and the types. -/
structure Form (sig name : Bytes) (types : List Bytes) : Prop where
  spelled : strip sig = signatureText name types
  opening : 40 ∉ name
  closing : 41 ∉ name
  typed : ∀ type ∈ types, TypeText type

/-- The call returns true for a string of the form, whose parts the object then holds, and
    returns false for any other, which leaves the object as it was. -/
structure Exact (func : ABIFunc) (sig : Bytes) : Prop where
  accepted : (∃ name types, Form sig name types) → ∃ name types, Form sig name types ∧ (func.parser sig).1 = true ∧
    (func.parser sig).2.strFuncName = name ∧ (func.parser sig).2.strFuncSignature = signatureText name types ∧
    (func.parser sig).2.getParamsType = types
  rejected : (¬ ∃ name types, Form sig name types) → func.parser sig = (false,func)

/-! ### The condition -/

/-- A type that `reset` accepts: pieces after a known base type, with anything before their
    brackets but brackets. -/
structure LooseType (s : Bytes) : Prop where
  reads : ∃ base tail inners, trim s = base ++ tail ∧ 91 ∉ base ∧ (tail = [] ∨ tail.head? = some 91) ∧ Known (trim base) ∧
    Pieces tail inners ∧ ∀ inner ∈ inners, ∀ c ∈ trim inner, isDigit c = true

/-- The types without the empty ones. -/
def keep (types : List Bytes) : List Bytes := (types.map trim).filter (fun type => type ≠ [])
/-- The types that the text between the parentheses is cut into. -/
def written (inner : Bytes) : List Bytes := keep (inner.splitOn 44)

/-- Blanks stand only around the name and the types and at the end, and no type is empty. -/
structure Spelled (sig name : Bytes) (types : List Bytes) : Prop where
  parted : ∃ front inner rest, Parts sig front inner rest ∧ trim front = name ∧ strip front = name ∧ strip rest = [] ∧
    ((strip inner = [] ∧ types = []) ∨ (inner.splitOn 44).map trim = types)
  typed : ∀ type ∈ types, TypeText type
/-- A string of the form that is read as it is meant. -/
def Simple (sig : Bytes) : Prop := ∃ name types, Spelled sig name types
/-- Such a string with types. -/
def Typed (sig : Bytes) : Prop := ∃ name types, Spelled sig name types ∧ types ≠ []
/-- A string not of the form that is refused before a type is added: it has no parentheses
    in order, or the first type that is not empty is not accepted. -/
def Refused (sig : Bytes) : Prop :=
  (¬ ∃ name types, Form sig name types) ∧
    ∀ front inner rest, Parts sig front inner rest → ∃ type types, written inner = type :: types ∧ ¬ LooseType type

/-! ### Types that are accepted -/

/-- One round of the loop on a piece. -/
theorem extentsOf_piece {junk inner rest : Bytes} (junkOpen : 91 ∉ junk) (junkClose : 93 ∉ junk) (innerClose : 93 ∉ inner) :
    extentsOf (junk ++ 91 :: (inner ++ 93 :: rest)) =
      if (trim inner).all isDigit then
        (extentsOf rest).map (fun r => (if trim inner = [] then 0 else strtoul (trim inner)) :: r)
      else none := by
  obtain ⟨text,same⟩ : ∃ text, text = junk ++ 91 :: (inner ++ 93 :: rest) := ⟨_,rfl⟩
  obtain ⟨left,right,opened,closed,ordered,inside,later⟩ := piece_cut same junkOpen junkClose innerClose
  rw [← same,extentsOf,dif_neg (by simp [same]),opened,closed]
  simp only
  rw [if_neg (by omega),inside,later]
/-- What the loop goes on from is a piece. -/
theorem extentsOf_cons {text : Bytes} (some : text ≠ []) (read : (extentsOf text).isSome = true) :
    ∃ junk inner rest, text = junk ++ 91 :: (inner ++ 93 :: rest) ∧ 91 ∉ junk ∧ 93 ∉ junk ∧ 93 ∉ inner := by
  rw [extentsOf,dif_neg some] at read
  split at read
  · rename_i leftBracket rightBracket opened closed
    split at read
    · cases read
    · rename_i ordered
      exact cut_piece opened closed (Nat.not_le.mp ordered)
  · cases read

/-- The loop reads pieces with digits in their brackets. -/
theorem extentsOf_isSome (text : Bytes) : (extentsOf text).isSome = true ↔
    ∃ inners, Pieces text inners ∧ ∀ inner ∈ inners, ∀ c ∈ trim inner, isDigit c = true := by
  induction length : text.length using Nat.strong_induction_on generalizing text with
  | _ n ih =>
    by_cases empty : text = []
    · subst empty
      rw [extentsOf,dif_pos rfl]
      exact iff_of_true rfl ⟨[],.nil,by simp⟩
    have step : ∀ {junk inner rest : Bytes}, 91 ∉ junk → 93 ∉ junk → 93 ∉ inner → text = junk ++ 91 :: (inner ++ 93 :: rest) →
        ((extentsOf text).isSome = true ↔ (∀ c ∈ trim inner, isDigit c = true) ∧
          ∃ inners, Pieces rest inners ∧ ∀ inner ∈ inners, ∀ c ∈ trim inner, isDigit c = true) := by
      rintro junk inner rest junkOpen junkClose innerClose rfl
      have shorter : rest.length < n := by
        rw [← length]
        simp
        omega
      rw [extentsOf_piece junkOpen junkClose innerClose,← ih rest.length shorter rest rfl,← List.all_eq_true]
      split
      · rename_i digits
        simp [digits]
      · rename_i other
        simp [other]
    constructor
    · intro read
      obtain ⟨junk,inner,rest,same,junkOpen,junkClose,innerClose⟩ := extentsOf_cons empty read
      obtain ⟨digits,inners,pieces,later⟩ := (step junkOpen junkClose innerClose same).mp read
      rw [same]
      exact ⟨inner :: inners,.cons junkOpen junkClose innerClose pieces,List.forall_mem_cons.mpr ⟨digits,later⟩⟩
    · rintro ⟨inners,pieces,digits⟩
      obtain ⟨junk,inner,rest,others,same,junkOpen,junkClose,innerClose,tail,rfl⟩ := pieces_cons empty pieces
      obtain ⟨here,later⟩ := List.forall_mem_cons.mp digits
      exact (step junkOpen junkClose innerClose same).mpr ⟨here,others,tail,later⟩

/-- No blank, parenthesis, comma or bracket. -/
def isLetter (c : UInt8) : Bool := c != 32 && c != 40 && c != 41 && c != 44 && c != 91 && c != 93
/-- A text of such characters. -/
structure Letters (text : Bytes) : Prop where
  nonempty : text ≠ []
  letters : ∀ c ∈ text, c ≠ 32 ∧ c ≠ 40 ∧ c ≠ 41 ∧ c ≠ 44 ∧ c ≠ 91 ∧ c ≠ 93

private theorem letters_name {kind : String} (nonempty : lit kind ≠ []) (letters : (lit kind).all isLetter = true) : Letters (lit kind) := by
  refine ⟨nonempty,fun c member => ?_⟩
  simpa [isLetter,and_assoc] using List.all_eq_true.mp letters c member
private theorem letters_numbered {kind : String} (name : Letters (lit kind)) {numbers : List Nat} {base : Bytes}
    (listed : base ∈ numbered kind numbers) : Letters base := by
  obtain ⟨n,_,rfl⟩ := List.mem_map.mp listed
  refine ⟨by simp [name.nonempty],fun c member => ?_⟩
  rcases List.mem_append.mp member with front | back
  · exact name.letters c front
  · have digit := (stdToString_decimal n).digits c back
    refine ⟨?_,?_,?_,?_,?_,?_⟩ <;> (rintro rfl; cases digit)
private theorem known_letters {base : Bytes} (known : Known base) : Letters base := by
  have uint : Letters (lit "uint") := letters_name (by decide) (by decide)
  have int : Letters (lit "int") := letters_name (by decide) (by decide)
  have bytes : Letters (lit "bytes") := letters_name (by decide) (by decide)
  unfold Known getEnumType at known
  split at known
  · subst base
    exact letters_name (by decide) (by decide)
  split at known
  · subst base
    exact letters_name (by decide) (by decide)
  split at known
  · subst base
    exact letters_name (by decide) (by decide)
  split at known
  · subst base
    exact bytes
  split at known
  · rename_i listed
    rcases List.mem_cons.mp (List.contains_iff_mem.mp listed) with rfl | listed
    · exact uint
    · exact letters_numbered uint listed
  split at known
  · rename_i listed
    rcases List.mem_cons.mp (List.contains_iff_mem.mp listed) with rfl | listed
    · exact int
    · exact letters_numbered int listed
  split at known
  · rename_i listed
    exact letters_numbered bytes (List.contains_iff_mem.mp listed)
  · exact absurd rfl known

/-- What `reset` accepts. -/
theorem reset_isSome (s : Bytes) : (reset s).isSome = true ↔ LooseType s := by
  unfold reset
  constructor
  · intro read
    dsimp only at read
    split at read
    · cases read
    · rename_i known
      rw [Option.isSome_map] at read
      obtain ⟨inners,pieces,digits⟩ := (extentsOf_isSome _).mp read
      refine ⟨_,_,inners,List.takeWhile_append_dropWhile.symm,fun member => ?_,dropWhile_opens _,known,pieces,digits⟩
      cases List.mem_takeWhile_imp member
  · rintro ⟨base,tail,inners,split,flat,opens,known,pieces,digits⟩
    obtain ⟨front,back⟩ := takeWhile_flat flat opens
    dsimp only
    rw [split,front,back,if_neg known,Option.isSome_map]
    exact (extentsOf_isSome tail).mpr ⟨inners,pieces,digits⟩
/-- The type that `reset` keeps. -/
theorem reset_strType {s : Bytes} {at_ : ABIInType} (read : reset s = some at_) : at_.strType = trim s := by
  unfold reset at read
  dsimp only at read
  split at read
  · cases read
  · obtain ⟨extents,_,rfl⟩ := Option.map_eq_some_iff.mp read
    rfl

/-- Without blanks, a type of the form. -/
theorem typeText_clean {type : Bytes} (typed : TypeText type) : type ≠ [] ∧ ∀ c ∈ type, c ≠ 32 ∧ c ≠ 40 ∧ c ≠ 41 ∧ c ≠ 44 := by
  obtain ⟨base,runs,known,digits,rfl⟩ := typed
  obtain ⟨nonempty,letters⟩ := known_letters known
  refine ⟨by simp [nonempty],fun c member => ?_⟩
  rcases List.mem_append.mp member with front | back
  · obtain ⟨a,b,d,e,_⟩ := letters c front
    exact ⟨a,b,d,e⟩
  · obtain ⟨run,listed,inside⟩ := List.mem_flatMap.mp back
    rcases List.mem_cons.mp inside with rfl | inside
    · decide
    · rcases List.mem_append.mp inside with inside | last
      · have digit := digits run listed c inside
        refine ⟨?_,?_,?_,?_⟩ <;> (rintro rfl; cases digit)
      · rw [List.mem_singleton.mp last]
        decide
private theorem typeText_trim {type : Bytes} (typed : TypeText type) : trim type = type :=
  trimBy_clean (fun c member => by simpa [isBlank] using ((typeText_clean typed).2 c member).1)

/-- A type of the form is accepted. -/
theorem looseType_of_typeText {type : Bytes} (typed : TypeText type) : LooseType type := by
  have trimmed := typeText_trim typed
  obtain ⟨base,runs,known,digits,same⟩ := typed
  have letters := (known_letters known).letters
  have closed : ∀ run ∈ runs, 93 ∉ run := by
    intro run listed member
    cases digits run listed 93 member
  refine ⟨base,_,runs,trimmed.trans same,fun member => (letters 91 member).2.2.2.2.1 rfl,flatMap_opens runs,?_,
    (bracketed_pieces closed).1,fun run listed => ?_⟩
  · have clean : trim base = base := trimBy_clean (fun c member => by simpa [isBlank] using (letters c member).1)
    rwa [clean]
  · have clean : trim run = run := by
      refine trimBy_clean (fun c member => ?_)
      have digit := digits run listed c member
      rw [isBlank,beq_eq_false_iff_ne]
      rintro rfl
      cases digit
    rw [clean]
    exact digits run listed

/-! ### The loop over the types -/

private theorem keep_cons (type : Bytes) (types : List Bytes) : keep (type :: types) = if trim type = [] then keep types else trim type :: keep types := by
  by_cases empty : trim type = [] <;> simp [keep,empty]

/-- The types are added in turn where all are accepted. -/
theorem parseTypes_all {types : List Bytes} (all : ∀ type ∈ keep types, LooseType type) (sig : Bytes) (params : List ABIInType) :
    ∃ added, parseTypes sig params types = (some (sig ++ (keep types).flatMap (fun type => type ++ lit ",")),params ++ added) ∧
      added.map ABIInType.strType = keep types := by
  induction types generalizing sig params with
  | nil => exact ⟨[],by simp [parseTypes,keep],rfl⟩
  | cons type types ih =>
    rw [keep_cons] at all ⊢
    rw [parseTypes]
    split at all
    · rename_i empty
      rw [if_pos empty,if_pos empty]
      exact ih all sig params
    · rename_i nonempty
      obtain ⟨here,later⟩ := List.forall_mem_cons.mp all
      obtain ⟨at_,read⟩ := Option.isSome_iff_exists.mp ((reset_isSome _).mpr here)
      obtain ⟨added,parsed,texts⟩ := ih later (sig ++ trim type ++ lit ",") (params ++ [at_])
      rw [if_neg nonempty,if_neg nonempty,read]
      refine ⟨at_ :: added,?_,?_⟩
      · dsimp only
        rw [parsed]
        simp only [List.flatMap_cons,List.append_assoc,List.singleton_append]
      · rw [List.map_cons,texts,reset_strType read]
        exact congrArg (· :: keep types) (trimBy_trimBy type)
/-- The types before the first that is not accepted stay added. -/
theorem parseTypes_refused {types : List Bytes} (some : ¬ ∀ type ∈ keep types, LooseType type) (sig : Bytes) (params : List ABIInType) :
    ∃ added, parseTypes sig params types = (none,params ++ added) ∧
      (added = [] ↔ ∃ first later, keep types = first :: later ∧ ¬ LooseType first) := by
  induction types generalizing sig params with
  | nil => exact absurd (by simp [keep]) some
  | cons type types ih =>
    rw [keep_cons] at some ⊢
    rw [parseTypes]
    split at some
    · rename_i empty
      rw [if_pos empty,if_pos empty]
      exact ih some sig params
    · rename_i nonempty
      rw [if_neg nonempty,if_neg nonempty]
      cases read : reset (trim type) with
      | none =>
        have refused : ¬ LooseType (trim type) := by
          rw [← reset_isSome,read]
          exact Bool.false_ne_true
        exact ⟨[],by simp,iff_of_true rfl ⟨_,_,rfl,refused⟩⟩
      | some at_ =>
        have accepted : LooseType (trim type) := (reset_isSome _).mp (by rw [read]; rfl)
        have others : ¬ ∀ type ∈ keep types, LooseType type := fun all => some (List.forall_mem_cons.mpr ⟨accepted,all⟩)
        obtain ⟨added,parsed,_⟩ := ih others (sig ++ trim type ++ lit ",") (params ++ [at_])
        refine ⟨at_ :: added,?_,iff_of_false (List.cons_ne_nil _ _) ?_⟩
        · dsimp only
          rw [parsed,List.append_assoc,List.singleton_append]
        · rintro ⟨first,later,same,refused⟩
          rw [← (List.cons.inj same).1] at refused
          exact refused accepted

/-! ### One call -/

section
variable (func : ABIFunc) {sig front inner rest : Bytes} (parts : Parts sig front inner rest)
include parts

private theorem parser_parts : func.parser sig =
    match parseTypes (trim front ++ lit "(") func.allParamsType (inner.splitOn 44) with
    | (none,allParamsType) => (false,{ func with allParamsType })
    | (some sig,allParamsType) => (true,⟨trim front,popComma sig ++ lit ")",allParamsType⟩) := by
  obtain ⟨left,right,opened,closed,ordered,before,inside,_⟩ := positions_between parts.same parts.opening parts.closing
  rw [ABIFunc.parser,opened,closed]
  simp only
  rw [if_neg (by omega),before,inside]
  generalize parseTypes (trim front ++ lit "(") func.allParamsType (inner.splitOn 44) = result
  obtain ⟨text,allParamsType⟩ := result
  cases text with
  | none => rfl
  | some text =>
    simp only [popComma]
    split <;> rfl

/-- A call that returns true. -/
theorem parser_true (all : ∀ type ∈ written inner, LooseType type) :
    ∃ added, func.parser sig = (true,⟨trim front,signatureText (trim front) (written inner),func.allParamsType ++ added⟩) ∧
      added.map ABIInType.strType = written inner := by
  obtain ⟨added,parsed,texts⟩ := parseTypes_all all (trim front ++ lit "(") func.allParamsType
  have last : (trim front ++ lit "(").getLast? ≠ some 44 := by
    have parenthesis : (trim front ++ lit "(").getLast? = some 40 := List.getLast?_concat
    rw [parenthesis]
    decide
  refine ⟨added,?_,texts⟩
  rw [parser_parts func parts,parsed]
  dsimp only
  rw [popComma_texts _ last]
  simp only [signatureText,written,List.append_assoc]
/-- A call that returns false. -/
theorem parser_false (some : ¬ ∀ type ∈ written inner, LooseType type) :
    ∃ added, func.parser sig = (false,{ func with allParamsType := func.allParamsType ++ added }) ∧
      (added = [] ↔ ∃ first later, written inner = first :: later ∧ ¬ LooseType first) := by
  obtain ⟨added,parsed,first⟩ := parseTypes_refused some (trim front ++ lit "(") func.allParamsType
  refine ⟨added,?_,first⟩
  rw [parser_parts func parts,parsed]

end

/-- A string without parentheses in order. -/
theorem parser_unparted {func : ABIFunc} {sig : Bytes} (none : ∀ front inner rest, ¬ Parts sig front inner rest) :
    func.parser sig = (false,func) := by
  unfold ABIFunc.parser
  split
  · rename_i i0 i1 opened closed
    split
    · rfl
    · rename_i ordered
      exact absurd (parts_of_cuts opened closed (Nat.not_le.mp ordered)) (none _ _ _)
  · rfl

/-! ### Strings of the form -/

theorem strip_parts {sig front inner rest : Bytes} (parts : Parts sig front inner rest) :
    strip sig = strip front ++ 40 :: (strip inner ++ 41 :: strip rest) := by
  have opening : ∀ text : Bytes, strip (40 :: text) = 40 :: strip text := fun _ => rfl
  have closing : ∀ text : Bytes, strip (41 :: text) = 41 :: strip text := fun _ => rfl
  have both : ∀ front back : Bytes, strip (front ++ back) = strip front ++ strip back := fun _ _ => stripBy_append _ _
  rw [parts.same,both,opening,both,closing]

/-- What the parts of a string of the form are without blanks. -/
theorem form_parts {sig front inner rest name : Bytes} {types : List Bytes} (parts : Parts sig front inner rest)
    (form : Form sig name types) :
    strip front = name ∧ strip inner = (lit ",").intercalate types ∧ strip rest = [] := by
  have spelled := form.spelled
  rw [strip_parts parts,signatureText_eq] at spelled
  have named : 40 ∉ strip front := fun member => parts.opening (List.mem_of_mem_filter member)
  obtain ⟨same,tail⟩ := cut_unique named form.opening spelled
  have inside : 41 ∉ strip inner := fun member =>
    parts.closing (List.mem_append_right _ (List.mem_cons_of_mem _ (List.mem_of_mem_filter member)))
  have closing : 41 ∉ (lit ",").intercalate types :=
    closing_intercalate (fun type listed member => ((typeText_clean (form.typed type listed)).2 41 member).2.2.1 rfl)
  obtain ⟨text,last⟩ := cut_unique inside closing tail
  exact ⟨same,text,last⟩

/-- Texts that are not empty and have no comma are those between the commas. -/
theorem commas_injective {texts texts' : List Bytes} (each : ∀ text ∈ texts, text ≠ [] ∧ 44 ∉ text)
    (each' : ∀ text ∈ texts', text ≠ [] ∧ 44 ∉ text) (same : (lit ",").intercalate texts = (lit ",").intercalate texts') :
    texts = texts' := by
  have empty : ∀ {ts : List Bytes}, (∀ text ∈ ts, text ≠ [] ∧ 44 ∉ text) → (lit ",").intercalate ts = [] → ts = [] := by
    intro ts each none
    by_contra some
    have pieces := pieces_intercalate (fun text listed => (each text listed).2) some
    rw [none,List.splitOn_nil] at pieces
    exact (each [] (by simp [← pieces])).1 rfl
  by_cases none : texts = []
  · rw [none,List.intercalate_nil] at same
    rw [none,empty each' same.symm]
  · have some' : texts' ≠ [] := by
      rintro rfl
      exact none (empty each same)
    rw [← pieces_intercalate (fun text listed => (each text listed).2) none,same]
    exact pieces_intercalate (fun text listed => (each' text listed).2) some'

private theorem typed_pieces {types : List Bytes} (typed : ∀ type ∈ types, TypeText type) : ∀ type ∈ types, type ≠ [] ∧ 44 ∉ type := by
  intro type listed
  obtain ⟨nonempty,clean⟩ := typeText_clean (typed type listed)
  exact ⟨nonempty,fun member => (clean 44 member).2.2.2 rfl⟩
private theorem written_pieces (inner : Bytes) : ∀ type ∈ written inner, type ≠ [] ∧ 44 ∉ type := by
  intro type listed
  obtain ⟨member,nonempty⟩ := List.mem_filter.mp listed
  obtain ⟨piece,inside,rfl⟩ := List.mem_map.mp member
  exact ⟨of_decide_eq_true nonempty,fun comma => comma_pieces inner piece inside (trimBy_within.subset comma)⟩
private theorem strip_written (inner : Bytes) : strip inner = (lit ",").intercalate ((inner.splitOn 44).map strip) := by
  conv_lhs => rw [← intercalate_pieces inner]
  exact stripBy_intercalate rfl _

/-- The pieces of a text that is that of the types without blanks. -/
theorem pieces_of_strip {inner : Bytes} {types : List Bytes} (typed : ∀ type ∈ types, TypeText type)
    (text : strip inner = (lit ",").intercalate types) (same : written inner = types) :
    (strip inner = [] ∧ types = []) ∨ (inner.splitOn 44).map trim = types := by
  by_cases none : types = []
  · subst none
    exact .inl ⟨text,rfl⟩
  · have cut : (inner.splitOn 44).map strip = types := by
      rw [strip_written] at text
      have pieces := congrArg (List.splitOn 44) text
      rw [pieces_intercalate (fun type listed => (typed_pieces typed type listed).2) none] at pieces
      refine (pieces_intercalate ?_ (by simp)).symm.trans pieces
      intro piece listed comma
      obtain ⟨whole,member,rfl⟩ := List.mem_map.mp listed
      exact comma_pieces inner whole member (List.mem_of_mem_filter comma)
    -- no piece is blank, so none is left out
    refine .inr (Eq.trans ?_ same)
    refine (List.filter_eq_self.mpr (fun type listed => decide_eq_true ?_)).symm
    obtain ⟨piece,member,rfl⟩ := List.mem_map.mp listed
    have nonempty := (typed_pieces typed _ (cut ▸ List.mem_map_of_mem member)).1
    exact fun trimmed => nonempty (trimBy_nil.mp trimmed)

/-- What is cut out of a spelled string. -/
theorem written_spelled {inner : Bytes} {types : List Bytes} (typed : ∀ type ∈ types, TypeText type)
    (pieces : (strip inner = [] ∧ types = []) ∨ (inner.splitOn 44).map trim = types) :
    written inner = types ∧ strip inner = (lit ",").intercalate types := by
  rcases pieces with ⟨blank,rfl⟩ | pieces
  · have single : inner.splitOn 44 = [inner] := by
      have absent : 44 ∉ inner := by
        intro comma
        have kept : 44 ∈ strip inner := List.mem_filter.mpr ⟨comma,rfl⟩
        rw [blank] at kept
        cases kept
      have pieces := pieces_intercalate (List.forall_mem_singleton.mpr absent) (List.cons_ne_nil inner [])
      rwa [List.intercalate_singleton] at pieces
    have trimmed : trim inner = [] := trimBy_nil.mpr blank
    rw [written,single,keep_cons,if_pos trimmed,blank]
    exact ⟨rfl,rfl⟩
  · constructor
    · rw [written,keep,pieces]
      exact List.filter_eq_self.mpr (fun type listed => decide_eq_true (typed_pieces typed type listed).1)
    · have stripped : (inner.splitOn 44).map strip = types.map strip := by
        rw [← pieces,List.map_map]
        exact List.map_congr_left (fun piece _ => (stripBy_trimBy piece).symm)
      have clean : types.map strip = types := by
        refine (List.map_congr_left (fun type listed => ?_)).trans (List.map_id types)
        exact stripBy_clean (fun c member => by simpa [isBlank] using ((typeText_clean (typed type listed)).2 c member).1)
      rw [strip_written,stripped,clean]

/-! ### When a call is exact -/

section
variable {func : ABIFunc} {sig : Bytes}

private theorem simple_of_exact (exact : Exact func sig) {name : Bytes} {types : List Bytes} (form : Form sig name types) :
    func.allParamsType = [] ∧ Simple sig := by
  obtain ⟨name,types,form,returned,named,signed,params⟩ := exact.accepted ⟨name,types,form⟩
  obtain ⟨front,inner,rest,parts⟩ : ∃ front inner rest, Parts sig front inner rest := by
    by_contra none
    simp only [not_exists] at none
    rw [parser_unparted none] at returned
    cases returned
  have all : ∀ type ∈ written inner, LooseType type := by
    by_contra some
    obtain ⟨added,called,_⟩ := parser_false func parts some
    rw [called] at returned
    cases returned
  obtain ⟨added,called,texts⟩ := parser_true func parts all
  rw [called] at named signed params
  have trimmed : trim front = name := named
  have same : written inner = types := by
    have texts : signatureText (trim front) (written inner) = signatureText name types := signed
    rw [trimmed] at texts
    exact commas_injective (written_pieces inner) (typed_pieces form.typed)
      (List.append_cancel_right (List.append_cancel_left (List.append_cancel_left texts)))
  have empty : func.allParamsType = [] := by
    have held : (func.allParamsType ++ added).map ABIInType.strType = types := params
    rw [List.map_append,texts,same] at held
    exact List.map_eq_nil_iff.mp (List.append_left_eq_self.mp held)
  obtain ⟨stripped,text,blank⟩ := form_parts parts form
  exact ⟨empty,name,types,⟨front,inner,rest,parts,trimmed,stripped,blank,pieces_of_strip form.typed text same⟩,form.typed⟩

private theorem refused_of_exact (exact : Exact func sig) (none : ¬ ∃ name types, Form sig name types) : Refused sig := by
  have called := exact.rejected none
  refine ⟨none,fun front inner rest parts => ?_⟩
  by_cases all : ∀ type ∈ written inner, LooseType type
  · obtain ⟨added,returned,_⟩ := parser_true func parts all
    rw [called] at returned
    cases returned
  · obtain ⟨added,returned,first⟩ := parser_false func parts all
    rw [called] at returned
    have held : func.allParamsType = func.allParamsType ++ added := congrArg ABIFunc.allParamsType (congrArg Prod.snd returned)
    exact first.mp (List.append_right_eq_self.mp held.symm)

/-- A simple string on an object without types. -/
theorem parser_spelled (empty : func.allParamsType = []) {name : Bytes} {types : List Bytes} (spelled : Spelled sig name types) :
    Form sig name types ∧ ∃ params, func.parser sig = (true,⟨name,signatureText name types,params⟩) ∧
      params.map ABIInType.strType = types := by
  obtain ⟨⟨front,inner,rest,parts,trimmed,stripped,blank,pieces⟩,typed⟩ := spelled
  obtain ⟨same,text⟩ := written_spelled typed pieces
  have all : ∀ type ∈ written inner, LooseType type := by
    rw [same]
    exact fun type listed => looseType_of_typeText (typed type listed)
  obtain ⟨added,called,texts⟩ := parser_true func parts all
  rw [trimmed,same,empty,List.nil_append] at called
  refine ⟨⟨?_,?_,?_,typed⟩,added,called,texts.trans same⟩
  · rw [strip_parts parts,stripped,text,blank,signatureText_eq]
  · rw [← stripped]
    exact fun member => parts.opening (List.mem_of_mem_filter member)
  · rw [← stripped]
    exact fun member => parts.closing (List.mem_append_left _ (List.mem_of_mem_filter member))
/-- A refused string. -/
theorem parser_refused (refused : Refused sig) : func.parser sig = (false,func) := by
  by_cases parted : ∃ front inner rest, Parts sig front inner rest
  · obtain ⟨front,inner,rest,parts⟩ := parted
    obtain ⟨first,later,same,unread⟩ := refused.2 front inner rest parts
    have some : ¬ ∀ type ∈ written inner, LooseType type := by
      intro all
      exact unread (all first (by simp [same]))
    obtain ⟨added,called,firsts⟩ := parser_false func parts some
    rw [called,firsts.mpr ⟨first,later,same,unread⟩,List.append_nil]
  · simp only [not_exists] at parted
    exact parser_unparted parted

/-- A call is exact for a simple string on an object without types and for a refused string. -/
theorem exact_iff : Exact func sig ↔ (func.allParamsType = [] ∧ Simple sig) ∨ Refused sig := by
  constructor
  · intro exact
    by_cases formed : ∃ name types, Form sig name types
    · obtain ⟨name,types,form⟩ := formed
      exact .inl (simple_of_exact exact form)
    · exact .inr (refused_of_exact exact formed)
  · rintro (⟨empty,name,types,spelled⟩ | refused)
    · obtain ⟨form,params,called,texts⟩ := parser_spelled empty spelled
      refine ⟨fun _ => ⟨name,types,form,?_⟩,fun none => absurd ⟨name,types,form⟩ none⟩
      rw [called]
      exact ⟨rfl,rfl,rfl,texts⟩
    · exact ⟨fun formed => absurd formed refused.1,fun _ => parser_refused refused⟩

end

/-! ### Sequences of calls -/

private theorem simple_not_refused {sig : Bytes} (simple : Simple sig) : ¬ Refused sig := by
  rintro ⟨none,_⟩
  obtain ⟨name,types,spelled⟩ := simple
  exact none ⟨name,types,(parser_spelled (rfl : calls.start.allParamsType = []) spelled).1⟩
/-- After a simple string the object holds types exactly if the string has some. -/
theorem typed_iff {func : ABIFunc} {sig : Bytes} (empty : func.allParamsType = []) (simple : Simple sig) :
    Typed sig ↔ (func.parser sig).2.allParamsType ≠ [] := by
  have held : ∀ {name types}, Spelled sig name types → (types ≠ [] ↔ (func.parser sig).2.allParamsType ≠ []) := by
    intro name types spelled
    obtain ⟨_,params,called,texts⟩ := parser_spelled empty spelled
    rw [called,← texts,Ne,List.map_eq_nil_iff]
  constructor
  · rintro ⟨name,types,spelled,some⟩
    exact (held spelled).mp some
  · obtain ⟨name,types,spelled⟩ := simple
    exact fun some => ⟨name,types,spelled,(held spelled).mpr some⟩

/-- The calls of a sequence on an object are exact. -/
theorem obeys_exact_iff (func : ABIFunc) (sigs : List Bytes) : calls.Obeys Exact func sigs ↔
    (∀ sig ∈ sigs, Simple sig ∨ Refused sig) ∧ (func.allParamsType ≠ [] → ∀ sig ∈ sigs, ¬ Simple sig) ∧
      sigs.Pairwise (fun sig later => Typed sig → ¬ Simple later) := by
  induction sigs generalizing func with
  | nil => exact iff_of_true trivial (by simp)
  | cons sig sigs ih =>
    rw [List.pairwise_cons]
    constructor
    · rintro ⟨exact,rest⟩
      obtain ⟨each,held,pairs⟩ := (ih _).mp (rest _ rfl)
      rcases exact_iff.mp exact with ⟨empty,simple⟩ | refused
      · exact ⟨List.forall_mem_cons.mpr ⟨.inl simple,each⟩,fun some => absurd empty some,
          fun later listed typed => held ((typed_iff empty simple).mp typed) later listed,pairs⟩
      · rw [parser_refused refused] at held
        refine ⟨List.forall_mem_cons.mpr ⟨.inr refused,each⟩,fun some => ?_,fun later listed typed => ?_,pairs⟩
        · exact List.forall_mem_cons.mpr ⟨fun simple => simple_not_refused simple refused,held some⟩
        · obtain ⟨name,types,spelled,_⟩ := typed
          exact absurd refused (simple_not_refused ⟨name,types,spelled⟩)
    · rintro ⟨each,held,here,pairs⟩
      obtain ⟨first,each⟩ := List.forall_mem_cons.mp each
      rcases first with simple | refused
      · have empty : func.allParamsType = [] := by
          by_contra some
          exact held some sig List.mem_cons_self simple
        refine obeys_of_step (exact_iff.mpr (.inl ⟨empty,simple⟩)) rfl ((ih _).mpr ⟨each,fun some => ?_,pairs⟩)
        exact fun later listed => here later listed ((typed_iff empty simple).mpr some)
      · refine obeys_of_step (exact_iff.mpr (.inr refused)) rfl ?_
        rw [parser_refused refused]
        exact (ih func).mpr ⟨each,fun some later listed => held some later (List.mem_cons_of_mem sig listed),pairs⟩

/-- The calls of a sequence on one object are exact exactly if every string is simple or
    refused and no simple string follows one with types. -/
theorem calls_exact_iff (sigs : List Bytes) : calls.Obeys Exact calls.start sigs ↔
    (∀ sig ∈ sigs, Simple sig ∨ Refused sig) ∧ sigs.Pairwise (fun sig later => Typed sig → ¬ Simple later) := by
  rw [obeys_exact_iff]
  refine and_congr_right (fun _ => and_iff_right ?_)
  exact fun some => absurd rfl some

/-- The types of a string stay with the object when the next one is parsed. -/
theorem types_accumulate :
    ((calls.start.parser (lit "f(bool)")).2.parser (lit "g(bool)")).2.getParamsType = [lit "bool",lit "bool"] ∧
      ¬ calls.Obeys Exact calls.start [lit "f(bool)",lit "g(bool)"] := by
  have grown : ((calls.start.parser (lit "f(bool)")).2.parser (lit "g(bool)")).2.getParamsType = [lit "bool",lit "bool"] := by
    decide +kernel
  refine ⟨grown,fun obeys => ?_⟩
  have second := (obeys.2 _ rfl).1
  have formed : Form (lit "g(bool)") (lit "g") [lit "bool"] := by
    refine ⟨rfl,by decide,by decide,List.forall_mem_singleton.mpr ⟨lit "bool",[],?_,by simp,rfl⟩⟩
    unfold Known
    decide
  obtain ⟨name,types,form,_,_,_,held⟩ := second.accepted ⟨_,_,formed⟩
  have same : types = [lit "bool",lit "bool"] := held.symm.trans grown
  have sizes := congrArg List.length form.spelled
  have short : (strip (lit "g(bool)")).length = 7 := by decide
  have long : (signatureText name [lit "bool",lit "bool"]).length = name.length + 11 := by
    rw [signatureText,List.length_append]
    rfl
  rw [same,short,long] at sizes
  omega

end CppSdk.LegacySignatures

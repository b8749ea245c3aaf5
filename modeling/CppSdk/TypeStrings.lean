import CppSdk.SignatureStrings

/-!
The types of an ABI as they are spelled. `reset` looks for the next pair of brackets and
skips what is before it, `stoi` reads the start of what is in a bracket, and the factory
looks at the start of the base: what is built from is the language of `Loose`. It is built
from as the grammar says exactly where the text is `Strict` or of neither language
(`build_exact_iff`).
-/
namespace CppSdk.TypeStrings
open CppSdk.ByteString CppSdk.Runtime CppSdk.Texts CppSdk.ContractABIType CppSdk.ContractABIDefinitionFactory
open CppSdk.SignatureStrings (strip strip_append strip_clean strip_trim trim_nil cut_between cut_unique positions_between)
open CppSdk.TypeBuilder (Param Plain base_plain buildBase_eq isTuple_eq)

/-- The helper of a text, and the tree of its base. -/
def build (indeterminate : Bool) (str : Bytes) : Call (NamedTypeHelper × AbstractType) := do
  let helper ← reset str
  let tree ← buildBaseAbstractType indeterminate helper.baseType
  .ok (helper,tree)

/-! ### The grammar -/

/-- The text without the blanks in its brackets; the flag says whether a bracket is open. -/
def squeeze : Bool → Bytes → Bytes
  | _, [] => []
  | isOpen, c :: rest =>
    if isOpen && isSpace c then squeeze isOpen rest
    else c :: squeeze (if c = 91 then true else if c = 93 then false else isOpen) rest
/-- The text without the blanks around it and in its brackets. -/
def normalized (str : Bytes) : Bytes := squeeze false (trim str)

/-- A type that is neither a tuple nor a list. -/
def Elementary : Param → Prop
  | .tuple _ => False
  | .list _ => False
  | .fixed _ _ => False
  | _ => True
/-- The text of such a type. -/
def BaseText (base : Bytes) : Prop := ∃ t, Elementary t ∧ base = t.text

/-- A run of digits in brackets. -/
def bracketed (run : Bytes) : Bytes := 91 :: (run ++ [93])
/-- A base and brackets with nothing or a positive number in each. -/
structure Grammar (text base : Bytes) (runs : List Bytes) : Prop where
  spelled : text = base ++ runs.flatMap bracketed
  based : BaseText base
  digits : ∀ run ∈ runs, ∀ c ∈ run, isDigit c = true
  positive : ∀ run ∈ runs, run ≠ [] → 0 < digitsValue run

/-- A text is built from as the grammar says: where it has the form, with the numbers in its
    brackets as extents, and where it has not, an exception is thrown. -/
structure Exact (indeterminate : Bool) (str : Bytes) : Prop where
  accepted : (∃ base runs, Grammar (normalized str) base runs) →
    ∃ base runs tree, Grammar (normalized str) base runs ∧ build indeterminate str = .ok (⟨base,runs.map digitsValue⟩,tree)
  rejected : (¬ ∃ base runs, Grammar (normalized str) base runs) → ∃ what, build indeterminate str = throws what

/-! ### What is built from -/

/-- Pieces that each end in brackets, with anything but brackets before them. -/
inductive Pieces : Bytes → List Bytes → Prop where
  | nil : Pieces [] []
  | cons {junk inner rest : Bytes} {inners : List Bytes} : 91 ∉ junk → 93 ∉ junk → 93 ∉ inner → Pieces rest inners →
      Pieces (junk ++ 91 :: (inner ++ 93 :: rest)) (inner :: inners)

/-- The number in brackets, as `stoi` reads the start of it. -/
def readInner (inner : Bytes) : Option Nat := if trim inner = [] then some 0 else (stoi (trim inner)).map sizeOfInt

/-- What follows the name of a number type: nothing, or what `stoi` reads as an extent. -/
def LooseExtent (rest : Bytes) : Prop := rest = [] ∨ ∃ i, stoi rest = some i ∧ 1 ≤ i ∧ i ≤ 256 ∧ i % 8 = 0
/-- The bases that the factory knows by their starts. -/
inductive LooseBase : Bytes → Prop where
  | uint {rest : Bytes} : LooseExtent rest → LooseBase (lit "uint" ++ rest)
  | int {rest : Bytes} : LooseExtent rest → LooseBase (lit "int" ++ rest)
  | bool (rest : Bytes) : LooseBase (lit "bool" ++ rest)
  | string (rest : Bytes) : LooseBase (lit "string" ++ rest)
  | bytes : LooseBase (lit "bytes")
  | bytesN {rest : Bytes} {i : Int} : stoi rest = some i → 0 < i → i ≤ 32 → LooseBase (lit "bytes" ++ rest)
  | address (rest : Bytes) : LooseBase (lit "address" ++ rest)

/-- A trimmed text is a loose base and pieces, of which the first begins with its bracket. -/
structure Loose (str base : Bytes) (extents : List Nat) : Prop where
  based : LooseBase base
  flat : 91 ∉ base
  pieces : ∃ tail inners, trim str = base ++ tail ∧ (tail = [] ∨ tail.head? = some 91) ∧ Pieces tail inners ∧
    inners.mapM readInner = some extents

/-- A base and brackets with blanks and digits in each, which are a number below 2^31. -/
structure Strict (str base : Bytes) (inners : List Bytes) : Prop where
  spelled : trim str = base ++ inners.flatMap bracketed
  based : BaseText base
  digits : ∀ inner ∈ inners, ∀ c ∈ trim inner, isDigit c = true
  positive : ∀ inner ∈ inners, trim inner ≠ [] → 0 < digitsValue (trim inner)
  small : ∀ inner ∈ inners, digitsValue (trim inner) < 2147483648

/-! ### The loop over the brackets -/

private theorem readExtent_iff {inner error : Bytes} {extent : Nat} :
    readExtent (trim inner) error = .ok extent ↔ readInner inner = some extent := by
  unfold readExtent readInner readSize
  by_cases empty : trim inner = []
  · simp [empty]
  · rw [if_neg empty,if_neg empty]
    cases stoi (trim inner) with
    | none => simp [throws]
    | some i => simp

/-- Where the brackets of a piece are. -/
theorem piece_cut {text junk inner rest : Bytes} (same : text = junk ++ 91 :: (inner ++ 93 :: rest)) (junkOpen : 91 ∉ junk)
    (junkClose : 93 ∉ junk) (innerClose : 93 ∉ inner) :
    ∃ left right, text.idxOf? 91 = some left ∧ text.idxOf? 93 = some right ∧ left < right ∧
      (text.drop (left + 1)).take (right - left - 1) = inner ∧ text.drop (right + 1) = rest := by
  have absent : 93 ∉ junk ++ 91 :: inner := by
    simp only [List.mem_append,List.mem_cons]
    rintro (before | opening | inside)
    · exact junkClose before
    · cases opening
    · exact innerClose inside
  obtain ⟨left,right,opened,closed,ordered,_,inside,later⟩ := positions_between same junkOpen absent
  exact ⟨left,right,opened,closed,ordered,inside,later⟩
/-- The piece that two brackets end. -/
theorem cut_piece {text : Bytes} {left right : Nat} (opened : text.idxOf? 91 = some left) (closed : text.idxOf? 93 = some right)
    (ordered : left < right) : ∃ junk inner rest, text = junk ++ 91 :: (inner ++ 93 :: rest) ∧ 91 ∉ junk ∧ 93 ∉ junk ∧ 93 ∉ inner := by
  obtain ⟨split,opening,closing⟩ := cut_between opened closed ordered
  refine ⟨_,_,_,split,opening,fun member => closing (List.mem_append_left _ member),fun member => closing ?_⟩
  exact List.mem_append_right _ (List.mem_cons_of_mem _ member)

/-- One round of the loop on a piece. -/
theorem extentsOf_piece (str : Bytes) (fuel : Nat) {junk inner rest : Bytes} (junkOpen : 91 ∉ junk) (junkClose : 93 ∉ junk)
    (innerClose : 93 ∉ inner) :
    extentsOf str (fuel + 1) (junk ++ 91 :: (inner ++ 93 :: rest)) = (do
      let size ← readExtent (trim inner) (lit "invalid type in string format, value: " ++ str)
      .ok (size :: (← extentsOf str fuel rest))) := by
  obtain ⟨text,same⟩ : ∃ text, text = junk ++ 91 :: (inner ++ 93 :: rest) := ⟨_,rfl⟩
  obtain ⟨left,right,opened,closed,ordered,inside,later⟩ := piece_cut same junkOpen junkClose innerClose
  rw [← same]
  cases text with
  | nil => simp at same
  | cons c more =>
    simp only [extentsOf,opened,closed]
    rw [if_neg (by omega),inside,later]

/-- What the loop reads a size from is a piece. -/
theorem extentsOf_cons {str : Bytes} {fuel : Nat} {c : UInt8} {more : Bytes} {extents : List Nat}
    (read : extentsOf str (fuel + 1) (c :: more) = .ok extents) :
    ∃ junk inner rest, c :: more = junk ++ 91 :: (inner ++ 93 :: rest) ∧ 91 ∉ junk ∧ 93 ∉ junk ∧ 93 ∉ inner := by
  simp only [extentsOf] at read
  split at read
  · rename_i leftBracket rightBracket opened closed
    split at read
    · cases read
    · rename_i ordered
      exact cut_piece opened closed (Nat.not_le.mp ordered)
  · cases read

theorem pieces_nil {inners : List Bytes} : Pieces [] inners ↔ inners = [] := by
  constructor
  · intro pieces
    generalize empty : ([] : Bytes) = text at pieces
    cases pieces with
    | nil => rfl
    | cons junkOpen junkClose innerClose pieces => simp at empty
  · rintro rfl
    exact .nil
theorem pieces_cons {text : Bytes} {inners : List Bytes} (some : text ≠ []) (pieces : Pieces text inners) :
    ∃ junk inner rest more, text = junk ++ 91 :: (inner ++ 93 :: rest) ∧ 91 ∉ junk ∧ 93 ∉ junk ∧ 93 ∉ inner ∧
      Pieces rest more ∧ inners = inner :: more := by
  cases pieces with
  | nil => exact absurd rfl some
  | cons junkOpen junkClose innerClose pieces => exact ⟨_,_,_,_,rfl,junkOpen,junkClose,innerClose,pieces,rfl⟩

/-- The loop reads the pieces of a text. -/
theorem extentsOf_ok_iff (str : Bytes) {fuel : Nat} {text : Bytes} (enough : text.length ≤ fuel) {extents : List Nat} :
    extentsOf str fuel text = .ok extents ↔ ∃ inners, Pieces text inners ∧ inners.mapM readInner = some extents := by
  have ended : ∀ fuel extents, extentsOf str fuel [] = .ok extents ↔
      ∃ inners, Pieces [] inners ∧ inners.mapM readInner = some extents := by
    intro fuel extents
    simp only [pieces_nil,exists_eq_left,List.mapM_nil,Option.pure_def,Option.some.injEq]
    cases fuel <;> simp [extentsOf]
  induction fuel generalizing text extents with
  | zero =>
    rw [List.length_eq_zero_iff.mp (Nat.le_zero.mp enough)]
    exact ended 0 extents
  | succ fuel ih =>
    have step : ∀ {junk inner rest : Bytes}, 91 ∉ junk → 93 ∉ junk → 93 ∉ inner → text = junk ++ 91 :: (inner ++ 93 :: rest) →
        (extentsOf str (fuel + 1) text = .ok extents ↔ ∃ size sizes, readInner inner = some size ∧
          (∃ inners, Pieces rest inners ∧ inners.mapM readInner = some sizes) ∧ extents = size :: sizes) := by
      rintro junk inner rest junkOpen junkClose innerClose rfl
      have short : rest.length ≤ fuel := by
        simp only [List.length_append,List.length_cons] at enough
        omega
      rw [extentsOf_piece str fuel junkOpen junkClose innerClose]
      constructor
      · intro read
        obtain ⟨size,first,more⟩ := bind_ok.mp read
        obtain ⟨sizes,later,⟨⟩⟩ := bind_ok.mp more
        exact ⟨size,sizes,readExtent_iff.mp first,(ih short).mp later,rfl⟩
      · rintro ⟨size,sizes,first,later,rfl⟩
        rw [readExtent_iff.mpr first,ok_bind,(ih short).mpr later]
        rfl
    cases text with
    | nil => exact ended (fuel + 1) extents
    | cons c more =>
      constructor
      · intro read
        obtain ⟨junk,inner,rest,same,junkOpen,junkClose,innerClose⟩ := extentsOf_cons read
        obtain ⟨size,sizes,first,⟨inners,pieces,later⟩,rfl⟩ := (step junkOpen junkClose innerClose same).mp read
        rw [same]
        exact ⟨inner :: inners,.cons junkOpen junkClose innerClose pieces,by simp [first,later]⟩
      · rintro ⟨inners,pieces,read⟩
        obtain ⟨junk,inner,rest,others,same,junkOpen,junkClose,innerClose,tail,rfl⟩ := pieces_cons (List.cons_ne_nil c more) pieces
        simp only [List.mapM_cons,Option.bind_eq_bind,Option.bind_eq_some_iff,Option.pure_def,Option.some.injEq] at read
        obtain ⟨size,first,sizes,later,rfl⟩ := read
        exact (step junkOpen junkClose innerClose same).mpr ⟨size,sizes,first,⟨others,tail,later⟩,rfl⟩

/-! ### The base -/

private theorem stoi_range {text : Bytes} {i : Int} (read : stoi text = some i) : -2147483648 ≤ i ∧ i ≤ 2147483647 := by
  unfold stoi at read
  dsimp only at read
  rw [Option.ite_none_left_eq_some,Option.ite_none_right_eq_some] at read
  obtain ⟨_,range,same⟩ := read
  rwa [← Option.some.inj same]

/-- A number type is built where its extent is read. -/
theorem baseExtent_ok (kind : String) (rest : Bytes) :
    (∃ extent, baseExtent kind (lit kind ++ rest) = .ok extent) ↔ LooseExtent rest := by
  unfold baseExtent LooseExtent
  by_cases empty : rest = []
  · subst empty
    rw [if_neg (by simp)]
    simp [verifyExtent]
  · have longer : (lit kind).length < (lit kind ++ rest).length := by
      have := List.length_pos_iff.mpr empty
      rw [List.length_append]
      omega
    rw [if_pos longer,List.drop_left]
    simp only [empty,false_or]
    cases read : stoi rest with
    | none => simp [readSize,read,throws]
    | some i =>
      obtain ⟨low,high⟩ := stoi_range read
      have same : (1 ≤ sizeOfInt i ∧ sizeOfInt i ≤ 256 ∧ sizeOfInt i % 8 = 0) ↔ (1 ≤ i ∧ i ≤ 256 ∧ i % 8 = 0) := by
        unfold sizeOfInt
        omega
      simp only [readSize,read,ok_bind,verifyExtent,same,Option.some.injEq,exists_eq_left']
      split
      · rename_i range
        exact iff_of_true ⟨_,rfl⟩ range
      · rename_i range
        exact iff_of_false (by rintro ⟨extent,⟨⟩⟩) range

/-- A `bytesN` is built where its size is read. -/
theorem fixedN_ok (rest error : Bytes) :
    (∃ fixedN, (do verifyFixedN (← readSize rest error) 0) = .ok fixedN) ↔ ∃ i, stoi rest = some i ∧ 0 < i ∧ i ≤ 32 := by
  cases read : stoi rest with
  | none => simp [readSize,read,throws]
  | some i =>
    obtain ⟨low,high⟩ := stoi_range read
    have same : (0 < sizeOfInt i ∧ sizeOfInt i ≤ 32) ↔ (0 < i ∧ i ≤ 32) := by
      unfold sizeOfInt
      omega
    simp only [readSize,read,ok_bind,verifyFixedN,same,Option.some.injEq,exists_eq_left']
    split
    · rename_i range
      exact iff_of_true ⟨_,rfl⟩ range
    · rename_i range
      exact iff_of_false (by rintro ⟨fixedN,⟨⟩⟩) range

private theorem startsWith_iff {text start : Bytes} : startsWith text start = true ↔ ∃ rest, text = start ++ rest := by
  rw [startsWith,List.isPrefixOf_iff_prefix]
  exact exists_congr (fun rest => eq_comm)

/-- The factory builds from loose bases. -/
theorem buildBase_ok (indeterminate : Bool) (base : Bytes) :
    (∃ tree, buildBaseAbstractType indeterminate base = .ok tree) ↔ LooseBase base := by
  constructor
  · rintro ⟨tree,built⟩
    unfold buildBaseAbstractType at built
    split at built
    · rename_i word
      obtain ⟨rest,rfl⟩ := startsWith_iff.mp word
      obtain ⟨extent,read,_⟩ := bind_ok.mp built
      exact .uint ((baseExtent_ok "uint" rest).mp ⟨extent,read⟩)
    split at built
    · rename_i word
      obtain ⟨rest,rfl⟩ := startsWith_iff.mp word
      obtain ⟨extent,read,_⟩ := bind_ok.mp built
      exact .int ((baseExtent_ok "int" rest).mp ⟨extent,read⟩)
    split at built
    · rename_i word
      obtain ⟨rest,rfl⟩ := startsWith_iff.mp word
      exact .bool rest
    split at built
    · rename_i word
      obtain ⟨rest,rfl⟩ := startsWith_iff.mp word
      exact .string rest
    split at built
    · rename_i word
      rw [word]
      exact .bytes
    split at built
    · rename_i word
      obtain ⟨rest,rfl⟩ := startsWith_iff.mp word
      obtain ⟨size,read,later⟩ := bind_ok.mp built
      obtain ⟨fixedN,fits,_⟩ := bind_ok.mp later
      rw [List.drop_left] at read
      obtain ⟨i,number,range⟩ := (fixedN_ok rest _).mp ⟨fixedN,bind_ok.mpr ⟨size,read,fits⟩⟩
      exact .bytesN number range.1 range.2
    split at built
    · rename_i word
      obtain ⟨rest,rfl⟩ := startsWith_iff.mp word
      exact .address rest
    · cases built
  · intro loose
    cases loose with
    | uint extent =>
      obtain ⟨extent,read⟩ := (baseExtent_ok "uint" _).mpr extent
      rw [buildBaseAbstractType,if_pos (startsWith_iff.mpr ⟨_,rfl⟩),read]
      exact ⟨_,rfl⟩
    | @int rest extent =>
      obtain ⟨extent,read⟩ := (baseExtent_ok "int" _).mpr extent
      have noUint : startsWith (lit "int" ++ rest) (lit "uint") = false := rfl
      rw [buildBaseAbstractType,noUint,if_neg Bool.false_ne_true,if_pos (startsWith_iff.mpr ⟨_,rfl⟩),read]
      exact ⟨_,rfl⟩
    | bool rest => exact ⟨_,rfl⟩
    | string rest => exact ⟨_,rfl⟩
    | bytes => exact ⟨_,rfl⟩
    | @bytesN rest i read positive small =>
      have numbered : lit "bytes" ++ rest ≠ lit "bytes" := by
        rintro same
        rw [List.append_right_eq_self.mp same] at read
        cases read
      obtain ⟨fixedN,fits⟩ := (fixedN_ok rest (lit "invalid bytesN(bytes1~bytes32), type is " ++ (lit "bytes" ++ rest))).mpr
        ⟨i,read,positive,small⟩
      obtain ⟨size,number,fits⟩ := bind_ok.mp fits
      have noUint : startsWith (lit "bytes" ++ rest) (lit "uint") = false := rfl
      have noInt : startsWith (lit "bytes" ++ rest) (lit "int") = false := rfl
      have noBool : startsWith (lit "bytes" ++ rest) (lit "bool") = false := rfl
      have noString : startsWith (lit "bytes" ++ rest) (lit "string") = false := rfl
      simp only [buildBaseAbstractType,noUint,noInt,noBool,noString,Bool.false_eq_true,if_false,numbered,
        startsWith_iff.mpr ⟨rest,rfl⟩,if_true,List.drop_left,number,ok_bind,fits]
      exact ⟨_,rfl⟩
    | address rest => exact ⟨_,rfl⟩

/-! ### The whole text -/

theorem takeWhile_flat {base tail : Bytes} (flat : 91 ∉ base) (opens : tail = [] ∨ tail.head? = some 91) :
    (base ++ tail).takeWhile (fun c => c != 91) = base ∧ (base ++ tail).dropWhile (fun c => c != 91) = tail := by
  have front : ∀ c ∈ base, (c != 91) = true := fun c member => by simpa using fun same : c = 91 => flat (same ▸ member)
  rw [List.takeWhile_append_of_pos front,List.dropWhile_append_of_pos front]
  rcases opens with rfl | opens
  · simp
  · obtain ⟨rest,rfl⟩ := List.head?_eq_some_iff.mp opens
    simp
theorem dropWhile_opens (text : Bytes) :
    text.dropWhile (fun c => c != 91) = [] ∨ (text.dropWhile (fun c => c != 91)).head? = some 91 := by
  have first := List.head?_dropWhile_not (fun c => c != 91) text
  cases tail : text.dropWhile (fun c => c != 91) with
  | nil => exact .inl rfl
  | cons c rest =>
    rw [tail] at first
    exact .inr (by simpa using first)
private theorem looseBase_ne_nil {base : Bytes} (loose : LooseBase base) : base ≠ [] := by
  cases loose <;> simp [lit]

/-- What is built from is the language of loose texts. -/
theorem build_ok_iff (indeterminate : Bool) (str base : Bytes) (extents : List Nat) :
    (∃ tree, build indeterminate str = .ok (⟨base,extents⟩,tree)) ↔ Loose str base extents := by
  constructor
  · rintro ⟨tree,built⟩
    obtain ⟨helper,parsed,later⟩ := bind_ok.mp built
    obtain ⟨found,made,⟨⟩⟩ := bind_ok.mp later
    simp only [reset] at parsed
    split at parsed
    · cases parsed
    obtain ⟨sizes,read,⟨⟩⟩ := bind_ok.mp parsed
    obtain ⟨inners,pieces,numbers⟩ := (extentsOf_ok_iff str le_rfl).mp read
    refine ⟨(buildBase_ok indeterminate _).mp ⟨tree,made⟩,fun member => ?_,?_⟩
    · cases List.mem_takeWhile_imp member
    · exact ⟨_,inners,List.takeWhile_append_dropWhile.symm,dropWhile_opens _,pieces,numbers⟩
  · rintro ⟨based,flat,tail,inners,split,opens,pieces,numbers⟩
    obtain ⟨tree,made⟩ := (buildBase_ok indeterminate base).mpr based
    obtain ⟨front,back⟩ := takeWhile_flat flat opens
    have nonempty : trim str ≠ [] := by
      rw [split]
      exact fun empty => looseBase_ne_nil based (List.append_eq_nil_iff.mp empty).1
    have read := (extentsOf_ok_iff str (le_refl tail.length)).mpr ⟨inners,pieces,numbers⟩
    refine ⟨tree,?_⟩
    simp only [build,reset]
    rw [if_neg nonempty,split,front,back,read]
    simp only [ok_bind,made]

/-- The call returns or throws. -/
def Catchable {α : Type} (call : Call α) : Prop := ∀ failure, call = .error failure → ∃ what, failure = .throws what

private theorem catchable_ok {α : Type} (a : α) : Catchable (.ok a : Call α) := nofun
private theorem catchable_throws {α : Type} (what : Bytes) : Catchable (throws what : Call α) := by
  rintro failure ⟨⟩
  exact ⟨what,rfl⟩
private theorem catchable_bind {α β : Type} {call : Call α} {next : α → Call β} (first : Catchable call)
    (later : ∀ a, Catchable (next a)) : Catchable (call >>= next) := by
  cases call with
  | error failure =>
    rintro _ ⟨⟩
    exact first failure rfl
  | ok a => exact later a

private theorem catchable_readSize (text error : Bytes) : Catchable (readSize text error) := by
  unfold readSize
  split
  · exact catchable_ok _
  · exact catchable_throws error
private theorem catchable_extentsOf (str : Bytes) {fuel : Nat} {text : Bytes} (enough : text.length ≤ fuel) :
    Catchable (extentsOf str fuel text) := by
  induction fuel generalizing text with
  | zero =>
    rw [List.length_eq_zero_iff.mp (Nat.le_zero.mp enough)]
    exact catchable_ok []
  | succ fuel ih =>
    cases text with
    | nil => exact catchable_ok []
    | cons c rest =>
      simp only [extentsOf]
      split
      · split
        · exact catchable_throws _
        · refine catchable_bind ?_ (fun size => catchable_bind (ih ?_) (fun sizes => catchable_ok _))
          · unfold readExtent
            split
            · exact catchable_ok 0
            · exact catchable_readSize _ _
          · simp only [List.length_cons,List.length_drop] at enough ⊢
            omega
      · exact catchable_throws _
private theorem catchable_baseExtent (kind : String) (strType : Bytes) : Catchable (baseExtent kind strType) := by
  have verified : ∀ extent, Catchable (verifyExtent kind extent) := by
    intro extent
    unfold verifyExtent
    split
    · exact catchable_ok _
    · exact catchable_throws _
  unfold baseExtent
  split
  · exact catchable_bind (catchable_readSize _ _) verified
  · exact catchable_bind (catchable_ok 256) verified
private theorem catchable_buildBase (indeterminate : Bool) (base : Bytes) : Catchable (buildBaseAbstractType indeterminate base) := by
  unfold buildBaseAbstractType
  split
  · exact catchable_bind (catchable_baseExtent _ _) (fun extent => catchable_ok _)
  split
  · exact catchable_bind (catchable_baseExtent _ _) (fun extent => catchable_ok _)
  split
  · exact catchable_ok _
  split
  · exact catchable_ok _
  split
  · exact catchable_ok _
  split
  · refine catchable_bind (catchable_readSize _ _) (fun size => catchable_bind ?_ (fun fixedN => catchable_ok _))
    unfold verifyFixedN
    split
    · exact catchable_ok _
    · exact catchable_throws _
  split
  · exact catchable_ok _
  · exact catchable_throws _
/-- A text that is not built from is rejected with an exception. -/
theorem catchable_build (indeterminate : Bool) (str : Bytes) : Catchable (build indeterminate str) := by
  refine catchable_bind ?_ (fun helper => catchable_bind (catchable_buildBase _ _) (fun tree => catchable_ok _))
  simp only [reset]
  split
  · exact catchable_throws _
  · exact catchable_bind (catchable_extentsOf str le_rfl) (fun extents => catchable_ok _)

/-! ### Blanks in brackets -/

private theorem squeeze_flat {text : Bytes} (flat : 91 ∉ text) (rest : Bytes) :
    squeeze false (text ++ rest) = text ++ squeeze false rest := by
  induction text with
  | nil => rfl
  | cons c text ih =>
    obtain ⟨other,flat⟩ := not_or.mp (List.mem_cons.not.mp flat)
    simp [squeeze,ih flat,Ne.symm other]
private theorem squeeze_inside {inner : Bytes} (closed : 93 ∉ inner) (rest : Bytes) :
    squeeze true (inner ++ 93 :: rest) = strip inner ++ 93 :: squeeze false rest := by
  have noBlank : isSpace 93 = false := rfl
  induction inner with
  | nil => simp [squeeze,strip,noBlank]
  | cons c inner ih =>
    obtain ⟨other,closed⟩ := not_or.mp (List.mem_cons.not.mp closed)
    by_cases blank : isSpace c = true
    · simp [squeeze,strip,blank,ih closed]
    · simp [squeeze,strip,blank,ih closed,Ne.symm other]
private theorem squeeze_piece {junk inner : Bytes} (flat : 91 ∉ junk) (closed : 93 ∉ inner) (rest : Bytes) :
    squeeze false (junk ++ 91 :: (inner ++ 93 :: rest)) = junk ++ 91 :: (strip inner ++ 93 :: squeeze false rest) := by
  rw [squeeze_flat flat]
  simp [squeeze,squeeze_inside closed]

/-- Pieces that are brackets without their blanks are brackets. -/
theorem pieces_bracketed {text : Bytes} {inners runs : List Bytes} (pieces : Pieces text inners)
    (digits : ∀ run ∈ runs, ∀ c ∈ run, isDigit c = true) (same : squeeze false text = runs.flatMap bracketed) :
    text = inners.flatMap bracketed ∧ runs = inners.map strip := by
  induction pieces generalizing runs with
  | nil =>
    cases runs with
    | nil => exact ⟨rfl,rfl⟩
    | cons run runs => cases same
  | @cons junk inner rest inners junkOpen junkClose innerClose pieces ih =>
    rw [squeeze_piece junkOpen innerClose] at same
    cases runs with
    | nil => simp at same
    | cons run runs =>
      obtain ⟨here,later⟩ := List.forall_mem_cons.mp digits
      rw [List.flatMap_cons,bracketed,List.cons_append,List.append_assoc] at same
      have empty : junk = [] := by
        cases junk with
        | nil => rfl
        | cons c junk =>
          have first : c = 91 := (List.cons.inj same).1
          exact absurd List.mem_cons_self (first ▸ junkOpen)
      subst empty
      have stripped : 93 ∉ strip inner := fun member => innerClose (List.mem_filter.mp member).1
      have closed : 93 ∉ run := fun member => by cases here 93 member
      obtain ⟨head,tail⟩ := cut_unique stripped closed (List.cons.inj same).2
      obtain ⟨rfl,rfl⟩ := ih later tail
      simp [bracketed,head]

/-- Brackets around anything but brackets are pieces. -/
theorem bracketed_pieces {inners : List Bytes} (closed : ∀ inner ∈ inners, 93 ∉ inner) :
    Pieces (inners.flatMap bracketed) inners ∧ squeeze false (inners.flatMap bracketed) = (inners.map strip).flatMap bracketed := by
  induction inners with
  | nil => exact ⟨.nil,rfl⟩
  | cons inner inners ih =>
    obtain ⟨here,later⟩ := List.forall_mem_cons.mp closed
    obtain ⟨pieces,squeezed⟩ := ih later
    have split : (inner :: inners).flatMap bracketed = [] ++ 91 :: (inner ++ 93 :: inners.flatMap bracketed) := by
      simp [bracketed]
    rw [split,squeeze_piece (by simp) here,squeezed]
    exact ⟨.cons (by simp) (by simp) here pieces,by simp [bracketed]⟩

/-! ### Numbers in brackets -/

/-- The digits that a text begins with are read as their number, within `int`. -/
theorem stoi_digits {front rest : Bytes} (digits : ∀ c ∈ front, isDigit c = true) (nonempty : front ≠ [])
    (stops : ∀ c ∈ rest.head?, isDigit c = false) :
    stoi (front ++ rest) = if digitsValue front < 2147483648 then some (digitsValue front : Int) else none := by
  obtain ⟨c,more,rfl⟩ := List.exists_cons_of_ne_nil nonempty
  have digit := digits c List.mem_cons_self
  have blanks : (c :: more ++ rest).dropWhile isSpace = c :: more ++ rest := by
    rw [List.cons_append,List.dropWhile_cons_of_neg (by rw [isSpace_of_isDigit digit]; exact Bool.false_ne_true)]
  have sign : signOf (c :: more ++ rest) = (false,c :: more ++ rest) := by
    rw [List.cons_append]
    unfold signOf
    split
    · rename_i same
      cases same
      cases digit
    · rename_i same
      cases same
      cases digit
    · rfl
  have span : (c :: more ++ rest).takeWhile isDigit = c :: more := by
    have later : rest.takeWhile isDigit = [] := by
      cases rest with
      | nil => rfl
      | cons d rest => rw [List.takeWhile_cons_of_neg (by rw [stops d rfl]; exact Bool.false_ne_true)]
    rw [List.takeWhile_append_of_pos digits,later,List.append_nil]
  have range : (-2147483648 ≤ (digitsValue (c :: more) : Int) ∧ (digitsValue (c :: more) : Int) ≤ 2147483647) ↔
      digitsValue (c :: more) < 2147483648 := by omega
  simp only [stoi,blanks,sign,span,Bool.false_eq_true,if_false,List.cons_ne_nil,range]

/-- Digits are read as their number. -/
theorem readInner_digits {inner : Bytes} (digits : ∀ c ∈ trim inner, isDigit c = true)
    (small : digitsValue (trim inner) < 2147483648) : readInner inner = some (digitsValue (trim inner)) := by
  unfold readInner
  split
  · rename_i empty
    rw [empty]
    rfl
  · rename_i nonempty
    have read := stoi_digits digits nonempty (show ∀ c ∈ ([] : Bytes).head?, isDigit c = false by simp)
    rw [List.append_nil,if_pos small] at read
    rw [read,Option.map_some,sizeOfInt_natCast small]

/-- What digits are followed by makes their number greater. -/
theorem digitsValue_more (front : Bytes) (c : UInt8) (rest : Bytes) :
    10 * digitsValue front ≤ digitsValue (front ++ c :: rest) := by
  induction rest using List.reverseRecOn with
  | nil =>
    rw [digitsValue_append]
    omega
  | append_singleton rest d ih =>
    rw [← List.cons_append,← List.append_assoc,digitsValue_append]
    omega

/-- A number is read as the digits in the brackets only if no blank is between them. -/
theorem readInner_strip {inner : Bytes} (digits : ∀ c ∈ strip inner, isDigit c = true)
    (positive : strip inner ≠ [] → 0 < digitsValue (strip inner)) (read : readInner inner = some (digitsValue (strip inner))) :
    trim inner = strip inner ∧ digitsValue (strip inner) < 2147483648 := by
  by_cases empty : strip inner = []
  · rw [empty,trim_nil.mpr empty]
    exact ⟨rfl,by decide⟩
  have nonempty : trim inner ≠ [] := fun trimmed => empty (trim_nil.mp trimmed)
  have value := positive empty
  rw [readInner,if_neg nonempty] at read
  rw [← strip_trim] at digits value read ⊢
  -- the digits up to the first other character are what is read
  have whole : (trim inner).takeWhile isDigit ++ (trim inner).dropWhile isDigit = trim inner := List.takeWhile_append_dropWhile
  have first : (trim inner).takeWhile isDigit ≠ [] := by
    obtain ⟨c,rest,split⟩ := List.exists_cons_of_ne_nil nonempty
    have kept : c ∈ strip (trim inner) := by
      rw [split]
      simp [strip,Blanks.trimBy_begins split]
    rw [split,List.takeWhile_cons_of_pos (digits c kept)]
    exact List.cons_ne_nil _ _
  have stops : ∀ c ∈ ((trim inner).dropWhile isDigit).head?, isDigit c = false := by
    intro c member
    have other := List.head?_dropWhile_not isDigit (trim inner)
    rw [Option.mem_def.mp member] at other
    exact other
  have all : ∀ c ∈ (trim inner).takeWhile isDigit, isDigit c = true := fun c member => List.mem_takeWhile_imp member
  rw [← whole,stoi_digits all first stops,whole] at read
  split at read
  case isFalse => cases read
  case isTrue small =>
  have same : digitsValue ((trim inner).takeWhile isDigit) = digitsValue (strip (trim inner)) := by
    rw [Option.map_some,sizeOfInt_natCast small] at read
    exact Option.some.inj read
  have split : strip (trim inner) = (trim inner).takeWhile isDigit ++ strip ((trim inner).dropWhile isDigit) := by
    conv_lhs => rw [← whole]
    rw [strip_append,strip_clean (fun c member => isSpace_of_isDigit (all c member))]
  -- no digit follows, as the number would be zero
  have blanks : strip ((trim inner).dropWhile isDigit) = [] := by
    cases more : strip ((trim inner).dropWhile isDigit) with
    | nil => rfl
    | cons c later =>
      have greater := digitsValue_more ((trim inner).takeWhile isDigit) c later
      rw [← more,← split] at greater
      omega
  have none : (trim inner).dropWhile isDigit = [] :=
    Blanks.trimBy_ends whole.symm (by simpa [strip] using List.filter_eq_nil_iff.mp blanks)
  rw [none,List.append_nil] at whole
  rw [split,blanks,List.append_nil]
  exact ⟨whole.symm,small⟩

/-! ### The two languages -/

private theorem elementary_base {t : Param} (elementary : Elementary t) : t.base = t ∧ contains (lit "tuple") t.text = false := by
  have same : t.base = t := by
    cases t with
    | list element => exact elementary.elim
    | fixed element dimension => exact elementary.elim
    | _ => rfl
  have word := isTuple_eq t
  rw [same] at word
  refine ⟨same,word.trans ?_⟩
  cases t with
  | tuple components => exact elementary.elim
  | _ => rfl
private theorem baseText_flat {base : Bytes} (based : BaseText base) : 91 ∉ base := by
  obtain ⟨t,elementary,rfl⟩ := based
  intro member
  rw [← (elementary_base elementary).1] at member
  exact (base_plain t 91 member).2 rfl
/-- The bases of the grammar are loose. -/
theorem baseText_loose {base : Bytes} (based : BaseText base) : LooseBase base := by
  obtain ⟨t,elementary,rfl⟩ := based
  have plain : ¬ t.HasExtent := by
    cases t with
    | list element => exact elementary.elim
    | fixed element dimension => exact elementary.elim
    | _ => exact id
  obtain ⟨tree,built,_⟩ := buildBase_eq false [] t plain (elementary_base elementary).2
  exact (buildBase_ok false t.text).mp ⟨tree,built⟩

theorem flatMap_opens (runs : List Bytes) : runs.flatMap bracketed = [] ∨ (runs.flatMap bracketed).head? = some 91 := by
  cases runs with
  | nil => exact .inl rfl
  | cons run runs => exact .inr rfl

/-- Every member is read as its number. -/
theorem readInner_all {number : Bytes → Nat} {inners : List Bytes} :
    inners.mapM readInner = some (inners.map number) ↔ ∀ inner ∈ inners, readInner inner = some (number inner) := by
  induction inners with
  | nil => simp
  | cons inner inners ih =>
    rw [List.forall_mem_cons,← ih,List.map_cons]
    simp only [List.mapM_cons,Option.bind_eq_bind,Option.bind_eq_some_iff,Option.pure_def,Option.some.injEq,List.cons.injEq]
    constructor
    · rintro ⟨size,first,sizes,later,rfl,rfl⟩
      exact ⟨first,later⟩
    · rintro ⟨first,later⟩
      exact ⟨_,first,_,later,rfl,rfl⟩

/-- A strict text has the form of the grammar and is loose, with the same numbers. -/
theorem strict_both {str base : Bytes} {inners : List Bytes} (strict : Strict str base inners) :
    Grammar (normalized str) base (inners.map trim) ∧ Loose str base ((inners.map trim).map digitsValue) := by
  have flat := baseText_flat strict.based
  have stripped : inners.map strip = inners.map trim := by
    refine List.map_congr_left (fun inner member => ?_)
    rw [← strip_trim]
    exact strip_clean (fun c inside => isSpace_of_isDigit (strict.digits inner member c inside))
  have closed : ∀ inner ∈ inners, 93 ∉ inner := by
    intro inner member inside
    have kept : 93 ∈ strip (trim inner) := by
      rw [strip_trim]
      exact List.mem_filter.mpr ⟨inside,rfl⟩
    cases strict.digits inner member 93 (List.mem_filter.mp kept).1
  obtain ⟨pieces,squeezed⟩ := bracketed_pieces closed
  constructor
  · refine ⟨?_,strict.based,?_,?_⟩
    · rw [normalized,strict.spelled,squeeze_flat flat,squeezed,stripped]
    · exact List.forall_mem_map.mpr strict.digits
    · exact List.forall_mem_map.mpr strict.positive
  · refine ⟨baseText_loose strict.based,flat,_,inners,strict.spelled,flatMap_opens inners,pieces,?_⟩
    rw [List.map_map]
    exact readInner_all.mpr (fun inner member => readInner_digits (strict.digits inner member) (strict.small inner member))

/-- A loose text of the grammar, with the same numbers, is strict. -/
theorem strict_of_both {str base : Bytes} {runs : List Bytes} (grammar : Grammar (normalized str) base runs)
    (loose : Loose str base (runs.map digitsValue)) : ∃ inners, Strict str base inners := by
  obtain ⟨_,flat,tail,inners,split,_,pieces,numbers⟩ := loose
  have same : squeeze false tail = runs.flatMap bracketed := by
    have spelled := grammar.spelled
    rw [normalized,split,squeeze_flat flat] at spelled
    exact List.append_cancel_left spelled
  obtain ⟨rfl,rfl⟩ := pieces_bracketed pieces grammar.digits same
  have each : ∀ inner ∈ inners, trim inner = strip inner ∧ digitsValue (strip inner) < 2147483648 := by
    rw [List.map_map] at numbers
    intro inner member
    have stripped : strip inner ∈ inners.map strip := List.mem_map_of_mem member
    exact readInner_strip (grammar.digits _ stripped) (grammar.positive _ stripped) (readInner_all.mp numbers inner member)
  refine ⟨inners,split,grammar.based,?_,?_,?_⟩
  · intro inner member
    rw [(each inner member).1]
    exact grammar.digits _ (List.mem_map_of_mem member)
  · intro inner member
    rw [(each inner member).1]
    exact grammar.positive _ (List.mem_map_of_mem member)
  · intro inner member
    rw [(each inner member).1]
    exact (each inner member).2

/-- A text is built from as the grammar says exactly where it is strict, or of neither
    language. -/
theorem build_exact_iff (indeterminate : Bool) (str : Bytes) : Exact indeterminate str ↔
    (∃ base inners, Strict str base inners) ∨
      ¬ ((∃ base extents, Loose str base extents) ∨ ∃ base runs, Grammar (normalized str) base runs) := by
  constructor
  · intro exact
    by_cases grammar : ∃ base runs, Grammar (normalized str) base runs
    · obtain ⟨base,runs,tree,form,built⟩ := exact.accepted grammar
      obtain ⟨inners,strict⟩ := strict_of_both form ((build_ok_iff indeterminate str base _).mp ⟨tree,built⟩)
      exact .inl ⟨base,inners,strict⟩
    · obtain ⟨what,rejected⟩ := exact.rejected grammar
      refine .inr (not_or.mpr ⟨?_,grammar⟩)
      rintro ⟨base,extents,loose⟩
      obtain ⟨tree,built⟩ := (build_ok_iff indeterminate str base extents).mpr loose
      rw [rejected] at built
      cases built
  · rintro (⟨base,inners,strict⟩ | neither)
    · obtain ⟨grammar,loose⟩ := strict_both strict
      obtain ⟨tree,built⟩ := (build_ok_iff indeterminate str base _).mpr loose
      exact ⟨fun _ => ⟨base,_,tree,grammar,built⟩,fun none => absurd ⟨base,_,grammar⟩ none⟩
    · obtain ⟨unread,ungrammatical⟩ := not_or.mp neither
      refine ⟨fun grammar => absurd grammar ungrammatical,fun _ => ?_⟩
      cases built : build indeterminate str with
      | ok result =>
        obtain ⟨⟨base,extents⟩,tree⟩ := result
        exact absurd ⟨base,extents,(build_ok_iff indeterminate str base extents).mp ⟨tree,built⟩⟩ unread
      | error failure =>
        obtain ⟨what,rfl⟩ := catchable_build indeterminate str failure built
        exact ⟨what,rfl⟩

/-- A sign in brackets is read, though it is not of the grammar. -/
theorem build_signed : build false (lit "bool[+2]") = .ok (⟨lit "bool",[2]⟩,.boolean [] false) ∧ ¬ Exact false (lit "bool[+2]") := by
  have built : build false (lit "bool[+2]") = .ok (⟨lit "bool",[2]⟩,.boolean [] false) := rfl
  refine ⟨built,fun exact' => ?_⟩
  have rejected := exact'.rejected ?_
  · obtain ⟨what,thrown⟩ := rejected
    rw [built] at thrown
    cases thrown
  · rintro ⟨base,runs,grammar⟩
    have cut := (takeWhile_flat (baseText_flat grammar.based) (flatMap_opens runs)).2
    rw [← grammar.spelled] at cut
    cases runs with
    | nil => cases cut
    | cons run runs =>
      have signed : [91,43,50,93] = 91 :: ((run ++ [93]) ++ runs.flatMap bracketed) := cut
      cases run with
      | nil => cases signed
      | cons c run =>
        have sign : c = 43 := (List.cons.inj (List.cons.inj signed).2).1.symm
        have digit := grammar.digits _ List.mem_cons_self c List.mem_cons_self
        rw [sign] at digit
        cases digit

end CppSdk.TypeStrings

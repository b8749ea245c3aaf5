import CppSdk.ContractABIType
import CppSdk.Texts

/-!
The factory that builds value trees from the types of an ABI. A type is a base type with
extents after it; the helper that holds the extents is shared by all members of a list,
and each list takes its extent off it. What is built in the end is a list of the inner
lists' tree and of members without any extents (`buildAbstractType_eq`).
-/
namespace CppSdk.ContractABIDefinitionFactory
open CppSdk.ByteString CppSdk.Runtime CppSdk.Texts CppSdk.ContractABIType

/-! ### Types of an ABI -/

/-- `NamedType`. -/
inductive NamedType where
  | mk (name type : Bytes) (indexed : Bool) (components : List NamedType)

/-- `NamedType::indexed`. -/
def NamedType.indexed : NamedType → Bool
  | .mk _ _ indexed _ => indexed

/-- `NamedTypeHelper`. `m_type` is left out: nothing reads it. -/
structure NamedTypeHelper where
  baseType : Bytes
  extents : List Nat

/-- The number that a text starts with, or the error of the `catch` block. -/
def readSize (text error : Bytes) : Call Nat :=
  match stoi text with
  | some i => .ok (sizeOfInt i)
  | none => throws error

/-- The extent between two brackets. -/
def readExtent (digit error : Bytes) : Call Nat := if digit = [] then .ok 0 else readSize digit error

/-- The loop of `NamedTypeHelper::reset` over the rest of the text. -/
def extentsOf (str : Bytes) : Nat → Bytes → Call (List Nat)
  | _, [] => .ok []
  | 0, _ :: _ => .error .diverges
  | fuel + 1, c :: rest =>
    let error := lit "invalid type in string format, value: " ++ str
    match (c :: rest).idxOf? 91, (c :: rest).idxOf? 93 with
    | some leftBracket, some rightBracket =>
      if rightBracket ≤ leftBracket then throws error
      else do
        let digit := trim (((c :: rest).drop (leftBracket + 1)).take (rightBracket - leftBracket - 1))
        let size ← readExtent digit error
        .ok (size :: (← extentsOf str fuel ((c :: rest).drop (rightBracket + 1))))
    | _, _ => throws error

/-- `NamedTypeHelper::reset`. -/
def reset (str : Bytes) : Call NamedTypeHelper :=
  let strType := trim str
  if strType = [] then throws (lit "empty string, invalid type in string format")
  else do
    let brackets := strType.dropWhile (fun c => c != 91)
    .ok ⟨strType.takeWhile (fun c => c != 91),← extentsOf str brackets.length brackets⟩

/-- `isTuple`. -/
def NamedTypeHelper.isTuple (helper : NamedTypeHelper) : Bool := contains (lit "tuple") helper.baseType

/-! ### Building trees -/

/-- `setName`. -/
def setName (name : Bytes) : AbstractType → AbstractType
  | .boolean _ value => .boolean name value
  | .uint _ extent value => .uint name extent value
  | .int _ extent value => .int name extent value
  | .fixedBytes _ fixedN value => .fixedBytes name fixedN value
  | .addr _ value => .addr name value
  | .string _ value => .string name value
  | .dynamicBytes _ value => .dynamicBytes name value
  | .dynamicList _ value => .dynamicList name value
  | .fixedList _ dimension value => .fixedList name dimension value
  | .struct _ value => .struct name value

/-- The extent of `uintN` and of `intN`: what follows the name, or 256. -/
def baseExtent (kind : String) (strType : Bytes) : Call Extent := do
  let extent ←
    if (lit kind).length < strType.length then
      readSize (strType.drop (lit kind).length) (lit "invalid " ++ lit kind ++ lit "N, it should be in format as " ++
        lit kind ++ lit "8," ++ lit kind ++ lit "16 ... " ++ lit kind ++ lit "248," ++ lit kind ++ lit "256, type is " ++
        strType)
    else .ok 256
  verifyExtent kind extent

/-- `buildBaseAbstractType`. A `Boolean` is built without a value, so its member holds
    whatever was there. -/
def buildBaseAbstractType (indeterminate : Bool) (strType : Bytes) : Call AbstractType :=
  if startsWith strType (lit "uint") then do .ok (.uint [] (← baseExtent "uint" strType) 0)
  else if startsWith strType (lit "int") then do .ok (.int [] (← baseExtent "int" strType) 0)
  else if startsWith strType (lit "bool") then .ok (.boolean [] indeterminate)
  else if startsWith strType (lit "string") then .ok (.string [] [])
  else if strType = lit "bytes" then .ok (.dynamicBytes [] [])
  else if startsWith strType (lit "bytes") then do
    let fixedN ← readSize (strType.drop (lit "bytes").length) (lit "invalid bytesN(bytes1~bytes32), type is " ++ strType)
    .ok (.fixedBytes [] (← verifyFixedN fixedN 0) [])
  else if startsWith strType (lit "address") then .ok (.addr [] [])
  else throws (lit "Unrecognized type:" ++ strType)

/-- The loop of `buildFixedList`, with the extents that the helper holds. -/
def buildMembers (build : List Nat → Call (AbstractType × List Nat)) : Nat → List Nat →
    Call (List AbstractType × List Nat)
  | 0, extents => .ok ([],extents)
  | count + 1, extents => do
    let (member,extents) ← build extents
    let (members,extents) ← buildMembers build count extents
    .ok (member :: members,extents)

/-- `buildAbstractType` with what it builds where the helper holds no extents: `buildFixedList`
    and `buildDynamicList` take the last extent off the helper. -/
def buildAbstractType (base : Call AbstractType) (name : Bytes) : Nat → List Nat → Call (AbstractType × List Nat)
  | fuel, extents =>
    match fuel, extents.getLast? with
    | _, none => do .ok (setName name (← base),extents)
    | 0, some _ => .error .diverges
    | fuel + 1, some dimension =>
      if 0 < dimension then do
        let (members,extents) ← buildMembers (buildAbstractType base name fuel) dimension extents.dropLast
        .ok (.fixedList name (UInt32.ofNat dimension) members,extents)
      else do
        let (member,extents) ← buildAbstractType base name fuel extents.dropLast
        .ok (.dynamicList name [member],extents)

section
variable (indeterminate : Bool)

mutual
/-- `buildAbstractType` with a new helper for the type. -/
def buildComponent : NamedType → Call AbstractType
  | .mk name type _ components => do
    let helper ← reset type
    let base :=
      if helper.isTuple then do .ok (.struct [] (← buildComponents components))
      else buildBaseAbstractType indeterminate helper.baseType
    .ok (← buildAbstractType base name helper.extents.length helper.extents).1
/-- The loops of `buildTuple`, `buildInput` and `buildOutput`. -/
def buildComponents : List NamedType → Call (List AbstractType)
  | [] => .ok []
  | component :: components => do .ok ((← buildComponent component) :: (← buildComponents components))
end

/-- `buildInput`, and `buildOutput` on the outputs. -/
def buildInput (inputs : List NamedType) : Call AbstractType := do
  .ok (.struct [] (← buildComponents indeterminate inputs))
/-- `buildEvent`: indexed inputs are passed over. -/
def buildEvent (inputs : List NamedType) : Call AbstractType :=
  buildInput indeterminate (inputs.filter (fun input => !input.indexed))

end

/-! ### The extents of a text -/

private theorem readExtent_ends (digit error : Bytes) : Ends (readExtent digit error) := by
  unfold readExtent readSize
  split
  · exact ends_ok 0
  · split
    · exact ends_ok _
    · exact ends_throws error

/-- Every round of the loop takes a bracket off the text, so the loop ends. -/
theorem extentsOf_ends (str : Bytes) {fuel : Nat} {rest : Bytes} (short : rest.length ≤ fuel) :
    Ends (extentsOf str fuel rest) := by
  induction fuel generalizing rest with
  | zero =>
    rw [List.length_eq_zero_iff.mp (Nat.le_zero.mp short)]
    exact ends_ok []
  | succ fuel ih =>
    cases rest with
    | nil => exact ends_ok []
    | cons c rest =>
      simp only [extentsOf]
      split
      · rename_i leftBracket rightBracket _ _
        split
        · exact ends_throws _
        · refine ends_bind (readExtent_ends _ _) (fun size _ => ends_bind (ih ?_) (fun sizes _ => ends_ok _))
          simp only [List.length_cons,List.length_drop] at short ⊢
          omega
      · exact ends_throws _
theorem reset_ends (str : Bytes) : Ends (reset str) := by
  simp only [reset]
  split
  · exact ends_throws _
  · exact ends_bind (extentsOf_ends str le_rfl) (fun extents _ => ends_ok _)

/-- An extent in its brackets. -/
def bracket (extent : Nat) : Bytes := lit "[" ++ ((if extent = 0 then [] else stdToString extent) ++ lit "]")

theorem bracket_eq (extent : Nat) :
    ∃ digit, bracket extent = 91 :: (digit ++ [93]) ∧ (∀ c ∈ digit, isDigit c = true) ∧
      ∀ error, readExtent digit error = if extent < 2147483648 then .ok extent else throws error := by
  by_cases zero : extent = 0
  · subst zero
    exact ⟨[],rfl,by simp,fun error => rfl⟩
  · have decimal := stdToString_decimal extent
    refine ⟨stdToString extent,?_,decimal.digits,fun error => ?_⟩
    · rw [bracket,if_neg zero]
      rfl
    · rw [readExtent,if_neg decimal.nonempty,readSize,stoi_stdToString]
      by_cases small : extent < 2147483648
      · rw [if_pos small,if_pos small]
        exact congrArg _ (sizeOfInt_natCast small)
      · rw [if_neg small,if_neg small]

theorem bracket_clean (extent : Nat) : ∀ c ∈ bracket extent, isSpace c = false := by
  obtain ⟨digit,same,digits,_⟩ := bracket_eq extent
  rw [same]
  intro c member
  rcases List.mem_cons.mp member with rfl | later
  · rfl
  · rcases List.mem_append.mp later with inside | last
    · exact isSpace_of_isDigit (digits c inside)
    · rw [List.mem_singleton.mp last]
      rfl

/-- Where a character occurs for the first time. -/
theorem idxOf_first {c : UInt8} (front : Bytes) (absent : c ∉ front) (rest : Bytes) :
    (front ++ c :: rest).idxOf? c = some front.length := by
  induction front with
  | nil => simp [List.idxOf?_cons]
  | cons d front ih =>
    simp only [List.mem_cons,not_or] at absent
    simp [List.idxOf?_cons,ih absent.2,Ne.symm absent.1]

/-- The loop reads one extent. -/
theorem extentsOf_bracket (str : Bytes) (fuel extent : Nat) (rest : Bytes) :
    extentsOf str (fuel + 1) (bracket extent ++ rest) =
      if extent < 2147483648 then do .ok (extent :: (← extentsOf str fuel rest))
      else throws (lit "invalid type in string format, value: " ++ str) := by
  obtain ⟨digit,same,digits,reads⟩ := bracket_eq extent
  have whole : bracket extent ++ rest = 91 :: (digit ++ 93 :: rest) := by simp [same]
  have left : (91 :: (digit ++ 93 :: rest)).idxOf? 91 = some 0 := idxOf_first [] (by simp) _
  have right : (91 :: (digit ++ 93 :: rest)).idxOf? 93 = some (digit.length + 1) := by
    refine idxOf_first (91 :: digit) (fun member => ?_) rest
    rcases List.mem_cons.mp member with first | inside
    · cases first
    · cases digits 93 inside
  have clean : trim digit = digit := trim_clean (fun c member => isSpace_of_isDigit (digits c member))
  rw [whole,extentsOf,left,right]
  simp only [Nat.le_zero_eq,Nat.add_eq_zero_iff,one_ne_zero,and_false,if_false,Nat.zero_add,Nat.sub_zero,
    List.drop_succ_cons,List.drop_zero,Nat.add_sub_cancel,List.take_left,clean,reads]
  have later : (digit ++ 93 :: rest).drop (digit.length + 1) = rest := by simp [List.drop_append]
  rw [later]
  by_cases small : extent < 2147483648
  · rw [if_pos small,if_pos small,ok_bind]
  · rw [if_neg small,if_neg small]
    rfl

/-- The loop reads the extents that an `int` holds. -/
theorem extentsOf_brackets (str : Bytes) (extents : List Nat) {fuel : Nat}
    (enough : (extents.flatMap bracket).length ≤ fuel) :
    extentsOf str fuel (extents.flatMap bracket) =
      if ∀ extent ∈ extents, extent < 2147483648 then .ok extents
      else throws (lit "invalid type in string format, value: " ++ str) := by
  induction extents generalizing fuel with
  | nil => cases fuel <;> simp [extentsOf]
  | cons extent extents ih =>
    have size : 2 ≤ (bracket extent).length := by simp [bracket,lit]
    rw [List.flatMap_cons,List.length_append] at enough
    obtain ⟨fuel,rfl⟩ : ∃ less, fuel = less + 1 := ⟨fuel - 1,by omega⟩
    rw [List.flatMap_cons,extentsOf_bracket,ih (by omega)]
    by_cases small : extent < 2147483648
    · by_cases others : ∀ extent ∈ extents, extent < 2147483648
      · rw [if_pos small,if_pos others,if_pos ((List.forall_mem_cons (p := fun e => e < 2147483648)).mpr ⟨small,others⟩),ok_bind]
      · rw [if_pos small,if_neg others,if_neg (fun both => others (fun e member => both e (List.mem_cons_of_mem _ member)))]
        rfl
    · rw [if_neg small,if_neg (fun both => small (both extent List.mem_cons_self))]

/-! ### The trees that are built -/

/-- The tree for extents, the last one first: the first member of a fixed list has the
    extents that are left, the others have none. -/
def lists (name : Bytes) (base : AbstractType) : List Nat → AbstractType
  | [] => base
  | 0 :: extents => .dynamicList name [lists name base extents]
  | (count + 1) :: extents =>
    .fixedList name (UInt32.ofNat (count + 1)) (lists name base extents :: List.replicate count base)

private theorem buildMembers_base {build : List Nat → Call (AbstractType × List Nat)} {base : AbstractType}
    (built : build [] = .ok (base,[])) (count : Nat) :
    buildMembers build count [] = .ok (List.replicate count base,[]) := by
  induction count with
  | zero => rfl
  | succ count ih => simp [buildMembers,built,ih,List.replicate_succ]

private theorem buildAbstractType_nil (base : Call AbstractType) (name : Bytes) (fuel : Nat) :
    buildAbstractType base name fuel [] = (do .ok (setName name (← base),[])) := by
  cases fuel <;> rfl

/-- What `buildAbstractType` builds, and that it leaves no extents in the helper. -/
theorem buildAbstractType_eq (base : Call AbstractType) (name : Bytes) (extents : List Nat) {fuel : Nat}
    (enough : extents.length ≤ fuel) :
    buildAbstractType base name fuel extents.reverse = (do .ok (lists name (setName name (← base)) extents,[])) := by
  induction extents generalizing fuel with
  | nil => exact buildAbstractType_nil base name fuel
  | cons extent extents ih =>
    obtain ⟨fuel,rfl⟩ : ∃ less, fuel = less + 1 := ⟨fuel - 1,by simp at enough; omega⟩
    have inner := ih (show extents.length ≤ fuel by simpa using enough)
    have last : (extent :: extents).reverse.getLast? = some extent := by simp
    have others : (extent :: extents).reverse.dropLast = extents.reverse := by simp
    cases extent with
    | zero =>
      rw [buildAbstractType.eq_def]
      simp only [last,others,Nat.lt_irrefl,if_false,inner]
      cases base <;> rfl
    | succ count =>
      rw [buildAbstractType.eq_def]
      simp only [last,others,Nat.succ_pos,if_true,buildMembers,inner]
      cases base with
      | error failure => rfl
      | ok tree =>
        have rest := buildMembers_base (buildAbstractType_nil (.ok tree) name fuel) count
        simp only [ok_bind] at rest ⊢
        rw [rest]
        rfl

end CppSdk.ContractABIDefinitionFactory

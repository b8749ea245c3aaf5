import CppSdk.NumericArguments
import CppSdk.RoundTrip
import CppSdk.TypeBuilder

/-!
The arguments of a method. A JSON value is an argument for a value of a type (`Argument`)
and has one canonical form; the tree of a type is filled with an argument exactly when no
list that has elements holds a `bytesN` (`fill_cloneable`, `cloneable_of_fill`): the template
of such a list cannot be cloned.
-/
namespace CppSdk.MethodArguments
open CppSdk.ByteString CppSdk.Runtime CppSdk.Texts CppSdk.JsonValues CppSdk.SolidityAbi CppSdk.ContractABIType
open CppSdk.AbiCodec CppSdk.RoundTrip
open CppSdk.TypeBuilder (Param Dimension trees tys wholeExtent AllBuildable tree_typed)
open CppSdk.NumericArguments hiding Exact

/-! ### Arguments -/

/-- The lower-case letter. -/
def lowerCase (c : UInt8) : UInt8 := if 65 ≤ c ∧ c ≤ 90 then c + 32 else c
/-- The text is that of the bytes in hexadecimal digits of either case. -/
def HexText (text content : Bytes) : Prop := text.map lowerCase = toHex content
/-- `fromHexString` reads digits of either case. -/
def ReadsHex (U : Utilities) : Prop := ∀ text content, HexText text content → U.fromHexString text = .ok content

/-- A JSON number, or the text of its decimal digits; texts with leading zeros, whose digits are read
    as octal, are outside of what is claimed. -/
def Spells (json : Json) (i : Int) : Prop := json.number = some i ∨ json = .string (intText i)

/-- The JSON value is an argument for the value of the type. Texts of numbers have no leading zeros. -/
inductive Argument : Param → Json → Value → Prop where
  | uint {extent : Option Extent} {json : Json} {n : Nat} (spelled : Spells json n)
      (range : n < 2 ^ (extent.getD wholeExtent).1) : Argument (.uint extent) json (.nat n)
  | int {extent : Option Extent} {json : Json} {i : Int} (spelled : Spells json i)
      (low : -2 ^ ((extent.getD wholeExtent).1 - 1) ≤ i) (high : i < 2 ^ ((extent.getD wholeExtent).1 - 1)) :
      Argument (.int extent) json (.int i)
  | bool (b : Bool) : Argument .bool (.boolean b) (.bool b)
  | string (text : Bytes) : Argument .string (.string text) (.bytes text)
  | bytes {text content : Bytes} (hex : HexText text content) :
      Argument .bytes (.string (lit "hex://" ++ text)) (.bytes content)
  | bytesN {fixedN : FixedN} {text content : Bytes} (hex : HexText text content) (exact : content.length = fixedN.1) :
      Argument (.bytesN fixedN) (.string (lit "hex://" ++ text)) (.bytes content)
  | address {account : Bytes} (exact : account.length = 20) :
      Argument .address (.string (addressText account)) (.bytes account)
  | list {element : Param} {jsons : List Json} {xs : List Value} (count : jsons.length = xs.length)
      (each : ∀ p ∈ jsons.zip xs, Argument element p.1 p.2) : Argument (.list element) (.array jsons) (.seq xs)
  | fixed {element : Param} {dimension : Dimension} {jsons : List Json} {xs : List Value}
      (full : jsons.length = dimension.1) (count : jsons.length = xs.length)
      (each : ∀ p ∈ jsons.zip xs, Argument element p.1 p.2) :
      Argument (.fixed element dimension) (.array jsons) (.seq xs)
  | tuple {components : List (Bytes × Param)} {jsons : List Json} {xs : List Value}
      (types : components.length = jsons.length) (count : jsons.length = xs.length)
      (each : ∀ p ∈ components.zip (jsons.zip xs), Argument p.1.2 p.2.1 p.2.2) :
      Argument (.tuple components) (.array jsons) (.seq xs)

mutual
/-- The canonical JSON of a value: numbers as decimal texts, bytes as hexadecimal ones. -/
def canonical : Ty → Value → Json
  | .bool, .bool b => .boolean b
  | .uint _, .nat n => .string (stdToString n)
  | .int _, .int i => .string (intText i)
  | .bytesN _, .bytes content => .string (lit "hex://" ++ toHex content)
  | .address, .bytes account => .string (addressText account)
  | .string, .bytes text => .string text
  | .bytes, .bytes content => .string (lit "hex://" ++ toHex content)
  | .list t, .seq xs => .array (canonicals (List.replicate xs.length t) xs)
  | .fixed t count, .seq xs => .array (canonicals (List.replicate count t) xs)
  | .tuple ts, .seq xs => .array (canonicals ts xs)
  | _, _ => .null
/-- The canonical JSON of components. -/
def canonicals : List Ty → List Value → List Json
  | t :: ts, x :: xs => canonical t x :: canonicals ts xs
  | _, _ => []
end

mutual
/-- Tuples have components. -/
def Supported : Param → Prop
  | .tuple components => components ≠ [] ∧ AllSupported components
  | .list element => Supported element
  | .fixed element _ => Supported element
  | _ => True
/-- The components are supported. -/
def AllSupported : List (Bytes × Param) → Prop
  | [] => True
  | (_,t) :: rest => Supported t ∧ AllSupported rest
end

mutual
/-- No `bytesN` is part of the type. -/
def Bytesless : Param → Prop
  | .bytesN _ => False
  | .tuple components => AllBytesless components
  | .list element => Bytesless element
  | .fixed element _ => Bytesless element
  | _ => True
/-- No `bytesN` is part of the components. -/
def AllBytesless : List (Bytes × Param) → Prop
  | [] => True
  | (_,t) :: rest => Bytesless t ∧ AllBytesless rest
end

/-- The members of a sequence. -/
def membersOf : Value → List Value
  | .seq xs => xs
  | _ => []

mutual
/-- No list that has elements holds a `bytesN`. -/
def Cloneable : Param → Value → Prop
  | .list element, x => membersOf x = [] ∨ Bytesless element
  | .fixed element _, x => ∀ y ∈ membersOf x, Cloneable element y
  | .tuple components, x => AllCloneable components (membersOf x)
  | _, _ => True
/-- The components are cloneable. -/
def AllCloneable : List (Bytes × Param) → List Value → Prop
  | (_,t) :: rest, x :: xs => Cloneable t x ∧ AllCloneable rest xs
  | _, _ => True
end

/-! ### Trees -/

section
variable {indeterminate : Bool}

/-- The tree of a type is exact when no `bytesN` is part of it. -/
theorem exact_tree (t : Param) : ∀ name, ContractABIType.Exact (t.tree indeterminate name) ↔ Bytesless t := by
  induction t using Param.induct with
  | bytesN fixedN =>
    intro name
    refine iff_of_false (fun empty => ?_) id
    have size : 0 = fixedN.1 := empty
    exact Nat.ne_of_lt fixedN.2.1 size
  | list element ih =>
    intro name
    rw [Param.tree,ContractABIType.Exact,allExact_iff,List.forall_mem_singleton,ih,Bytesless]
  | fixed element dimension ih =>
    intro name
    rw [Param.tree,ContractABIType.Exact,allExact_iff,Bytesless,← ih name]
    constructor
    · exact fun all => all _ (List.mem_replicate.mpr ⟨Nat.ne_of_gt dimension.2,rfl⟩)
    · intro exact' v member
      rw [List.eq_of_mem_replicate member]
      exact exact'
  | tuple components ih =>
    intro name
    rw [Param.tree,ContractABIType.Exact,Bytesless]
    clear name
    induction components with
    | nil => exact Iff.rfl
    | cons c rest more =>
      obtain ⟨here,later⟩ := List.forall_mem_cons.mp ih
      rw [trees,AllExact,AllBytesless,here,more later]
  | _ => exact fun _ => iff_of_true trivial trivial

end

/-! ### Texts -/

section
variable {C : ContractABICodec} {name : Bytes} {json : Json}

private theorem intText_natCast (n : Nat) : intText n = stdToString n := by
  rw [intText,if_neg (by omega),Int.natAbs_natCast]

private theorem spells_converts (documented : C.J.Documented) {i : Int} (spelled : Spells json i) :
    C.J.isConvertibleTo json .stringValue = true := by
  rcases spelled with number | rfl
  · exact (documented.number_string json i number).1
  · exact (documented.string_reads _).1
private theorem unsignedArgument_spelled (documented : C.J.Documented) (decimals : C.M.Documented) {n : Nat} (spelled : Spells json n)
    (range : n < 2 ^ 256) : unsignedArgument C json = .ok (BitVec.ofNat 256 n) := by
  rcases spelled with number | rfl
  · simpa using (unsignedArgument_number documented decimals number).1 (Int.natCast_nonneg n)
  · have unsigned : isUnsigned (stdToString n) = true := by
      rw [isUnsigned_iff,trim_decimal (stdToString_decimal n)]
      exact stdToString_decimal n
    rw [intText_natCast,unsignedArgument,(documented.string_noNumber _).2,if_neg Bool.false_ne_true,
      (documented.string_reads _).2,ok_bind,if_pos unsigned]
    exact decimals.u256_reads n range
private theorem signedArgument_spelled (documented : C.J.Documented) (decimals : C.M.Documented) {i : Int} (spelled : Spells json i)
    (range : i.natAbs < 2 ^ 256) : signedArgument C json = .ok i := by
  rcases spelled with number | rfl
  · exact signedArgument_number documented decimals number
  · have signed : isSigned (intText i) = true := by
      rw [intText_withSign]
      exact isSigned_withSign (stdToString_decimal _)
    rw [signedArgument,(documented.string_noNumber _).1,if_neg Bool.false_ne_true,(documented.string_reads _).2,ok_bind,
      if_pos signed]
    exact decimals.s256_reads i range

private theorem fill_uint (documented : C.J.Documented) (decimals : C.M.Documented) {extent : Extent} {u : U256} {n : Nat}
    (spelled : Spells json n) (range : n < 2 ^ 256) :
    initAbstractType C (.uint name extent u) json = .ok (.uint name extent (BitVec.ofNat 256 n)) := by
  rw [initAbstractType]
  refine (checked_read (.inr (spells_converts documented spelled))).trans ?_
  rw [unsignedArgument_spelled documented decimals spelled range]
  rfl
private theorem fill_int (documented : C.J.Documented) (decimals : C.M.Documented) {extent : Extent} {j i : Int}
    (spelled : Spells json i) (range : i.natAbs < 2 ^ 256) :
    initAbstractType C (.int name extent j) json = .ok (.int name extent i) := by
  rw [initAbstractType]
  refine (checked_read (.inr (spells_converts documented spelled))).trans ?_
  rw [signedArgument_spelled documented decimals spelled range]
  rfl

private theorem decodeBytes_hex (hex : ReadsHex C.U) {text content : Bytes} (spelled : HexText text content) :
    decodeBytesFromString C (lit "hex://" ++ text) = .ok content := by
  have starts : startsWith (lit "hex://" ++ text) (lit "hex://") = true :=
    List.isPrefixOf_iff_prefix.mpr (List.prefix_append _ _)
  rw [decodeBytesFromString,if_pos starts,List.drop_left,hex text content spelled]
  rfl
/-- A text that is checked and read. -/
theorem checked_text (documented : C.J.Documented) {text : Bytes} (next : Bytes → Call AbstractType) :
    (do
      jsonTypeMatchCheck C name (.string text) [.stringValue]
      next (← C.J.asString (.string text))) = next text := by
  rw [jsonTypeMatchCheck_ok List.mem_cons_self (documented.string_reads text).1,(documented.string_reads text).2]
  rfl

end

/-! ### Loops -/

section
variable {C : ContractABICodec} {name : Bytes}

/-- The loop fills the members with what each of them is filled with. -/
theorem initEach_rows {inits : List Initializer} {jsons : List Json} (count : inits.length = jsons.length)
    {members : List AbstractType} :
    initEach inits jsons = .ok members ↔ Rows (fun init json tv => init json = .ok tv) inits jsons members := by
  induction inits generalizing jsons members with
  | nil =>
    obtain rfl := List.length_eq_zero_iff.mp count.symm
    rw [initEach]
    constructor
    · rintro ⟨⟩
      exact .nil
    · rintro ⟨⟩
      rfl
  | cons init later ih =>
    cases jsons with
    | nil => cases count
    | cons json rest =>
      rw [initEach]
      constructor
      · intro filled
        obtain ⟨tv,one,filled⟩ := bind_ok.mp filled
        obtain ⟨others,all,⟨⟩⟩ := bind_ok.mp filled
        exact .cons one ((ih (Nat.succ.inj count)).mp all)
      · rintro (_ | ⟨one,all⟩)
        rw [one,ok_bind,(ih (Nat.succ.inj count)).mpr all]
        rfl

/-- The loop fills members that are in a relation with what each is filled from. -/
theorem fill_each {γ : Type} {D : AbstractType → γ → Prop} {inits : List Initializer} {jsons : List Json} {cs : List γ}
    (rows : Rows (fun init json c => ∃ tv, init json = .ok tv ∧ D tv c) inits jsons cs) :
    ∃ members, initEach inits jsons = .ok members ∧ List.Forall₂ D members cs := by
  induction rows with
  | nil => exact ⟨[],rfl,.nil⟩
  | cons here later ih =>
    obtain ⟨tv,one,related⟩ := here
    obtain ⟨members,all,others⟩ := ih
    exact ⟨tv :: members,by rw [initEach,one,ok_bind,all]; rfl,.cons related others⟩

/-- How an element of a list is filled. -/
def fillElement (C : ContractABICodec) (template : AbstractType) : Initializer := fun json => do
  let _ ← clone template
  initAbstractType C template json

theorem initList_eq (documented : C.J.Documented) (template : AbstractType) (jsons : List Json) :
    initAbstractType C (.dynamicList name [template]) (.array jsons) = (do
      .ok (.dynamicList name (← initEach (jsons.map (fun _ => fillElement C template)) jsons))) := by
  have counted : assert C.ndebug "dynamicList.value().size() == 1" (([template] : List AbstractType).length == 1) = .ok () := by
    exact if_pos (Bool.or_true _)
  rw [initAbstractType]
  beta_reduce
  rw [jsonTypeMatchCheck_ok List.mem_cons_self (documented.array_array jsons),counted]
  rfl
theorem initFixed_eq (documented : C.J.Documented) {dimension : UInt32} {value : List AbstractType} {jsons : List Json}
    (full : value.length = dimension.toNat) (count : jsons.length = dimension.toNat) :
    initAbstractType C (.fixedList name dimension value) (.array jsons) = (do
      .ok (.fixedList name dimension (← initEach (initializers C value) jsons))) := by
  rw [initAbstractType]
  beta_reduce
  rw [jsonTypeMatchCheck_ok List.mem_cons_self (documented.array_array jsons),ok_bind]
  refine (if_neg (not_not.mpr count)).trans ?_
  show (initEach (initializers C value) jsons >>= _) = _
  cases filled : initEach (initializers C value) jsons with
  | error failure => rfl
  | ok members =>
    have sizes : (initializers C value).length = jsons.length := by
      rw [TupleArguments.initializers_eq,List.length_map,full,count]
    have filledAll := ((initEach_rows sizes).mp filled).lengths
    have rest : value.drop members.length = [] := List.drop_eq_nil_of_le (by omega)
    rw [ok_bind,ok_bind,rest,List.append_nil]
private theorem initStruct_eq (documented : C.J.Documented) {value : List AbstractType} {jsons : List Json}
    (count : value.length = jsons.length) :
    initAbstractType C (.struct name value) (.array jsons) = (do
      .ok (.struct name (← initEach (initializers C value) jsons))) := by
  rw [initAbstractType]
  beta_reduce
  rw [jsonTypeMatchCheck_ok List.mem_cons_self (documented.array_array jsons),ok_bind]
  exact if_neg (not_not.mpr count)

end

/-! ### Filling -/

mutual
/-- Sequences have fewer than `limit` members. -/
def Brief (limit : Nat) : Value → Prop
  | .seq xs => xs.length < limit ∧ AllBrief limit xs
  | _ => True
/-- The values are brief. -/
def AllBrief (limit : Nat) : List Value → Prop
  | [] => True
  | x :: xs => Brief limit x ∧ AllBrief limit xs
end

theorem allBrief_iff {limit : Nat} {xs : List Value} : AllBrief limit xs ↔ ∀ x ∈ xs, Brief limit x := by
  induction xs with
  | nil => simp [AllBrief]
  | cons x rest ih => rw [AllBrief,ih,List.forall_mem_cons]

theorem bytesless_cloneable {t : Param} : Bytesless t → ∀ x, Cloneable t x := by
  induction t using Param.induct with
  | list element ih => exact fun bytesless x => .inr bytesless
  | fixed element dimension ih => exact fun bytesless x y _ => ih bytesless y
  | tuple components ih =>
    intro bytesless x
    rw [Cloneable]
    rw [Bytesless] at bytesless
    generalize membersOf x = xs
    induction components generalizing xs with
    | nil => trivial
    | cons c rest more =>
      obtain ⟨here,later⟩ := List.forall_mem_cons.mp ih
      cases xs with
      | nil => trivial
      | cons y ys => exact ⟨here bytesless.1 y,more later bytesless.2 ys⟩
  | _ => exact fun _ _ => trivial

theorem uint_range {extent : Extent} {n : Nat} (range : n < 2 ^ extent.1) : n < 2 ^ 256 :=
  Nat.lt_of_lt_of_le range (Nat.pow_le_pow_right (by decide) extent.2.2.1)
theorem int_range {extent : Extent} {i : Int} (low : -2 ^ (extent.1 - 1) ≤ i) (high : i < 2 ^ (extent.1 - 1)) :
    -2 ^ 255 ≤ i ∧ i < 2 ^ 255 := by
  have bits := extent.2.2.1
  have less : (2 : Int) ^ (extent.1 - 1) ≤ 2 ^ 255 := pow_le_pow_right₀ (by decide) (by omega)
  omega

/-- Rows of which the first entry is the same. -/
theorem rows_constant {α β γ : Type} {P : α → β → γ → Prop} {a : α} {bs : List β} {cs : List γ}
    (pairs : List.Forall₂ (P a) bs cs) : Rows P (bs.map (fun _ => a)) bs cs := by
  induction pairs with
  | nil => exact .nil
  | cons here later ih => exact .cons here ih

private theorem trees_length (indeterminate : Bool) (components : List (Bytes × Param)) :
    (trees indeterminate components).length = components.length := by
  induction components with
  | nil => rfl
  | cons c rest ih => rw [trees,List.length_cons,List.length_cons,ih]
/-- The trees of components are filled where each of them is. -/
theorem fill_components {C : ContractABICodec} {limit : Nat} {components : List (Bytes × Param)} {jsons : List Json} {xs : List Value}
    (rows : Rows (fun c json x => c.2.Buildable → Cloneable c.2 x → Brief limit x → ∀ name,
      ∃ tv, initAbstractType C (c.2.tree C.indeterminate name) json = .ok tv ∧ Denotes limit tv c.2.ty x) components jsons xs)
    (buildable : AllBuildable components) (cloneable : AllCloneable components xs) (brief : ∀ x ∈ xs, Brief limit x) :
    ∃ members, initEach (initializers C (trees C.indeterminate components)) jsons = .ok members ∧
      Rows (Denotes limit) members (tys components) xs := by
  induction rows with
  | nil => exact ⟨[],rfl,.nil⟩
  | @cons c json x rest jsons xs here later ih =>
    obtain ⟨name,t⟩ := c
    obtain ⟨short,others⟩ := List.forall_mem_cons.mp brief
    obtain ⟨tv,one,denotes⟩ := here buildable.1 cloneable.1 short name
    obtain ⟨members,all,related⟩ := ih buildable.2 cloneable.2 others
    refine ⟨tv :: members,?_,.cons denotes related⟩
    rw [trees,initializers,initEach,one,ok_bind,all]
    rfl

section
variable {C : ContractABICodec} (documented : C.J.Documented) (decimals : C.M.Documented) (hex : ReadsHex C.U)
include documented decimals hex

/-- The tree of a type is filled with an argument, and stands for its value. -/
theorem fill_cloneable {limit : Nat} {t : Param} {json : Json} {x : Value} (argument : Argument t json x) :
    t.Buildable → Cloneable t x → Brief limit x → ∀ name,
      ∃ tv, initAbstractType C (t.tree C.indeterminate name) json = .ok tv ∧ Denotes limit tv t.ty x := by
  induction argument with
  | @uint extent json n spelled range =>
    intro _ _ _ name
    have word := uint_range range
    have value : (BitVec.ofNat 256 n).toNat = n := (BitVec.toNat_ofNat n 256).trans (Nat.mod_eq_of_lt word)
    have denotes : Denotes limit (.uint name (extent.getD wholeExtent) (BitVec.ofNat 256 n)) (.uint (extent.getD wholeExtent).1)
        (.nat (BitVec.ofNat 256 n).toNat) := .uint name (extent.getD wholeExtent) (BitVec.ofNat 256 n)
    rw [value] at denotes
    exact ⟨_,fill_uint documented decimals spelled word,denotes⟩
  | @int extent json i spelled low high =>
    intro _ _ _ name
    obtain ⟨low,high⟩ := int_range low high
    exact ⟨_,fill_int documented decimals spelled (by omega),.int name _ low high⟩
  | bool b =>
    intro _ _ _ name
    refine ⟨.boolean name b,?_,.boolean name b⟩
    rw [Param.tree,initAbstractType]
    beta_reduce
    rw [jsonTypeMatchCheck_ok List.mem_cons_self (documented.boolean_reads b).1,(documented.boolean_reads b).2]
    rfl
  | string text =>
    intro _ _ _ name
    exact ⟨.string name text,checked_text documented (fun text => .ok (.string name text)),.string name text⟩
  | @bytes text content spelled =>
    intro _ _ _ name
    refine ⟨.dynamicBytes name content,?_,.dynamicBytes name content⟩
    rw [Param.tree,initAbstractType]
    refine (checked_text documented (fun text => do .ok (.dynamicBytes name (← decodeBytesFromString C text)))).trans ?_
    rw [decodeBytes_hex hex spelled]
    rfl
  | @bytesN fixedN text content spelled exact' =>
    intro _ _ _ name
    refine ⟨.fixedBytes name fixedN content,?_,.fixedBytes name exact'⟩
    rw [Param.tree,initAbstractType]
    refine (checked_text documented (fun text => do setFixedBytes name fixedN (← decodeBytesFromString C text))).trans ?_
    rw [decodeBytes_hex hex spelled,ok_bind,setFixedBytes,if_pos exact']
  | @address account exact' =>
    intro _ _ _ name
    exact ⟨.addr name (addressText account),checked_text documented (fun text => .ok (.addr name text)),.addr name exact'⟩
  | @list element jsons xs count each ih =>
    intro buildable cloneable brief name
    have elements : ∀ p ∈ jsons.zip xs, ∃ tv, fillElement C (element.tree C.indeterminate name) p.1 = .ok tv ∧
        Denotes limit tv element.ty p.2 := by
      intro p member
      have listed := (List.of_mem_zip member).2
      have bytesless : Bytesless element := cloneable.resolve_left (List.ne_nil_of_mem listed)
      obtain ⟨tv,filled,denotes⟩ := ih p member buildable (bytesless_cloneable bytesless p.2)
        (allBrief_iff.mp brief.2 p.2 listed) name
      exact ⟨tv,by rw [fillElement,clone_eq ((exact_tree element name).mpr bytesless),ok_bind,filled],denotes⟩
    have rows : Rows (fun init json x => ∃ tv, init json = .ok tv ∧ Denotes limit tv element.ty x)
        (jsons.map (fun _ => fillElement C (element.tree C.indeterminate name))) jsons xs :=
      rows_constant (pairwise_of_zip count elements)
    obtain ⟨members,all,related⟩ := fill_each rows
    have size := related.length_eq
    refine ⟨.dynamicList name members,?_,.dynamicList name size (size ▸ brief.1) (zip_of_pairwise related)⟩
    rw [Param.tree,initList_eq documented,all]
    rfl
  | @fixed element dimension jsons xs full count each ih =>
    intro buildable cloneable brief name
    obtain ⟨buildable,small,_⟩ := buildable
    have dimensioned : (UInt32.ofNat dimension.1).toNat = dimension.1 := by rw [UInt32.toNat_ofNat']; omega
    have members : ∀ p ∈ jsons.zip xs, ∃ tv, initAbstractType C (element.tree C.indeterminate name) p.1 = .ok tv ∧
        Denotes limit tv element.ty p.2 := by
      intro p member
      have listed := (List.of_mem_zip member).2
      exact ih p member buildable (cloneable p.2 listed) (allBrief_iff.mp brief.2 p.2 listed) name
    have rows : Rows (fun init json x => ∃ tv, init json = .ok tv ∧ Denotes limit tv element.ty x)
        (jsons.map (fun _ => initAbstractType C (element.tree C.indeterminate name))) jsons xs :=
      rows_constant (pairwise_of_zip count members)
    obtain ⟨tvs,all,related⟩ := fill_each rows
    have size := related.length_eq
    have inits : initializers C (List.replicate dimension.1 (element.tree C.indeterminate name)) =
        jsons.map (fun _ => initAbstractType C (element.tree C.indeterminate name)) := by
      rw [TupleArguments.initializers_eq,List.map_replicate,List.map_const',full]
    have denotes : Denotes limit (.fixedList name (UInt32.ofNat dimension.1) tvs) (.fixed element.ty (UInt32.ofNat dimension.1).toNat)
        (.seq xs) := .fixedList name (by omega) (by rw [dimensioned]; exact dimension.2) size (zip_of_pairwise related)
    rw [dimensioned] at denotes
    refine ⟨_,?_,denotes⟩
    rw [Param.tree,initFixed_eq documented (by rw [List.length_replicate,dimensioned]) (by rw [dimensioned,full]),inits,all]
    rfl
  | @tuple components jsons xs types count each ih =>
    intro buildable cloneable brief name
    rw [Param.Buildable] at buildable
    rw [Cloneable] at cloneable
    have rows : Rows (fun c json x => c.2.Buildable → Cloneable c.2 x → Brief limit x → ∀ name,
        ∃ tv, initAbstractType C (c.2.tree C.indeterminate name) json = .ok tv ∧ Denotes limit tv c.2.ty x)
        components jsons xs := rows_of_zip types count ih
    obtain ⟨members,all,related⟩ := fill_components rows buildable cloneable (allBrief_iff.mp brief.2)
    refine ⟨.struct name members,?_,.struct name related.lengths.1 related.lengths.2 (zip_of_rows related)⟩
    rw [Param.tree,initStruct_eq documented (by rw [trees_length,types]),all]
    rfl

end

/-- Every element is filled in. -/
theorem filled_each {init : Initializer} {jsons : List Json} {members : List AbstractType}
    (filled : initEach (jsons.map (fun _ => init)) jsons = .ok members) : ∀ json ∈ jsons, ∃ tv, init json = .ok tv := by
  induction jsons generalizing members with
  | nil => simp
  | cons json rest ih =>
    rw [List.map_cons,initEach] at filled
    obtain ⟨tv,one,filled⟩ := bind_ok.mp filled
    obtain ⟨others,all,_⟩ := bind_ok.mp filled
    exact List.forall_mem_cons.mpr ⟨⟨tv,one⟩,ih all⟩
private theorem cloneable_components {C : ContractABICodec} {components : List (Bytes × Param)} {jsons : List Json} {xs : List Value}
    (rows : Rows (fun c json x => c.2.Buildable → ∀ name tv, initAbstractType C (c.2.tree C.indeterminate name) json = .ok tv →
      Cloneable c.2 x) components jsons xs) (buildable : AllBuildable components) {members : List AbstractType}
    (filled : initEach (initializers C (trees C.indeterminate components)) jsons = .ok members) : AllCloneable components xs := by
  induction rows generalizing members with
  | nil => trivial
  | @cons c json x rest jsons xs here later ih =>
    obtain ⟨name,t⟩ := c
    rw [trees,initializers,initEach] at filled
    obtain ⟨tv,one,filled⟩ := bind_ok.mp filled
    obtain ⟨others,all,_⟩ := bind_ok.mp filled
    exact ⟨here buildable.1 name tv one,ih buildable.2 all⟩

section
variable {C : ContractABICodec} (documented : C.J.Documented)
include documented

/-- Only arguments whose lists can be cloned are filled in. -/
theorem cloneable_of_fill {t : Param} {json : Json} {x : Value} (argument : Argument t json x) :
    t.Buildable → ∀ name tv, initAbstractType C (t.tree C.indeterminate name) json = .ok tv → Cloneable t x := by
  induction argument with
  | @list element jsons xs count each ih =>
    intro buildable name tv filled
    by_cases none : xs = []
    · exact .inl none
    · rw [Param.tree,initList_eq documented] at filled
      obtain ⟨members,all,_⟩ := bind_ok.mp filled
      obtain ⟨json,listed⟩ := List.exists_mem_of_length_pos (count ▸ List.length_pos_iff.mpr none : 0 < jsons.length)
      obtain ⟨member,one⟩ := filled_each all json listed
      obtain ⟨copy,cloned,_⟩ := bind_ok.mp one
      exact .inr ((exact_tree element name).mp (exact_of_clone cloned))
  | @fixed element dimension jsons xs full count each ih =>
    rintro ⟨buildable,small,_⟩ name tv filled
    have dimensioned : (UInt32.ofNat dimension.1).toNat = dimension.1 := by rw [UInt32.toNat_ofNat']; omega
    rw [Param.tree,initFixed_eq documented (by rw [List.length_replicate,dimensioned]) (by rw [dimensioned,full])] at filled
    obtain ⟨members,all,_⟩ := bind_ok.mp filled
    rw [TupleArguments.initializers_eq,List.map_replicate,← full,← List.map_const'] at all
    have members : ∀ p ∈ jsons.zip xs, Cloneable element p.2 := by
      intro p member
      obtain ⟨tv,one⟩ := filled_each all p.1 (List.of_mem_zip member).1
      exact ih p member buildable name tv one
    rw [Cloneable]
    exact zip_right count members
  | @tuple components jsons xs types count each ih =>
    intro buildable name tv filled
    rw [Param.Buildable] at buildable
    rw [Param.tree,initStruct_eq documented (by rw [trees_length,types])] at filled
    obtain ⟨members,all,_⟩ := bind_ok.mp filled
    have rows : Rows (fun c json x => c.2.Buildable → ∀ name tv,
        initAbstractType C (c.2.tree C.indeterminate name) json = .ok tv → Cloneable c.2 x) components jsons xs :=
      rows_of_zip types count ih
    rw [Cloneable]
    exact cloneable_components rows buildable all
  | _ => exact fun _ _ _ _ => trivial

end

end CppSdk.MethodArguments

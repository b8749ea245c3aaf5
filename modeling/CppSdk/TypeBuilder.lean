import CppSdk.ContractABIDefinitionFactory

/-!
The factory against the types of the ABI. A type is built as its tree exactly when every
dimension fits an `int` and no fixed list of two members or more has another extent
inside (`buildComponent_iff`): the first member takes the extents of its siblings off the
helper that they share.
-/
namespace CppSdk.TypeBuilder
open CppSdk.ByteString CppSdk.Runtime CppSdk.Texts CppSdk.ContractABIType CppSdk.ContractABIDefinitionFactory
open CppSdk.SolidityAbi (Ty zip_of_pairwise)

/-! ### Types and their trees -/

/-- The dimension of `T[k]`. -/
abbrev Dimension := {count : Nat // 0 < count}

/-- The types that the factory knows; the extent of `uint` and of `int` can be left out. -/
inductive Param where
  | uint (extent : Option Extent)
  | int (extent : Option Extent)
  | bool
  | string
  | bytes
  | bytesN (fixedN : FixedN)
  | address
  | tuple (components : List (Bytes × Param))
  | list (element : Param)
  | fixed (element : Param) (dimension : Dimension)

/-- Induction on types with a hypothesis for every component. -/
@[elab_as_elim]
theorem Param.induct {motive : Param → Prop} (uint : ∀ extent, motive (.uint extent)) (int : ∀ extent, motive (.int extent))
    (bool : motive .bool) (string : motive .string) (bytes : motive .bytes) (bytesN : ∀ fixedN, motive (.bytesN fixedN))
    (address : motive .address) (tuple : ∀ components, (∀ c ∈ components, motive c.2) → motive (.tuple components))
    (list : ∀ element, motive element → motive (.list element))
    (fixed : ∀ element dimension, motive element → motive (.fixed element dimension)) (t : Param) : motive t :=
  @Param.rec motive (fun components => ∀ c ∈ components, motive c.2) (fun c => motive c.2) uint int bool string bytes
    bytesN address tuple list fixed (by simp) (fun _ _ here later => List.forall_mem_cons.mpr ⟨here,later⟩)
    (fun _ _ here => here) t

/-- The text of an extent. -/
def extentText : Option Extent → Bytes
  | none => []
  | some extent => stdToString extent.1

/-- The text of a type in an ABI. -/
def Param.text : Param → Bytes
  | .uint extent => lit "uint" ++ extentText extent
  | .int extent => lit "int" ++ extentText extent
  | .bool => lit "bool"
  | .string => lit "string"
  | .bytes => lit "bytes"
  | .bytesN fixedN => lit "bytes" ++ stdToString fixedN.1
  | .address => lit "address"
  | .tuple _ => lit "tuple"
  | .list element => element.text ++ bracket 0
  | .fixed element dimension => element.text ++ bracket dimension.1

mutual
/-- The components beside the text. -/
def Param.components : Param → List NamedType
  | .tuple components => namedTypes components
  | .list element => element.components
  | .fixed element _ => element.components
  | _ => []
/-- The names and the types of components. -/
def namedTypes : List (Bytes × Param) → List NamedType
  | [] => []
  | (name,t) :: rest => .mk name t.text false t.components :: namedTypes rest
end
/-- The type with its name. -/
def Param.named (name : Bytes) (t : Param) : NamedType := .mk name t.text false t.components

private theorem whole_range : 1 ≤ 256 ∧ 256 ≤ 256 ∧ 256 % 8 = 0 := by decide
/-- The extent of `uint` and of `int` without one. -/
def wholeExtent : Extent := ⟨256,whole_range⟩

section
variable (indeterminate : Bool)

mutual
/-- The tree of a type: a list holds one element, a fixed list as many members as its
    dimension says. -/
def Param.tree (name : Bytes) : Param → AbstractType
  | .uint extent => .uint name (extent.getD wholeExtent) 0
  | .int extent => .int name (extent.getD wholeExtent) 0
  | .bool => .boolean name indeterminate
  | .string => .string name []
  | .bytes => .dynamicBytes name []
  | .bytesN fixedN => .fixedBytes name fixedN []
  | .address => .addr name []
  | .tuple components => .struct name (trees components)
  | .list element => .dynamicList name [element.tree name]
  | .fixed element dimension =>
    .fixedList name (UInt32.ofNat dimension.1) (List.replicate dimension.1 (element.tree name))
/-- The trees of components. -/
def trees : List (Bytes × Param) → List AbstractType
  | [] => []
  | (name,t) :: rest => t.tree name :: trees rest
end

end

/-- The type ends in an extent. -/
def Param.HasExtent : Param → Prop
  | .list _ => True
  | .fixed _ _ => True
  | _ => False

mutual
/-- Every dimension fits an `int`, and a fixed list of two members or more has no extent
    inside. -/
def Param.Buildable : Param → Prop
  | .tuple components => AllBuildable components
  | .list element => element.Buildable
  | .fixed element dimension =>
    element.Buildable ∧ dimension.1 < 2147483648 ∧ (dimension.1 = 1 ∨ ¬ element.HasExtent)
  | _ => True
/-- The components are buildable. -/
def AllBuildable : List (Bytes × Param) → Prop
  | [] => True
  | (_,t) :: rest => t.Buildable ∧ AllBuildable rest
end

/-! ### Base types and extents -/

/-- The base type, or the tuple, without the extents. -/
def Param.base : Param → Param
  | .list element => element.base
  | .fixed element _ => element.base
  | t => t
/-- The extents, the last one first. -/
def Param.extents : Param → List Nat
  | .list element => 0 :: element.extents
  | .fixed element dimension => dimension.1 :: element.extents
  | _ => []

private theorem text_eq (t : Param) : t.text = t.base.text ++ t.extents.reverse.flatMap bracket := by
  induction t using Param.induct with
  | list element ih => simp [Param.text,Param.base,Param.extents,ih]
  | fixed element dimension ih => simp [Param.text,Param.base,Param.extents,ih]
  | _ => simp [Param.base,Param.extents]
theorem components_base (t : Param) : t.components = t.base.components := by
  induction t using Param.induct with
  | list element ih => rw [Param.components,Param.base,ih]
  | fixed element dimension ih => rw [Param.components,Param.base,ih]
  | _ => rfl
theorem base_hasExtent (t : Param) : ¬ t.base.HasExtent := by
  induction t using Param.induct with
  | list element ih => exact ih
  | fixed element dimension ih => exact ih
  | _ => exact id

/-- The characters of the names of base types, and digits. -/
def Plain (text : Bytes) : Prop := ∀ c ∈ text, isSpace c = false ∧ c ≠ 91

private theorem plain_digits {digits : Bytes} (all : ∀ c ∈ digits, isDigit c = true) : Plain digits := by
  intro c member
  refine ⟨isSpace_of_isDigit (all c member),?_⟩
  rintro rfl
  cases all 91 member
private theorem plain_append {front back : Bytes} (left : Plain front) (right : Plain back) : Plain (front ++ back) := by
  intro c member
  rcases List.mem_append.mp member with before | after
  · exact left c before
  · exact right c after
private theorem plain_extentText (extent : Option Extent) : Plain (extentText extent) := by
  cases extent with
  | none => exact fun c member => nomatch member
  | some extent => exact plain_digits (stdToString_decimal extent.1).digits

theorem base_plain (t : Param) : Plain t.base.text := by
  have name : ∀ text : Bytes, text.all (fun c => !isSpace c && c != 91) = true → Plain text := by
    intro text all c member
    simpa using List.all_eq_true.mp all c member
  induction t using Param.induct with
  | uint extent => exact plain_append (name _ (by decide)) (plain_extentText extent)
  | int extent => exact plain_append (name _ (by decide)) (plain_extentText extent)
  | bytesN fixedN => exact plain_append (name _ (by decide)) (plain_digits (stdToString_decimal fixedN.1).digits)
  | list element ih => exact ih
  | fixed element dimension ih => exact ih
  | tuple components => exact name (lit "tuple") (by decide)
  | _ => exact name _ (by decide)
theorem text_ne_nil (t : Param) : t.text ≠ [] := by
  induction t using Param.induct with
  | list element ih => simp [Param.text,ih]
  | fixed element dimension ih => simp [Param.text,ih]
  | _ => simp [Param.text,lit]
/-- Extents begin with a bracket. -/
theorem brackets_split {text : Bytes} (plain : Plain text) (extents : List Nat) :
    (text ++ extents.flatMap bracket).takeWhile (fun c => c != 91) = text ∧
      (text ++ extents.flatMap bracket).dropWhile (fun c => c != 91) = extents.flatMap bracket := by
  have front : ∀ c ∈ text, (c != 91) = true := fun c member => by simpa using (plain c member).2
  rw [List.takeWhile_append_of_pos front,List.dropWhile_append_of_pos front]
  cases extents with
  | nil => simp
  | cons extent extents =>
    obtain ⟨digit,same,_,_⟩ := bracket_eq extent
    simp [same]

/-- What the helper makes of the text of a type. -/
theorem reset_text (t : Param) : reset t.text =
    if ∀ extent ∈ t.extents, extent < 2147483648 then .ok ⟨t.base.text,t.extents.reverse⟩
    else throws (lit "invalid type in string format, value: " ++ t.text) := by
  have clean : trim t.text = t.text := by
    refine trim_clean (fun c member => ?_)
    rw [text_eq] at member
    rcases List.mem_append.mp member with base | brackets
    · exact (base_plain t c base).1
    · obtain ⟨extent,_,inside⟩ := List.mem_flatMap.mp brackets
      exact bracket_clean extent c inside
  obtain ⟨name,brackets⟩ := brackets_split (base_plain t) t.extents.reverse
  simp only [reset]
  rw [clean,if_neg (text_ne_nil t),text_eq,name,brackets,extentsOf_brackets _ _ le_rfl]
  simp only [List.mem_reverse]
  split <;> rfl

/-! ### Base types -/

private theorem mem_of_contains {part text : Bytes} (found : contains part text = true) : ∀ c ∈ part, c ∈ text := by
  induction text with
  | nil =>
    rw [contains,List.isEmpty_iff] at found
    simp [found]
  | cons d rest ih =>
    intro c member
    rw [contains,Bool.or_eq_true] at found
    rcases found with here | later
    · exact (List.isPrefixOf_iff_prefix.mp here).subset member
    · exact List.mem_cons_of_mem d (ih later c member)

/-- Of the base types only the tuple has a `p`. -/
theorem isTuple_eq (t : Param) : contains (lit "tuple") t.base.text = match t.base with | .tuple _ => true | _ => false := by
  have other : ∀ {text digits : Bytes}, (112 : UInt8) ∉ text → (∀ c ∈ digits, isDigit c = true) →
      contains (lit "tuple") (text ++ digits) = false := by
    intro text digits absent all
    refine Bool.eq_false_iff.mpr (fun found => ?_)
    rcases List.mem_append.mp (mem_of_contains found 112 (by decide)) with front | back
    · exact absent front
    · cases all 112 back
  have digits : ∀ extent, ∀ c ∈ extentText extent, isDigit c = true := by
    intro extent
    cases extent with
    | none => exact fun c member => nomatch member
    | some extent => exact (stdToString_decimal extent.1).digits
  induction t using Param.induct with
  | uint extent => exact other (by decide) (digits extent)
  | int extent => exact other (by decide) (digits extent)
  | bytesN fixedN => exact other (by decide) (stdToString_decimal fixedN.1).digits
  | list element ih => exact ih
  | fixed element dimension ih => exact ih
  | tuple components => exact (by decide : contains (lit "tuple") (lit "tuple") = true)
  | _ => decide

/-- The extent after the name of a number type. -/
theorem baseExtent_eq (kind : String) (extent : Option Extent) :
    baseExtent kind (lit kind ++ extentText extent) = .ok (extent.getD wholeExtent) := by
  cases extent with
  | none => simp [baseExtent,extentText,verifyExtent,wholeExtent]
  | some extent =>
    have small : extent.1 < 2147483648 := by have := extent.2.2.1; omega
    have longer : (lit kind).length < (lit kind ++ stdToString extent.1).length := by
      have := List.length_pos_iff.mpr (stdToString_decimal extent.1).nonempty
      simp only [List.length_append]
      omega
    simp only [baseExtent,extentText,if_pos longer,List.drop_left,readSize,stoi_stdToString,if_pos small,
      sizeOfInt_natCast small,ok_bind]
    rw [verifyExtent,dif_pos extent.2]
    rfl

/-- What is built for a base type. -/
theorem buildBase_eq (indeterminate : Bool) (name : Bytes) (t : Param) (base : ¬ t.HasExtent)
    (elementary : contains (lit "tuple") t.text = false) :
    ∃ built, buildBaseAbstractType indeterminate t.text = .ok built ∧ setName name built = t.tree indeterminate name := by
  have starts : ∀ text rest : Bytes, startsWith (text ++ rest) text = true := fun text rest =>
    List.isPrefixOf_iff_prefix.mpr (List.prefix_append text rest)
  cases t with
  | list element => exact absurd trivial base
  | fixed element dimension => exact absurd trivial base
  | tuple components =>
    have found : contains (lit "tuple") (lit "tuple") = true := by decide
    rw [Param.text,found] at elementary
    cases elementary
  | uint extent =>
    refine ⟨.uint [] (extent.getD wholeExtent) 0,?_,rfl⟩
    rw [Param.text,buildBaseAbstractType,if_pos (starts _ _),baseExtent_eq]
    rfl
  | int extent =>
    refine ⟨.int [] (extent.getD wholeExtent) 0,?_,rfl⟩
    have noUint : startsWith (lit "int" ++ extentText extent) (lit "uint") = false := rfl
    rw [Param.text,buildBaseAbstractType,noUint,if_neg Bool.false_ne_true,if_pos (starts _ _),baseExtent_eq]
    rfl
  | bytesN fixedN =>
    refine ⟨.fixedBytes [] fixedN [],?_,rfl⟩
    have size : fixedN.1 < 2147483648 := by have := fixedN.2.2; omega
    have noUint : startsWith (lit "bytes" ++ stdToString fixedN.1) (lit "uint") = false := rfl
    have noInt : startsWith (lit "bytes" ++ stdToString fixedN.1) (lit "int") = false := rfl
    have noBool : startsWith (lit "bytes" ++ stdToString fixedN.1) (lit "bool") = false := rfl
    have noString : startsWith (lit "bytes" ++ stdToString fixedN.1) (lit "string") = false := rfl
    have numbered : lit "bytes" ++ stdToString fixedN.1 ≠ lit "bytes" := by
      simpa using (stdToString_decimal fixedN.1).nonempty
    simp only [Param.text,buildBaseAbstractType,noUint,noInt,noBool,noString,Bool.false_eq_true,if_false,numbered,
      starts,if_true,List.drop_left,readSize,stoi_stdToString,if_pos size,sizeOfInt_natCast size,ok_bind]
    rw [verifyFixedN,dif_pos fixedN.2]
    rfl
  | bool => exact ⟨_,rfl,rfl⟩
  | string => exact ⟨_,rfl,rfl⟩
  | bytes => exact ⟨_,rfl,rfl⟩
  | address => exact ⟨_,rfl,rfl⟩

/-! ### Lists -/

variable {indeterminate : Bool}

/-- The tree is that of a list. -/
def IsList : AbstractType → Prop
  | .dynamicList _ _ => True
  | .fixedList _ _ _ => True
  | _ => False

private theorem tree_isList (name : Bytes) (t : Param) : IsList (t.tree indeterminate name) ↔ t.HasExtent := by
  cases t <;> rfl
private theorem tree_base_ne (name : Bytes) {t : Param} (extent : t.HasExtent) :
    t.base.tree indeterminate name ≠ t.tree indeterminate name := by
  intro same
  have list : IsList (t.base.tree indeterminate name) := same ▸ (tree_isList name t).mpr extent
  exact base_hasExtent t ((tree_isList name t.base).mp list)

/-- The condition on the extents alone. -/
def Param.Straight : Param → Prop
  | .list element => element.Straight
  | .fixed element dimension => element.Straight ∧ (dimension.1 = 1 ∨ ¬ element.HasExtent)
  | _ => True

/-- The lists that the factory puts around a base tree are the tree of the type exactly when
    the base tree is that of the base type and the extents are straight. -/
theorem lists_eq_tree (name : Bytes) (base : AbstractType) (t : Param) :
    lists name base t.extents = t.tree indeterminate name ↔ base = t.base.tree indeterminate name ∧ t.Straight := by
  induction t using Param.induct with
  | list element ih =>
    simp only [Param.extents,lists,Param.tree,Param.base,Param.Straight,AbstractType.dynamicList.injEq,List.cons.injEq,
      and_true,true_and,ih]
  | fixed element dimension ih =>
    obtain ⟨count,same⟩ : ∃ count, dimension.1 = count + 1 := ⟨dimension.1 - 1,by have := dimension.2; omega⟩
    simp only [Param.extents,same,lists,Param.tree,Param.base,Param.Straight,AbstractType.fixedList.injEq,true_and,
      List.replicate_succ,List.cons.injEq,ih,List.replicate_inj,true_and,Nat.add_eq_right,and_assoc]
    refine and_congr_right (fun based => and_congr_right (fun _ => ?_))
    constructor
    · rintro (single | same)
      · exact .inl single
      · exact .inr (fun extent => tree_base_ne name extent (based.symm.trans same))
    · rintro (single | bare)
      · exact .inl single
      · refine .inr ?_
        cases element with
        | list _ | fixed _ _ => exact absurd trivial bare
        | _ => exact based
  | _ => simp [Param.extents,lists,Param.base,Param.Straight]

private theorem buildable_iff (t : Param) :
    t.Buildable ↔ t.base.Buildable ∧ (∀ extent ∈ t.extents, extent < 2147483648) ∧ t.Straight := by
  induction t using Param.induct with
  | list element ih => simp [Param.Buildable,Param.base,Param.extents,Param.Straight,ih]
  | fixed element dimension ih =>
    simp only [Param.Buildable,Param.base,Param.extents,Param.Straight,ih,List.forall_mem_cons]
    tauto
  | _ => simp [Param.base,Param.extents,Param.Straight]

/-! ### The factory -/

/-- What the factory builds for the components of the base type. -/
def ComponentsBuilt (indeterminate : Bool) (t : Param) : Prop :=
  ∀ components, t.base = .tuple components →
    (buildComponents indeterminate (namedTypes components) = .ok (trees indeterminate components) ↔ AllBuildable components)

/-- The base tree, before the lists are put around it. -/
def baseCall (indeterminate : Bool) (t : Param) : Call AbstractType :=
  if contains (lit "tuple") t.base.text then do .ok (.struct [] (← buildComponents indeterminate t.components))
  else buildBaseAbstractType indeterminate t.base.text

theorem buildComponent_named (name : Bytes) (t : Param) : buildComponent indeterminate (t.named name) =
    if ∀ extent ∈ t.extents, extent < 2147483648 then do
      .ok (lists name (setName name (← baseCall indeterminate t)) t.extents)
    else throws (lit "invalid type in string format, value: " ++ t.text) := by
  rw [Param.named,buildComponent,reset_text]
  split
  · have enough : t.extents.length ≤ t.extents.reverse.length := by rw [List.length_reverse]
    simp only [ok_bind,NamedTypeHelper.isTuple]
    rw [buildAbstractType_eq _ name t.extents enough]
    show ((baseCall indeterminate t >>= fun b => .ok (lists name (setName name b) t.extents,[])) >>= fun built =>
      .ok built.1) = (baseCall indeterminate t >>= fun b => .ok (lists name (setName name b) t.extents))
    cases baseCall indeterminate t <;> rfl
  · rfl

theorem baseCall_tuple {t : Param} {components : List (Bytes × Param)} (kind : t.base = .tuple components) :
    baseCall indeterminate t = (do .ok (.struct [] (← buildComponents indeterminate (namedTypes components)))) := by
  have tuple := isTuple_eq t
  rw [kind] at tuple
  have same : t.components = namedTypes components := by rw [components_base,kind,Param.components]
  rw [baseCall,kind,if_pos tuple,same]
theorem baseCall_elementary (name : Bytes) {t : Param} (elementary : ∀ components, t.base ≠ .tuple components) :
    ∃ b, baseCall indeterminate t = .ok b ∧ setName name b = t.base.tree indeterminate name := by
  have tuple := isTuple_eq t
  unfold baseCall
  cases kind : t.base with
  | tuple components => exact absurd kind (elementary components)
  | list element => exact absurd (kind ▸ trivial : t.base.HasExtent) (base_hasExtent t)
  | fixed element dimension => exact absurd (kind ▸ trivial : t.base.HasExtent) (base_hasExtent t)
  | _ =>
    rw [kind] at tuple
    rw [if_neg (Bool.eq_false_iff.mp tuple)]
    exact buildBase_eq indeterminate name _ id tuple

/-- The base tree is that of the base type exactly when the components can be built. -/
theorem baseCall_iff (name : Bytes) {t : Param} (built : ComponentsBuilt indeterminate t) :
    (∃ b, baseCall indeterminate t = .ok b ∧ setName name b = t.base.tree indeterminate name) ↔ t.base.Buildable := by
  by_cases tuple : ∃ components, t.base = .tuple components
  · obtain ⟨components,kind⟩ := tuple
    rw [baseCall_tuple kind,kind,Param.Buildable,← built components kind]
    constructor
    · rintro ⟨b,called,named⟩
      obtain ⟨vs,all,⟨⟩⟩ := bind_ok.mp called
      rw [all]
      simpa [setName,Param.tree] using named
    · intro all
      exact ⟨.struct [] (trees indeterminate components),by rw [all]; rfl,rfl⟩
  · have elementary : ∀ components, t.base ≠ .tuple components := fun components kind => tuple ⟨components,kind⟩
    refine iff_of_true (baseCall_elementary name elementary) ?_
    cases kind : t.base with
    | tuple components => exact absurd kind (elementary components)
    | list element => exact absurd (kind ▸ trivial : t.base.HasExtent) (base_hasExtent t)
    | fixed element dimension => exact absurd (kind ▸ trivial : t.base.HasExtent) (base_hasExtent t)
    | _ => trivial

theorem buildComponent_of_components (name : Bytes) {t : Param} (built : ComponentsBuilt indeterminate t) :
    buildComponent indeterminate (t.named name) = .ok (t.tree indeterminate name) ↔ t.Buildable := by
  rw [buildComponent_named,buildable_iff,← baseCall_iff name built]
  split
  · rename_i small
    constructor
    · intro same
      obtain ⟨b,called,listed⟩ := bind_ok.mp same
      obtain ⟨base,straight⟩ := (lists_eq_tree name _ t).mp (Except.ok.inj listed)
      exact ⟨⟨b,called,base⟩,small,straight⟩
    · rintro ⟨⟨b,called,base⟩,_,straight⟩
      rw [called,ok_bind]
      exact congrArg _ ((lists_eq_tree name _ t).mpr ⟨base,straight⟩)
  · rename_i large
    exact iff_of_false (by simp [throws]) (fun all => large all.2.1)

theorem buildComponents_iff {components : List (Bytes × Param)}
    (each : ∀ c ∈ components, ComponentsBuilt indeterminate c.2) :
    buildComponents indeterminate (namedTypes components) = .ok (trees indeterminate components) ↔
      AllBuildable components := by
  induction components with
  | nil => exact iff_of_true rfl trivial
  | cons c rest ih =>
    obtain ⟨name,t⟩ := c
    obtain ⟨here,later⟩ := List.forall_mem_cons.mp each
    rw [namedTypes,trees,AllBuildable,← buildComponent_of_components name here,← ih later,buildComponents,Param.named]
    constructor
    · intro same
      obtain ⟨first,one,more⟩ := bind_ok.mp same
      obtain ⟨others,all,listed⟩ := bind_ok.mp more
      obtain ⟨rfl,rfl⟩ := List.cons.inj (Except.ok.inj listed)
      exact ⟨one,all⟩
    · rintro ⟨one,all⟩
      rw [one,all]
      rfl

theorem componentsBuilt (t : Param) : ComponentsBuilt indeterminate t := by
  induction t using Param.induct with
  | tuple components ih =>
    rintro others ⟨⟩
    exact buildComponents_iff ih
  | list element ih => exact ih
  | fixed element dimension ih => exact ih
  | _ => exact fun components same => nomatch same

/-- The factory builds the tree of a type exactly when the type is buildable. -/
theorem buildComponent_iff (indeterminate : Bool) (name : Bytes) (t : Param) :
    buildComponent indeterminate (t.named name) = .ok (t.tree indeterminate name) ↔ t.Buildable :=
  buildComponent_of_components name (componentsBuilt t)

/-! ### Solidity types -/

mutual
/-- The Solidity type. -/
def Param.ty : Param → Ty
  | .uint extent => .uint (extent.getD wholeExtent).1
  | .int extent => .int (extent.getD wholeExtent).1
  | .bool => .bool
  | .string => .string
  | .bytes => .bytes
  | .bytesN fixedN => .bytesN fixedN.1
  | .address => .address
  | .tuple components => .tuple (tys components)
  | .list element => .list element.ty
  | .fixed element dimension => .fixed element.ty dimension.1
/-- The types of components. -/
def tys : List (Bytes × Param) → List Ty
  | [] => []
  | (_,t) :: rest => t.ty :: tys rest
end

/-- The tree of a type that the factory can build has the type. -/
theorem tree_typed (t : Param) : t.Buildable → ∀ name, HeadType (t.tree indeterminate name) t.ty := by
  induction t using Param.induct with
  | uint extent => exact fun _ name => .uint name _ 0
  | int extent => exact fun _ name => .int name _ 0
  | bool => exact fun _ name => .boolean name indeterminate
  | string => exact fun _ name => .string name []
  | bytes => exact fun _ name => .dynamicBytes name []
  | bytesN fixedN => exact fun _ name => .fixedBytes name fixedN []
  | address => exact fun _ name => .addr name []
  | list element ih => exact fun _ name => .dynamicList name _ _
  | fixed element dimension ih =>
    rintro ⟨buildable,small,_⟩ name
    have full : (UInt32.ofNat dimension.1).toNat = dimension.1 := by rw [UInt32.toNat_ofNat']; omega
    have typed : HeadType ((Param.fixed element dimension).tree indeterminate name)
        (.fixed element.ty (UInt32.ofNat dimension.1).toNat) := by
      refine .fixedList name (by rw [List.length_replicate,full]) (by rw [full]; exact dimension.2) (fun v member => ?_)
      rw [List.eq_of_mem_replicate member]
      exact ih buildable name
    rwa [full] at typed
  | tuple components ih =>
    intro buildable name
    have members : List.Forall₂ HeadType (trees indeterminate components) (tys components) := by
      rw [Param.Buildable] at buildable
      clear name
      induction components with
      | nil => exact .nil
      | cons c rest later =>
        obtain ⟨here,others⟩ := List.forall_mem_cons.mp ih
        exact .cons (here buildable.1 c.1) (later others buildable.2)
    exact .struct name members.length_eq (zip_of_pairwise members)

/-- `uint256[2][2]`. -/
def square : Param := .fixed (.fixed (.uint (some wholeExtent)) ⟨2,by decide⟩) ⟨2,by decide⟩

/-- The second member of `uint256[2][2]` is built as a number. -/
theorem buildComponent_square :
    let number : AbstractType := .uint [] wholeExtent 0
    buildComponent false (square.named []) = .ok (.fixedList [] 2 [.fixedList [] 2 [number,number],number]) ∧
      buildComponent false (square.named []) ≠ .ok (square.tree false []) := by
  refine ⟨rfl,fun same => ?_⟩
  cases same

end CppSdk.TypeBuilder

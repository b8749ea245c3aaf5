import CppSdk.MethodArguments

/-!
Types that the factory builds otherwise. Arguments without an empty array are nested as
deep as their type, and a tree takes none that are nested deeper than itself; a member
that lost its extents is therefore not filled (`buildable_of_fill`).
-/
namespace CppSdk.ArgumentDepths
open CppSdk.ByteString CppSdk.Runtime CppSdk.Texts CppSdk.JsonValues CppSdk.SolidityAbi CppSdk.ContractABIType
open CppSdk.ContractABIDefinitionFactory CppSdk.AbiCodec CppSdk.MethodArguments
open CppSdk.NumericArguments (jsonTypeMatchCheck_throws)
open CppSdk.TypeBuilder (Param Dimension namedTypes AllBuildable baseCall buildComponent_named baseCall_tuple baseCall_elementary
  base_hasExtent components_base)

/-! ### Depths -/

mutual
/-- How deep arrays are nested. -/
def depth : Json → Nat
  | .array elements => 1 + depths elements
  | _ => 0
/-- The greatest depth. -/
def depths : List Json → Nat
  | [] => 0
  | json :: rest => max (depth json) (depths rest)
end
mutual
/-- How deep arrays can be nested that fill the tree. -/
def treeDepth : AbstractType → Nat
  | .dynamicList _ value => 1 + treeDepths value
  | .fixedList _ _ value => 1 + treeDepths value
  | .struct _ value => 1 + treeDepths value
  | _ => 0
/-- The greatest depth. -/
def treeDepths : List AbstractType → Nat
  | [] => 0
  | tv :: rest => max (treeDepth tv) (treeDepths rest)
end
mutual
/-- How deep the arrays of a type are nested. -/
def typeDepth : Param → Nat
  | .tuple components => 1 + typeDepths components
  | .list element => 1 + typeDepth element
  | .fixed element _ => 1 + typeDepth element
  | _ => 0
/-- The greatest depth. -/
def typeDepths : List (Bytes × Param) → Nat
  | [] => 0
  | (_,t) :: rest => max (typeDepth t) (typeDepths rest)
end

mutual
/-- No array in the value is empty. -/
def Full : Json → Prop
  | .array elements => elements ≠ [] ∧ AllFull elements
  | _ => True
/-- The values are full. -/
def AllFull : List Json → Prop
  | [] => True
  | json :: rest => Full json ∧ AllFull rest
end

theorem allFull_iff {jsons : List Json} : AllFull jsons ↔ ∀ json ∈ jsons, Full json := by
  induction jsons with
  | nil => simp [AllFull]
  | cons json rest ih => rw [AllFull,ih,List.forall_mem_cons]
private theorem depth_le_depths {json : Json} {jsons : List Json} (member : json ∈ jsons) : depth json ≤ depths jsons := by
  induction jsons with
  | nil => cases member
  | cons first rest ih =>
    rw [depths]
    rcases List.mem_cons.mp member with rfl | later
    · exact Nat.le_max_left _ _
    · exact Nat.le_trans (ih later) (Nat.le_max_right _ _)
private theorem treeDepths_replicate (count : Nat) (tv : AbstractType) : treeDepths (List.replicate count tv) ≤ treeDepth tv := by
  induction count with
  | zero => exact Nat.zero_le _
  | succ count ih =>
    rw [List.replicate_succ,treeDepths]
    exact Nat.max_le.mpr ⟨Nat.le_refl _,ih⟩
private theorem typeDepth_base (t : Param) : typeDepth t.base ≤ typeDepth t := by
  induction t using Param.induct with
  | list element ih => exact Nat.le_trans ih (Nat.le_add_left _ _)
  | fixed element dimension ih => exact Nat.le_trans ih (Nat.le_add_left _ _)
  | _ => exact Nat.le_refl _
private theorem typeDepth_extent {t : Param} (extent : t.HasExtent) : typeDepth t.base < typeDepth t := by
  cases t with
  | list element => exact Nat.lt_one_add_iff.mpr (typeDepth_base element)
  | fixed element dimension => exact Nat.lt_one_add_iff.mpr (typeDepth_base element)
  | _ => cases extent

/-! ### Full arguments -/

private theorem components_deep {components : List (Bytes × Param)} {jsons : List Json} {xs : List Value}
    (rows : Rows (fun c json _ => Full json → typeDepth c.2 ≤ depth json) components jsons xs) (full : ∀ json ∈ jsons, Full json) :
    typeDepths components ≤ depths jsons := by
  induction rows with
  | nil => exact Nat.le_refl 0
  | @cons c json x rest jsons xs here later ih =>
    obtain ⟨name,t⟩ := c
    obtain ⟨first,others⟩ := List.forall_mem_cons.mp full
    have front : typeDepth t ≤ depth json := here first
    have back := ih others
    rw [typeDepths,depths]
    omega

/-- An argument without an empty array is nested as deep as its type. -/
theorem typeDepth_le_of_full {t : Param} {json : Json} {x : Value} (argument : Argument t json x) :
    Full json → typeDepth t ≤ depth json := by
  have element_deep : ∀ {element : Param} {jsons : List Json} {xs : List Value}, jsons.length = xs.length →
      (∀ p ∈ jsons.zip xs, Full p.1 → typeDepth element ≤ depth p.1) → Full (.array jsons) →
      1 + typeDepth element ≤ depth (.array jsons) := by
    intro element jsons xs count each full
    obtain ⟨some,all⟩ := full
    obtain ⟨json,rest,rfl⟩ := List.exists_cons_of_ne_nil some
    have deep : ∀ other ∈ json :: rest, Full other → typeDepth element ≤ depth other :=
      zip_left (P := fun other => Full other → typeDepth element ≤ depth other) count each
    have first := deep json List.mem_cons_self all.1
    have within := depth_le_depths (List.mem_cons_self : json ∈ json :: rest)
    rw [depth]
    omega
  induction argument with
  | list count each ih => exact element_deep count ih
  | fixed full count each ih => exact element_deep count ih
  | @tuple components jsons xs types count each ih =>
    rintro ⟨_,all⟩
    have rows : Rows (fun c json _ => Full json → typeDepth c.2 ≤ depth json) components jsons xs := rows_of_zip types count ih
    exact Nat.add_le_add_left (components_deep rows (allFull_iff.mp all)) 1
  | _ => exact fun _ => Nat.zero_le _

/-! ### Trees -/

section
variable {C : ContractABICodec}

private theorem initEach_depths {vs : List AbstractType} {jsons : List Json} {members : List AbstractType}
    (each : ∀ v ∈ vs, ∀ json tv, initAbstractType C v json = .ok tv → depth json ≤ treeDepth v)
    (filled : initEach (initializers C vs) jsons = .ok members) : depths jsons ≤ treeDepths vs := by
  induction vs generalizing jsons members with
  | nil =>
    cases jsons with
    | nil => exact Nat.le_refl 0
    | cons json rest => cases filled
  | cons v later ih =>
    cases jsons with
    | nil => exact Nat.zero_le _
    | cons json rest =>
      obtain ⟨here,others⟩ := List.forall_mem_cons.mp each
      rw [initializers,initEach] at filled
      obtain ⟨tv,one,filled⟩ := bind_ok.mp filled
      obtain ⟨tvs,all,_⟩ := bind_ok.mp filled
      have first := here json tv one
      have more := ih others all
      rw [depths,treeDepths]
      omega

private theorem elements_depths {template : AbstractType} {jsons : List Json} {members : List AbstractType}
    (each : ∀ json tv, initAbstractType C template json = .ok tv → depth json ≤ treeDepth template)
    (filled : initEach (jsons.map (fun _ => fillElement C template)) jsons = .ok members) : depths jsons ≤ treeDepth template := by
  have all := filled_each filled
  clear filled
  induction jsons with
  | nil => exact Nat.zero_le _
  | cons json rest ih =>
    obtain ⟨⟨tv,one⟩,later⟩ := List.forall_mem_cons.mp all
    obtain ⟨copy,_,one⟩ := bind_ok.mp one
    exact Nat.max_le.mpr ⟨each json tv one,ih later⟩

variable (documented : C.J.Documented) (noBoolean : ∀ elements, C.J.isConvertibleTo (.array elements) .booleanValue = false)
include documented noBoolean

/-- Members without members of their own take no arrays. -/
theorem array_mismatch {name : Bytes} {elements : List Json} {kinds : List ValueType}
    (plain : ∀ kind ∈ kinds, kind = .booleanValue ∨ kind = .stringValue ∨ kind = .intValue ∨ kind = .uintValue) {u : Unit} :
    jsonTypeMatchCheck C name (.array elements) kinds ≠ .ok u := by
  intro checked
  have never : ∀ kind ∈ kinds, C.J.isConvertibleTo (.array elements) kind = false := by
    intro kind listed
    rcases plain kind listed with rfl | other
    · exact noBoolean elements
    · exact documented.array_other elements kind other
  obtain ⟨what,thrown⟩ := jsonTypeMatchCheck_throws (C := C) name never
  rw [checked] at thrown
  cases thrown

/-- A tree takes no arguments that are nested deeper. -/
theorem depth_le_of_fill (tree : AbstractType) :
    ∀ json tv, initAbstractType C tree json = .ok tv → depth json ≤ treeDepth tree := by
  induction tree using AbstractType.induct with
  | dynamicList name vs ih =>
    intro json tv filled
    cases json with
    | array elements =>
      rw [initAbstractType] at filled
      obtain ⟨_,_,filled⟩ := bind_ok.mp filled
      obtain ⟨_,_,filled⟩ := bind_ok.mp filled
      obtain ⟨items,listed,filled⟩ := bind_ok.mp filled
      obtain rfl : elements = items := Except.ok.inj listed
      cases vs with
      | nil => cases filled
      | cons template rest =>
        obtain ⟨members,all,_⟩ := bind_ok.mp filled
        have deep := elements_depths (ih template List.mem_cons_self) all
        rw [depth,treeDepth,treeDepths]
        omega
    | _ => exact Nat.zero_le _
  | fixedList name dimension vs ih =>
    intro json tv filled
    cases json with
    | array elements =>
      rw [initAbstractType] at filled
      obtain ⟨_,_,filled⟩ := bind_ok.mp filled
      by_cases full : (Json.array elements).size = dimension.toNat
      · obtain ⟨items,listed,filled⟩ := bind_ok.mp ((if_neg (not_not.mpr full)).symm.trans filled)
        obtain rfl : elements = items := Except.ok.inj listed
        obtain ⟨members,all,_⟩ := bind_ok.mp filled
        exact Nat.add_le_add_left (initEach_depths ih all) 1
      · cases (if_pos full).symm.trans filled
    | _ => exact Nat.zero_le _
  | struct name vs ih =>
    intro json tv filled
    cases json with
    | array elements =>
      obtain ⟨_,_,members,all,_⟩ := initAbstractType_array.mp filled
      exact Nat.add_le_add_left (initEach_depths ih all) 1
    | _ => exact Nat.zero_le _
  | _ =>
    intro json tv filled
    cases json with
    | array elements =>
      rw [initAbstractType] at filled
      obtain ⟨_,checked,_⟩ := bind_ok.mp filled
      exact absurd checked (array_mismatch documented noBoolean (by simp))
    | _ => exact Nat.zero_le _

end

/-! ### Trees that are built -/

private theorem base_base (t : Param) : t.base.base = t.base := by
  induction t using Param.induct with
  | list element ih => exact ih
  | fixed element dimension ih => exact ih
  | _ => rfl
private theorem base_extents (t : Param) : t.base.extents = [] := by
  induction t using Param.induct with
  | list element ih => exact ih
  | fixed element dimension ih => exact ih
  | _ => rfl
private theorem base_of_not_hasExtent {t : Param} (bare : ¬ t.HasExtent) : t.base = t := by
  cases t with
  | list element => exact absurd trivial bare
  | fixed element dimension => exact absurd trivial bare
  | _ => rfl

section
variable {indeterminate : Bool} {name : Bytes} {built : AbstractType}

private theorem baseCall_congr {t u : Param} (same : t.base = u.base) : baseCall indeterminate t = baseCall indeterminate u := by
  rw [baseCall,baseCall,components_base t,components_base u,same]
/-- A type that is built, from the base tree. -/
theorem buildComponent_ok {t : Param} : buildComponent indeterminate (t.named name) = .ok built ↔
    (∀ extent ∈ t.extents, extent < 2147483648) ∧
      ∃ b, baseCall indeterminate t = .ok b ∧ built = lists name (setName name b) t.extents := by
  rw [buildComponent_named]
  by_cases small : ∀ extent ∈ t.extents, extent < 2147483648
  · rw [if_pos small]
    constructor
    · intro called
      obtain ⟨b,based,same⟩ := bind_ok.mp called
      exact ⟨small,b,based,(Except.ok.inj same).symm⟩
    · rintro ⟨_,b,based,rfl⟩
      rw [based]
      rfl
  · rw [if_neg small]
    exact iff_of_false (by simp [throws]) (fun all => small all.1)

/-- A list is built around its element. -/
theorem buildComponent_list {element : Param} (called : buildComponent indeterminate ((Param.list element).named name) = .ok built) :
    ∃ inner, buildComponent indeterminate (element.named name) = .ok inner ∧ built = .dynamicList name [inner] := by
  obtain ⟨small,b,based,rfl⟩ := buildComponent_ok.mp called
  rw [baseCall_congr (show (Param.list element).base = element.base from rfl)] at based
  exact ⟨_,buildComponent_ok.mpr ⟨(List.forall_mem_cons.mp small).2,b,based,rfl⟩,rfl⟩
/-- A fixed list is built around its element and, after the first member, the base type. -/
theorem buildComponent_fixed {element : Param} {dimension : Dimension}
    (called : buildComponent indeterminate ((Param.fixed element dimension).named name) = .ok built) :
    dimension.1 < 2147483648 ∧ ∃ inner base, buildComponent indeterminate (element.named name) = .ok inner ∧
      buildComponent indeterminate (element.base.named name) = .ok base ∧
        built = .fixedList name (UInt32.ofNat dimension.1) (inner :: List.replicate (dimension.1 - 1) base) := by
  obtain ⟨small,b,based,rfl⟩ := buildComponent_ok.mp called
  obtain ⟨here,later⟩ := List.forall_mem_cons.mp small
  rw [baseCall_congr (show (Param.fixed element dimension).base = element.base from rfl)] at based
  have bare : baseCall indeterminate element.base = .ok b := (baseCall_congr (base_base element)).trans based
  refine ⟨here,_,setName name b,buildComponent_ok.mpr ⟨later,b,based,rfl⟩,buildComponent_ok.mpr ⟨?_,b,bare,?_⟩,?_⟩
  · rw [base_extents]
    exact List.forall_mem_nil _
  · rw [base_extents]
    rfl
  · obtain ⟨count,same⟩ : ∃ count, dimension.1 = count + 1 := ⟨dimension.1 - 1,by have := dimension.2; omega⟩
    rw [Param.extents,same,lists,Nat.add_sub_cancel]
/-- A tuple is built around its components. -/
theorem buildComponent_tuple {components : List (Bytes × Param)}
    (called : buildComponent indeterminate ((Param.tuple components).named name) = .ok built) :
    ∃ vs, buildComponents indeterminate (namedTypes components) = .ok vs ∧ built = .struct name vs := by
  obtain ⟨_,b,based,rfl⟩ := buildComponent_ok.mp called
  rw [baseCall_tuple (show (Param.tuple components).base = .tuple components from rfl)] at based
  obtain ⟨vs,all,same⟩ := bind_ok.mp based
  obtain rfl := Except.ok.inj same
  exact ⟨vs,all,rfl⟩
/-- Every component is built. -/
theorem buildComponents_cons {t : Param} {rest : List (Bytes × Param)} {vs : List AbstractType}
    (called : buildComponents indeterminate (namedTypes ((name,t) :: rest)) = .ok vs) :
    ∃ v later, buildComponent indeterminate (t.named name) = .ok v ∧
      buildComponents indeterminate (namedTypes rest) = .ok later ∧ vs = v :: later := by
  rw [namedTypes,buildComponents] at called
  obtain ⟨v,one,called⟩ := bind_ok.mp called
  obtain ⟨later,all,same⟩ := bind_ok.mp called
  exact ⟨v,later,one,all,(Except.ok.inj same).symm⟩

/-- What is built for a type is nested as deep as the type at most. -/
theorem treeDepth_le_of_built (t : Param) : ∀ name built, buildComponent indeterminate (t.named name) = .ok built →
    treeDepth built ≤ typeDepth t := by
  -- a fixed list holds trees of its element and of the base type
  suffices both : ∀ u, u = t ∨ u = t.base → ∀ name built, buildComponent indeterminate (u.named name) = .ok built →
      treeDepth built ≤ typeDepth u from both t (.inl rfl)
  have elementary : ∀ {u : Param} {name : Bytes} {built : AbstractType}, ¬ u.HasExtent → (∀ components, u ≠ .tuple components) →
      buildComponent indeterminate (u.named name) = .ok built → treeDepth built ≤ typeDepth u := by
    intro u name built bare plain called
    obtain ⟨_,b,based,rfl⟩ := buildComponent_ok.mp called
    have same := base_of_not_hasExtent bare
    have elementary : ∀ components, u.base ≠ .tuple components := same.symm ▸ plain
    obtain ⟨b',based',named⟩ : ∃ b, baseCall indeterminate u = .ok b ∧ setName name b = u.base.tree indeterminate name :=
      baseCall_elementary name elementary
    obtain rfl := Except.ok.inj (based.symm.trans based')
    have extents : u.extents = [] := same ▸ base_extents u
    rw [extents,lists,named,same]
    cases u with
    | list element => exact absurd trivial bare
    | fixed element dimension => exact absurd trivial bare
    | tuple components => exact absurd rfl (plain components)
    | _ => exact Nat.le_refl 0
  induction t using Param.induct with
  | list element ih =>
    rintro u (rfl | rfl) name built called
    · obtain ⟨inner,one,rfl⟩ := buildComponent_list called
      have deep := ih element (.inl rfl) name inner one
      rw [treeDepth,treeDepths,treeDepths,typeDepth]
      omega
    · exact ih element.base (.inr rfl) name built called
  | fixed element dimension ih =>
    rintro u (rfl | rfl) name built called
    · obtain ⟨_,inner,base,one,bare,rfl⟩ := buildComponent_fixed called
      have deep := ih element (.inl rfl) name inner one
      have shallow := ih element.base (.inr rfl) name base bare
      have less := typeDepth_base element
      have others := treeDepths_replicate (dimension.1 - 1) base
      rw [treeDepth,treeDepths,typeDepth]
      omega
    · exact ih element.base (.inr rfl) name built called
  | tuple components ih =>
    intro u same name built called
    obtain rfl : u = .tuple components := same.elim id id
    obtain ⟨vs,all,rfl⟩ := buildComponent_tuple called
    refine Nat.add_le_add_left ?_ 1
    clear called same
    induction components generalizing vs with
    | nil =>
      obtain rfl := Except.ok.inj all
      exact Nat.le_refl 0
    | cons c rest more =>
      obtain ⟨first,t⟩ := c
      obtain ⟨here,later⟩ := List.forall_mem_cons.mp ih
      obtain ⟨v,others,one,remaining,rfl⟩ := buildComponents_cons all
      have deep := here t (.inl rfl) first v one
      have most := more later others remaining
      rw [treeDepths,typeDepths]
      omega
  | _ =>
    intro u same name built called
    obtain rfl := same.elim id id
    exact elementary id (by simp) called

end

/-! ### Filling what is built -/

section
variable {C : ContractABICodec} (documented : C.J.Documented)
  (noBoolean : ∀ elements, C.J.isConvertibleTo (.array elements) .booleanValue = false)

/-- The type is built as it should be where a full value fills what is built. -/
def BuildableIfFilled (C : ContractABICodec) (t : Param) (json : Json) : Prop :=
  Full json → ∀ name built tv, buildComponent C.indeterminate (t.named name) = .ok built →
    initAbstractType C built json = .ok tv → t.Buildable

theorem buildable_components {components : List (Bytes × Param)} {jsons : List Json} {xs : List Value}
    (rows : Rows (fun c json _ => BuildableIfFilled C c.2 json) components jsons xs) (full : ∀ json ∈ jsons, Full json)
    {vs members : List AbstractType} (called : buildComponents C.indeterminate (namedTypes components) = .ok vs)
    (filled : initEach (initializers C vs) jsons = .ok members) : AllBuildable components := by
  induction rows generalizing vs members with
  | nil => trivial
  | @cons c json x rest jsons xs here later ih =>
    obtain ⟨name,t⟩ := c
    obtain ⟨first,others⟩ := List.forall_mem_cons.mp full
    obtain ⟨v,more,one,remaining,rfl⟩ := buildComponents_cons called
    rw [initializers,initEach] at filled
    obtain ⟨tv,initialized,filled⟩ := bind_ok.mp filled
    obtain ⟨tvs,all,_⟩ := bind_ok.mp filled
    exact ⟨here first name v tv one initialized,ih others remaining all⟩

include documented noBoolean

/-- Only what is built as it should be is filled with an argument without an empty array. -/
theorem buildable_of_fill {t : Param} {json : Json} {x : Value} (argument : Argument t json x) : BuildableIfFilled C t json := by
  induction argument with
  | @list element jsons xs count each ih =>
    rintro ⟨some,all⟩ name built tv called filled
    obtain ⟨inner,one,rfl⟩ := buildComponent_list called
    obtain ⟨json,rest,rfl⟩ := List.exists_cons_of_ne_nil some
    rw [initList_eq documented] at filled
    obtain ⟨members,elements,_⟩ := bind_ok.mp filled
    obtain ⟨tv,element_filled⟩ := filled_each elements json List.mem_cons_self
    obtain ⟨copy,_,initialized⟩ := bind_ok.mp element_filled
    have buildable : ∀ other ∈ json :: rest, BuildableIfFilled C element other := zip_left count ih
    exact buildable json List.mem_cons_self all.1 name inner tv one initialized
  | @fixed element dimension jsons xs exactly count each ih =>
    rintro ⟨some,all⟩ name built tv called filled
    obtain ⟨small,inner,base,one,bare,rfl⟩ := buildComponent_fixed called
    obtain ⟨json,rest,rfl⟩ := List.exists_cons_of_ne_nil some
    have dimensioned : (UInt32.ofNat dimension.1).toNat = dimension.1 := by rw [UInt32.toNat_ofNat']; omega
    have sized : (inner :: List.replicate (dimension.1 - 1) base).length = (UInt32.ofNat dimension.1).toNat := by
      rw [List.length_cons,List.length_replicate,dimensioned,Nat.sub_add_cancel dimension.2]
    rw [initFixed_eq documented sized (by rw [dimensioned,exactly])] at filled
    obtain ⟨members,elements,_⟩ := bind_ok.mp filled
    rw [initializers,initEach] at elements
    obtain ⟨tv,first,elements⟩ := bind_ok.mp elements
    obtain ⟨tvs,later,_⟩ := bind_ok.mp elements
    have buildable : ∀ other ∈ json :: rest, BuildableIfFilled C element other := zip_left count ih
    refine ⟨buildable json List.mem_cons_self all.1 name inner tv one first,small,?_⟩
    by_cases single : dimension.1 = 1
    · exact .inl single
    · refine .inr (fun extent => ?_)
      -- the second member is one of the base type, and its argument is nested deeper
      obtain ⟨more,same⟩ : ∃ more, dimension.1 - 1 = more + 1 := ⟨dimension.1 - 2,by have := dimension.2; omega⟩
      obtain ⟨second,others,rfl⟩ := List.exists_cons_of_ne_nil (show rest ≠ [] by rintro rfl; exact single exactly.symm)
      rw [same,List.replicate_succ,initializers,initEach] at later
      obtain ⟨tv,taken,_⟩ := bind_ok.mp later
      have deep : ∀ other ∈ json :: second :: others, Full other → typeDepth element ≤ depth other :=
        zip_left (P := fun other => Full other → typeDepth element ≤ depth other) count
          (fun p member => typeDepth_le_of_full (each p member))
      have reached := deep second (List.mem_cons_of_mem _ List.mem_cons_self) all.2.1
      have takes := depth_le_of_fill documented noBoolean base second tv taken
      have shallow := treeDepth_le_of_built element.base name base bare
      have less := typeDepth_extent extent
      omega
  | @tuple components jsons xs types count each ih =>
    rintro ⟨_,all⟩ name built tv called filled
    obtain ⟨vs,members_built,rfl⟩ := buildComponent_tuple called
    obtain ⟨_,_,members,elements,_⟩ := initAbstractType_array.mp filled
    have rows : Rows (fun c json _ => BuildableIfFilled C c.2 json) components jsons xs := rows_of_zip types count ih
    exact buildable_components rows (allFull_iff.mp all) members_built elements
  | _ => exact fun _ _ _ _ _ _ => trivial

end

end CppSdk.ArgumentDepths

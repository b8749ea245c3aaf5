import CppSdk.AbiCodec
import CppSdk.TypeBuilder

/-!
Value trees as objects with addresses. `clone()` allocates an object for every node; it
returns a copy exactly when every `FixedBytes` holds as many bytes as it says.
-/
namespace CppSdk.Clones
open CppSdk.ByteString CppSdk.Runtime CppSdk.Tables CppSdk.ContractABIType CppSdk.ContractABIDefinitionFactory
open CppSdk.AbiCodec
open CppSdk.TypeBuilder hiding trees

/-! ### Objects -/

/-- The classes without members. -/
inductive Leaf where
  | boolean (name : Bytes) (value : Bool)
  | uint (name : Bytes) (extent : Extent) (value : U256)
  | int (name : Bytes) (extent : Extent) (value : Int)
  | fixedBytes (name : Bytes) (fixedN : FixedN) (value : Bytes)
  | addr (name : Bytes) (value : Bytes)
  | string (name : Bytes) (value : Bytes)
  | dynamicBytes (name : Bytes) (value : Bytes)

/-- The tree of a leaf. -/
def Leaf.tree : Leaf → AbstractType
  | .boolean name value => .boolean name value
  | .uint name extent value => .uint name extent value
  | .int name extent value => .int name extent value
  | .fixedBytes name fixedN value => .fixedBytes name fixedN value
  | .addr name value => .addr name value
  | .string name value => .string name value
  | .dynamicBytes name value => .dynamicBytes name value

/-- An object at an address. The members of a struct are in `m_value`, and those that have
    names in `m_kvValue` too. -/
inductive Object where
  | leaf (address : Nat) (leaf : Leaf)
  | dynamicList (address : Nat) (name : Bytes) (value : List Object)
  | fixedList (address : Nat) (name : Bytes) (dimension : UInt32) (value : List Object)
  | struct (address : Nat) (name : Bytes) (value : List Object) (kvValue : Table Bytes Nat)

/-- Induction on objects with a hypothesis for every member. -/
@[elab_as_elim]
theorem Object.induct {motive : Object → Prop} (leaf : ∀ address leaf, motive (.leaf address leaf))
    (dynamicList : ∀ address name value, (∀ o ∈ value, motive o) → motive (.dynamicList address name value))
    (fixedList : ∀ address name dimension value, (∀ o ∈ value, motive o) → motive (.fixedList address name dimension value))
    (struct : ∀ address name value kvValue, (∀ o ∈ value, motive o) → motive (.struct address name value kvValue))
    (o : Object) : motive o :=
  @Object.rec motive (fun value => ∀ o ∈ value, motive o) leaf dynamicList fixedList struct (by simp)
    (fun _ _ here later => List.forall_mem_cons.mpr ⟨here,later⟩) o

/-- Where the object is. -/
def Object.address : Object → Nat
  | .leaf address _ => address
  | .dynamicList address _ _ => address
  | .fixedList address _ _ _ => address
  | .struct address _ _ _ => address

mutual
/-- The tree without addresses. -/
def Object.tree : Object → AbstractType
  | .leaf _ leaf => leaf.tree
  | .dynamicList _ name value => .dynamicList name (trees value)
  | .fixedList _ name dimension value => .fixedList name dimension (trees value)
  | .struct _ name value _ => .struct name (trees value)
/-- The trees of the members. -/
def trees : List Object → List AbstractType
  | [] => []
  | o :: rest => o.tree :: trees rest
end

mutual
/-- The object and all objects below it. -/
def Object.nodes : Object → List Object
  | .leaf address leaf => [.leaf address leaf]
  | .dynamicList address name value => .dynamicList address name value :: nodesOf value
  | .fixedList address name dimension value => .fixedList address name dimension value :: nodesOf value
  | .struct address name value kvValue => .struct address name value kvValue :: nodesOf value
/-- The members and all objects below them. -/
def nodesOf : List Object → List Object
  | [] => []
  | o :: rest => o.nodes ++ nodesOf rest
end

mutual
/-- The addresses that the object holds: its own, and those of its members. -/
def Object.references : Object → List Nat
  | .leaf address _ => [address]
  | .dynamicList address _ value => address :: referencesOf value
  | .fixedList address _ _ value => address :: referencesOf value
  | .struct address _ value kvValue => address :: (values kvValue ++ referencesOf value)
/-- The addresses that the members hold. -/
def referencesOf : List Object → List Nat
  | [] => []
  | o :: rest => o.references ++ referencesOf rest
end

/-- `m_kvValue` after `addMember` of the members. -/
def addMembers : List Object → Table Bytes Nat → Table Bytes Nat
  | [], m => m
  | o :: rest, m => addMembers rest (if nameOf o.tree = [] then m else m.insert (nameOf o.tree) o.address)

mutual
/-- The tables of all structs are those that `addMember` makes of their members. -/
def Object.Wired : Object → Prop
  | .leaf _ _ => True
  | .dynamicList _ _ value => AllWired value
  | .fixedList _ _ _ value => AllWired value
  | .struct _ _ value kvValue => kvValue = addMembers value ∅ ∧ AllWired value
/-- The members are wired. -/
def AllWired : List Object → Prop
  | [] => True
  | o :: rest => o.Wired ∧ AllWired rest
end

/-! ### Clones and changes -/

/-- `clone()` of a class without members: the constructor checks what it is given. -/
def Leaf.clone : Leaf → Call Leaf
  | .fixedBytes name fixedN value =>
    if value.length = fixedN.1 then .ok (.fixedBytes name fixedN value)
    else throws (lit "the bytes" ++ stdToString fixedN.1 ++ lit " data length does not match, data length is " ++
      stdToString value.length)
  | leaf => .ok leaf

mutual
/-- `clone()` where `next` is the first free address. -/
def Object.clone : Object → Nat → Call (Object × Nat)
  | .leaf _ leaf, next => do .ok (.leaf next (← leaf.clone),next + 1)
  | .dynamicList _ name value, next => do
    let members ← cloneEach value (next + 1)
    .ok (.dynamicList next name members.1,members.2)
  | .fixedList _ name dimension value, next => do
    let members ← cloneEach value (next + 1)
    .ok (.fixedList next name dimension members.1,members.2)
  | .struct _ name value _, next => do
    let members ← cloneEach value (next + 1)
    .ok (.struct next name members.1 (addMembers members.1 ∅),members.2)
/-- The loop over the members. -/
def cloneEach : List Object → Nat → Call (List Object × Nat)
  | [], next => .ok ([],next)
  | o :: rest, next => do
    let copy ← o.clone next
    let copies ← cloneEach rest copy.2
    .ok (copy.1 :: copies.1,copies.2)
end

mutual
/-- The tree after a change of what is at an address. -/
def Object.write (address : Nat) (change : Object → Object) : Object → Object
  | .leaf here leaf => if here = address then change (.leaf here leaf) else .leaf here leaf
  | .dynamicList here name value =>
    if here = address then change (.dynamicList here name value)
    else .dynamicList here name (writeEach address change value)
  | .fixedList here name dimension value =>
    if here = address then change (.fixedList here name dimension value)
    else .fixedList here name dimension (writeEach address change value)
  | .struct here name value kvValue =>
    if here = address then change (.struct here name value kvValue)
    else .struct here name (writeEach address change value) kvValue
/-- The members after the change. -/
def writeEach (address : Nat) (change : Object → Object) : List Object → List Object
  | [] => []
  | o :: rest => o.write address change :: writeEach address change rest
end

/-- A copy of an object: the same class, name, extent or dimension and value at every node, no
    node of the original, and no change to the one is a change to the other. -/
structure Faithful (o copy : Object) : Prop where
  same : copy.nodes.map Object.tree = o.nodes.map Object.tree
  dynamicTypes : copy.nodes.map (fun node => dynamicType node.tree) = o.nodes.map (fun node => dynamicType node.tree)
  offsets : copy.nodes.map (fun node => offsetAsBytes node.tree) = o.nodes.map (fun node => offsetAsBytes node.tree)
  equal : isEqual copy.tree o.tree = true ∧ isEqual o.tree copy.tree = true
  apart : ∀ address ∈ copy.references, address ∉ o.references
  keptOriginal : ∀ address ∈ copy.references, ∀ change, o.write address change = o
  keptCopy : ∀ address ∈ o.references, ∀ change, copy.write address change = copy
  wired : copy.Wired

/-- The objects below the first free address. -/
abbrev Allocated (next : Nat) := {o : Object // ∀ address ∈ o.references, address < next}

/-- The table of a struct holds the addresses of the members at the positions that the loop
    over the names visits. -/
theorem addMembers_lookup {value : List Object} {start : Nat} {m m' : Table Bytes Nat} {at_position : Nat → Option Nat}
    (before : ∀ key, m.lookup key = (m'.lookup key).bind at_position)
    (members : ∀ i o, value[i]? = some o → at_position (start + i) = some o.address) (key : Bytes) :
    (addMembers value m).lookup key = ((kvValue (trees value) start m').lookup key).bind at_position := by
  induction value generalizing start m m' with
  | nil => exact before key
  | cons o rest ih =>
    rw [addMembers,trees,kvValue]
    refine ih (fun key' => ?_) (fun i other found => ?_)
    · split
      · exact before key'
      · rw [lookup_insert_if,lookup_insert_if]
        split
        · exact (members 0 o rfl).symm
        · exact before key'
    · rw [Nat.add_assoc,Nat.add_comm 1 i]
      exact members (i + 1) other found

/-! ### What a clone is -/

private theorem membersEqual_refl {ts : List AbstractType} (each : ∀ t ∈ ts, isEqual t t = true) : membersEqual ts ts = true := by
  induction ts with
  | nil => rfl
  | cons t ts ih =>
    obtain ⟨here,later⟩ := List.forall_mem_cons.mp each
    rw [membersEqual,here,ih later]
    rfl
private theorem isEqual_refl (t : AbstractType) : isEqual t t = true := by
  induction t using AbstractType.induct with
  | dynamicList name vs ih => exact membersEqual_refl ih
  | fixedList name dimension vs ih => simp [isEqual,membersEqual_refl ih]
  | struct name vs ih => exact membersEqual_refl ih
  | _ => simp [isEqual]

private theorem leaf_clone_iff {leaf copy : Leaf} : leaf.clone = .ok copy ↔ copy = leaf ∧ Exact leaf.tree := by
  cases leaf with
  | fixedBytes name fixedN value =>
    rw [Leaf.clone,Leaf.tree,Exact]
    by_cases exact' : value.length = fixedN.1
    · rw [if_pos exact',Except.ok.injEq]
      exact ⟨fun same => ⟨same.symm,exact'⟩,fun both => both.1.symm⟩
    · rw [if_neg exact']
      constructor
      · intro same
        cases same
      · intro both
        exact absurd both.2 exact'
  | _ => simp [Leaf.clone,Leaf.tree,Exact,eq_comm]

private theorem address_mem (o : Object) : o.address ∈ o.references := by
  cases o <;> exact List.mem_cons_self

/-- The table holds addresses of members. -/
theorem addMembers_values {value : List Object} {m : Table Bytes Nat} {address : Nat}
    (member : address ∈ values (addMembers value m)) : address ∈ values m ∨ address ∈ referencesOf value := by
  induction value generalizing m with
  | nil => exact .inl member
  | cons o rest ih =>
    rw [addMembers] at member
    rw [referencesOf,List.mem_append]
    rcases ih member with before | later
    · split at before
      · exact .inl before
      · rcases mem_values_put (v := some o.address) before with new | old
        · cases new
          exact .inr (.inl (address_mem o))
        · exact .inl old
    · exact .inr (.inr later)

/-- What the clone of an object between two free addresses is. -/
structure Copies (o : Object) (next : Nat) (copy : Object) (next' : Nat) : Prop where
  exact : Exact o.tree
  tree : copy.tree = o.tree
  nodes : copy.nodes.map Object.tree = o.nodes.map Object.tree
  grows : next ≤ next'
  fresh : ∀ address ∈ copy.references, next ≤ address ∧ address < next'
  wired : copy.Wired
/-- What the clones of the members are. -/
structure CopiesEach (value : List Object) (next : Nat) (copies : List Object) (next' : Nat) : Prop where
  exact : AllExact (trees value)
  tree : trees copies = trees value
  nodes : (nodesOf copies).map Object.tree = (nodesOf value).map Object.tree
  grows : next ≤ next'
  fresh : ∀ address ∈ referencesOf copies, next ≤ address ∧ address < next'
  wired : AllWired copies

private theorem cloneEach_copies {value : List Object}
    (each : ∀ o ∈ value, ∀ next r, o.clone next = .ok r → Copies o next r.1 r.2) {next : Nat} {r : List Object × Nat}
    (cloned : cloneEach value next = .ok r) : CopiesEach value next r.1 r.2 := by
  induction value generalizing next r with
  | nil =>
    cases cloned
    exact ⟨trivial,rfl,rfl,le_rfl,fun _ member => (nomatch member),trivial⟩
  | cons o rest ih =>
    obtain ⟨here,later⟩ := List.forall_mem_cons.mp each
    obtain ⟨copy,first,cloned⟩ := bind_ok.mp cloned
    obtain ⟨copies,others,same⟩ := bind_ok.mp cloned
    cases same
    have one := here next copy first
    have more := ih later others
    refine ⟨⟨one.exact,more.exact⟩,by rw [trees,trees,one.tree,more.tree],?_,one.grows.trans more.grows,?_,
      ⟨one.wired,more.wired⟩⟩
    · rw [nodesOf,nodesOf,List.map_append,List.map_append,one.nodes,more.nodes]
    · intro address member
      rcases List.mem_append.mp member with inFirst | inOthers
      · exact ⟨(one.fresh address inFirst).1,lt_of_lt_of_le (one.fresh address inFirst).2 more.grows⟩
      · exact ⟨one.grows.trans (more.fresh address inOthers).1,(more.fresh address inOthers).2⟩

/-- The addresses of a copy: its own and those of the members. -/
theorem fresh_own {value copies : List Object} {next next' : Nat} (each : CopiesEach value (next + 1) copies next')
    {address : Nat} (member : address = next ∨ address ∈ referencesOf copies) : next ≤ address ∧ address < next' := by
  rcases member with rfl | inside
  · exact ⟨le_rfl,each.grows⟩
  · exact ⟨Nat.le_of_succ_le (each.fresh address inside).1,(each.fresh address inside).2⟩

private theorem clone_copies (o : Object) : ∀ next r, o.clone next = .ok r → Copies o next r.1 r.2 := by
  induction o using Object.induct with
  | leaf address leaf =>
    intro next r cloned
    obtain ⟨copy,checked,same⟩ := bind_ok.mp cloned
    obtain ⟨rfl,exact'⟩ := leaf_clone_iff.mp checked
    cases same
    refine ⟨exact',rfl,rfl,Nat.le_succ next,?_,trivial⟩
    intro address member
    rw [List.mem_singleton.mp member]
    exact ⟨le_rfl,Nat.lt_succ_self next⟩
  | dynamicList address name value ih =>
    intro next r cloned
    obtain ⟨copies,looped,same⟩ := bind_ok.mp cloned
    cases same
    have each := cloneEach_copies ih looped
    refine ⟨each.exact,congrArg (AbstractType.dynamicList name) each.tree,?_,Nat.le_of_succ_le each.grows,
      fun address member => fresh_own each (List.mem_cons.mp member),each.wired⟩
    rw [Object.nodes,Object.nodes,List.map_cons,List.map_cons,each.nodes,Object.tree,Object.tree,each.tree]
  | fixedList address name dimension value ih =>
    intro next r cloned
    obtain ⟨copies,looped,same⟩ := bind_ok.mp cloned
    cases same
    have each := cloneEach_copies ih looped
    refine ⟨each.exact,congrArg (AbstractType.fixedList name dimension) each.tree,?_,Nat.le_of_succ_le each.grows,
      fun address member => fresh_own each (List.mem_cons.mp member),each.wired⟩
    rw [Object.nodes,Object.nodes,List.map_cons,List.map_cons,each.nodes,Object.tree,Object.tree,each.tree]
  | struct address name value kvValue ih =>
    intro next r cloned
    obtain ⟨copies,looped,same⟩ := bind_ok.mp cloned
    cases same
    have each := cloneEach_copies ih looped
    refine ⟨each.exact,congrArg (AbstractType.struct name) each.tree,?_,Nat.le_of_succ_le each.grows,fun address member => fresh_own each ?_,
      ⟨rfl,each.wired⟩⟩
    · rw [Object.nodes,Object.nodes,List.map_cons,List.map_cons,each.nodes,Object.tree,Object.tree,each.tree]
    · rcases List.mem_cons.mp member with own | below
      · exact .inl own
      · rcases List.mem_append.mp below with named | inside
        · rcases addMembers_values named with old | inside
          · cases old
          · exact .inr inside
        · exact .inr inside

private theorem cloneEach_total {value : List Object} (each : ∀ o ∈ value, Exact o.tree → ∀ next, ∃ r, o.clone next = .ok r)
    (exact' : AllExact (trees value)) (next : Nat) : ∃ r, cloneEach value next = .ok r := by
  induction value generalizing next with
  | nil => exact ⟨_,rfl⟩
  | cons o rest ih =>
    obtain ⟨here,later⟩ := List.forall_mem_cons.mp each
    obtain ⟨copy,first⟩ := here exact'.1 next
    obtain ⟨copies,others⟩ := ih later exact'.2 copy.2
    exact ⟨_,bind_ok.mpr ⟨copy,first,bind_ok.mpr ⟨copies,others,rfl⟩⟩⟩
/-- An exact tree is cloned. -/
theorem clone_total {o : Object} (exact' : Exact o.tree) (next : Nat) : ∃ r, o.clone next = .ok r := by
  induction o using Object.induct generalizing next with
  | leaf address leaf => exact ⟨_,bind_ok.mpr ⟨leaf,leaf_clone_iff.mpr ⟨rfl,exact'⟩,rfl⟩⟩
  | dynamicList address name value ih =>
    obtain ⟨copies,looped⟩ := cloneEach_total ih exact' (next + 1)
    exact ⟨_,bind_ok.mpr ⟨copies,looped,rfl⟩⟩
  | fixedList address name dimension value ih =>
    obtain ⟨copies,looped⟩ := cloneEach_total ih exact' (next + 1)
    exact ⟨_,bind_ok.mpr ⟨copies,looped,rfl⟩⟩
  | struct address name value kvValue ih =>
    obtain ⟨copies,looped⟩ := cloneEach_total ih exact' (next + 1)
    exact ⟨_,bind_ok.mpr ⟨copies,looped,rfl⟩⟩

/-- Objects are cloned as their trees are. -/
theorem clone_tree {o : Object} {next : Nat} {r : Object × Nat} (cloned : o.clone next = .ok r) :
    ContractABIType.clone o.tree = .ok r.1.tree := by
  have copies := clone_copies o next r cloned
  rw [clone_eq copies.exact,copies.tree]

/-! ### Changes -/

private theorem writeEach_absent {address : Nat} {change : Object → Object} {value : List Object}
    (each : ∀ o ∈ value, address ∉ o.references → o.write address change = o) (absent : address ∉ referencesOf value) :
    writeEach address change value = value := by
  induction value with
  | nil => rfl
  | cons o rest ih =>
    obtain ⟨here,later⟩ := List.forall_mem_cons.mp each
    rw [referencesOf,List.mem_append,not_or] at absent
    rw [writeEach,here absent.1,ih later absent.2]
/-- A change elsewhere leaves a tree as it is. -/
theorem write_absent {address : Nat} (change : Object → Object) {o : Object} (absent : address ∉ o.references) :
    o.write address change = o := by
  induction o using Object.induct with
  | leaf here leaf => exact if_neg (Ne.symm (List.ne_of_not_mem_cons absent))
  | dynamicList here name value ih =>
    obtain ⟨other,below⟩ := not_or.mp (mt List.mem_cons.mpr absent)
    rw [Object.write,if_neg (Ne.symm other),writeEach_absent ih below]
  | fixedList here name dimension value ih =>
    obtain ⟨other,below⟩ := not_or.mp (mt List.mem_cons.mpr absent)
    rw [Object.write,if_neg (Ne.symm other),writeEach_absent ih below]
  | struct here name value kvValue ih =>
    obtain ⟨other,below⟩ := not_or.mp (mt List.mem_cons.mpr absent)
    have inside : address ∉ referencesOf value := fun member => below (List.mem_append_right _ member)
    rw [Object.write,if_neg (Ne.symm other),writeEach_absent ih inside]

/-- A clone of an object below the first free address is a copy of it. -/
theorem faithful_of_copies {next next' : Nat} {o : Allocated next} {copy : Object} (copies : Copies o.1 next copy next') :
    Faithful o.1 copy := by
  have apart : ∀ address ∈ copy.references, address ∉ o.1.references := by
    intro address member original
    exact absurd (o.2 address original) (Nat.not_lt.mpr (copies.fresh address member).1)
  have per_node : ∀ {α : Type} (f : AbstractType → α),
      copy.nodes.map (fun node => f node.tree) = o.1.nodes.map (fun node => f node.tree) := by
    intro α f
    have mapped := congrArg (List.map f) copies.nodes
    rwa [List.map_map,List.map_map] at mapped
  refine ⟨copies.nodes,per_node dynamicType,per_node offsetAsBytes,?_,apart,?_,?_,copies.wired⟩
  · rw [copies.tree]
    exact ⟨isEqual_refl _,isEqual_refl _⟩
  · exact fun address member change => write_absent change (apart address member)
  · exact fun address member change => write_absent change (fun shared => apart address shared member)

/-- `clone()` returns a copy exactly when every `FixedBytes` of the tree holds as many bytes as
    its type says. -/
theorem clone_faithful_iff (next : Nat) (o : Allocated next) :
    (∃ copy next', o.1.clone next = .ok (copy,next') ∧ Faithful o.1 copy) ↔ Exact o.1.tree := by
  constructor
  · rintro ⟨copy,next',cloned,_⟩
    exact (clone_copies o.1 next _ cloned).exact
  · intro exact'
    obtain ⟨⟨copy,next'⟩,cloned⟩ := clone_total exact' next
    exact ⟨copy,next',cloned,faithful_of_copies (clone_copies o.1 next _ cloned)⟩

/-! ### A tree as it is built -/

private theorem four_inRange : 0 < 4 ∧ 4 ≤ 32 := ⟨Nat.succ_pos 3,by decide⟩
/-- The object that is built for an input `bytes4`. -/
def freshInput : Object := .struct 0 [] [.leaf 1 (.fixedBytes (lit "sig") ⟨4,four_inRange⟩ [])] (AList.singleton (lit "sig") 1)

theorem freshInput_below : ∀ address ∈ freshInput.references, address < 2 := by
  decide

/-- The tree that is built for `bytes4` is refused by its own `clone()`. -/
theorem clone_freshInput :
    buildInput false [Param.named (lit "sig") (.bytesN ⟨4,four_inRange⟩)] = .ok freshInput.tree ∧
      (∃ what, freshInput.clone 2 = throws what) ∧
      ¬ ∃ copy next', freshInput.clone 2 = .ok (copy,next') ∧ Faithful freshInput copy := by
  refine ⟨?_,⟨_,rfl⟩,?_⟩
  · have built : buildComponent false (Param.named (lit "sig") (.bytesN ⟨4,four_inRange⟩)) =
        .ok (Param.tree false (lit "sig") (.bytesN ⟨4,four_inRange⟩)) :=
      (buildComponent_of_components (lit "sig") (componentsBuilt _)).mpr trivial
    rw [buildInput,buildComponents,built]
    rfl
  · rintro ⟨copy,next',cloned,_⟩
    cases cloned

end CppSdk.Clones

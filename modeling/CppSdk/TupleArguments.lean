import CppSdk.EventTopics
import CppSdk.TypeBuilder

/-!
Arguments of tuples. An array fills the members in their order; an object fills the
members that a table of names knows, which is each member exactly when the names are
not empty and distinct.
-/
namespace CppSdk.TupleArguments
open CppSdk.ByteString CppSdk.Runtime CppSdk.Tables CppSdk.JsonValues CppSdk.ContractABIType
open CppSdk.ContractABIDefinitionFactory CppSdk.AbiCodec CppSdk.EventTopics CppSdk.TypeBuilder

/-! ### The table of names -/

private theorem kvValue_absent {value : List AbstractType} {key : Bytes} (absent : key ∉ value.map nameOf) (start : Nat)
    (m : Table Bytes Nat) : (kvValue value start m).lookup key = m.lookup key := by
  induction value generalizing start m with
  | nil => rfl
  | cons tv rest ih =>
    rw [List.map_cons,List.mem_cons,not_or] at absent
    rw [kvValue,ih absent.2]
    split
    · rfl
    · exact AList.lookup_insert_ne absent.1
/-- A name in the table is that of the member at its position. -/
theorem kvValue_names {value : List AbstractType} {key : Bytes} {start position : Nat} {m : Table Bytes Nat}
    (found : (kvValue value start m).lookup key = some position) :
    m.lookup key = some position ∨
      ∃ i tv, position = start + i ∧ value[i]? = some tv ∧ nameOf tv = key ∧ key ≠ [] := by
  induction value generalizing start m with
  | nil => exact .inl found
  | cons tv rest ih =>
    rw [kvValue] at found
    rcases ih found with before | ⟨i,tv',same,member,named⟩
    · split at before
      · exact .inl before
      · rename_i unnamed
        rcases lookup_insert_cases before with ⟨rfl,rfl⟩ | ⟨_,old⟩
        · exact .inr ⟨0,tv,rfl,rfl,rfl,unnamed⟩
        · exact .inl old
    · exact .inr ⟨i + 1,tv',by omega,member,named⟩
/-- Distinct names are all in the table. -/
theorem kvValue_distinct {value : List AbstractType} (distinct : (value.map nameOf).Nodup) {i : Nat} {tv : AbstractType}
    (member : value[i]? = some tv) (named : nameOf tv ≠ []) (start : Nat) (m : Table Bytes Nat) :
    (kvValue value start m).lookup (nameOf tv) = some (start + i) := by
  induction value generalizing start m i with
  | nil => cases member
  | cons first rest ih =>
    obtain ⟨new,later⟩ := List.nodup_cons.mp distinct
    rw [kvValue]
    cases i with
    | zero =>
      cases member
      rw [kvValue_absent new,if_neg named]
      exact AList.lookup_insert m
    | succ i =>
      rw [ih later member]
      congr 1
      omega

/-- The loop over the table visits the position. -/
def Visited (C : ContractABICodec) (value : List AbstractType) (position : Nat) : Prop :=
  ∃ key, (key,position) ∈ C.memberOrder.order (kvValue value 0 ∅)

private theorem visited_iff {C : ContractABICodec} {value : List AbstractType} {key : Bytes} {position : Nat} :
    (key,position) ∈ C.memberOrder.order (kvValue value 0 ∅) ↔ (kvValue value 0 ∅).lookup key = some position :=
  mem_order C.memberOrder
private theorem visited_named {C : ContractABICodec} {value : List AbstractType} {key : Bytes} {position : Nat}
    (visited : (key,position) ∈ C.memberOrder.order (kvValue value 0 ∅)) :
    ∃ tv, value[position]? = some tv ∧ nameOf tv = key ∧ key ≠ [] := by
  rcases kvValue_names (visited_iff.mp visited) with old | ⟨i,tv,same,member,named⟩
  · cases old
  · rw [Nat.zero_add] at same
    exact ⟨tv,same ▸ member,named⟩

/-- Every position is visited exactly when the names are distinct and not empty. -/
theorem visited_all {C : ContractABICodec} {value : List AbstractType} :
    (∀ position < value.length, Visited C value position) ↔
      (∀ tv ∈ value, nameOf tv ≠ []) ∧ (value.map nameOf).Nodup := by
  constructor
  · intro all
    have entry : ∀ {i : Nat} {tv : AbstractType}, value[i]? = some tv →
        (kvValue value 0 ∅).lookup (nameOf tv) = some i ∧ nameOf tv ≠ [] := by
      intro i tv member
      obtain ⟨key,visited⟩ := all i (List.getElem?_eq_some_iff.mp member).1
      obtain ⟨tv',member',rfl,named⟩ := visited_named visited
      cases member.symm.trans member'
      exact ⟨visited_iff.mp visited,named⟩
    refine ⟨fun tv member => ?_,List.nodup_iff_injective_getElem.mpr ?_⟩
    · obtain ⟨i,found⟩ := List.mem_iff_getElem?.mp member
      exact (entry found).2
    · intro i j same
      have first := (entry (List.getElem?_eq_getElem (l := value) (by simpa using i.2))).1
      have second := (entry (List.getElem?_eq_getElem (l := value) (by simpa using j.2))).1
      simp only [List.getElem_map] at same
      rw [same] at first
      exact Fin.ext (Option.some.inj (first.symm.trans second))
  · rintro ⟨named,distinct⟩ position inside
    have member : value[position]? = some value[position] := List.getElem?_eq_getElem inside
    have found := kvValue_distinct distinct member (named _ (List.getElem_mem inside)) 0 ∅
    rw [Nat.zero_add] at found
    exact ⟨_,visited_iff.mpr found⟩

/-- No position is visited twice. -/
theorem visited_once (C : ContractABICodec) (value : List AbstractType) :
    ((C.memberOrder.order (kvValue value 0 ∅)).map Prod.snd).Nodup := by
  have keys : ((kvValue value 0 ∅).entries.map (fun e => (e.1,e.2))).Nodup := by
    refine List.Nodup.of_map Prod.fst ?_
    rw [List.map_map]
    exact (kvValue value 0 ∅).nodupKeys
  refine List.Nodup.map_on ?_ ((C.memberOrder.perm _).nodup_iff.mpr keys)
  rintro ⟨key,position⟩ member ⟨key',position'⟩ member' same
  obtain ⟨tv,at_position,rfl,_⟩ := visited_named member
  obtain ⟨tv',at_position',rfl,_⟩ := visited_named member'
  cases same
  cases at_position.symm.trans at_position'
  rfl

/-! ### The loops -/

theorem initializers_eq (C : ContractABICodec) (value : List AbstractType) :
    initializers C value = value.map (initAbstractType C) := by
  induction value with
  | nil => rfl
  | cons tv rest ih => rw [initializers,ih,List.map_cons]

/-- The loop over the names fills each member whose position it visits and no other. -/
theorem initKeys_ok {C : ContractABICodec} {name : Bytes} {jParams : Json} {inits : List Initializer}
    {entries : List (Bytes × Nat)} {value members : List AbstractType} (once : (entries.map Prod.snd).Nodup)
    (filled : initKeys C name jParams inits entries value = .ok members) :
    members.length = value.length ∧
      (∀ key position, (key,position) ∈ entries → position < value.length → ∃ json tv,
        jParams.member key = some json ∧ inits.getD position (fun _ => .error .undefined) json = .ok tv ∧
          members[position]? = some tv) ∧
      ∀ i, i ∉ entries.map Prod.snd → members[i]? = value[i]? := by
  induction entries generalizing value with
  | nil =>
    cases filled
    exact ⟨rfl,fun _ _ member => (nomatch member),fun _ _ => rfl⟩
  | cons entry rest ih =>
    obtain ⟨key,position⟩ := entry
    rw [List.map_cons,List.nodup_cons] at once
    rw [initKeys] at filled
    cases found : jParams.member key with
    | none =>
      rw [found] at filled
      cases filled
    | some json =>
      rw [found] at filled
      obtain ⟨tv,called,filled⟩ := bind_ok.mp filled
      obtain ⟨sizes,visited,others⟩ := ih once.2 filled
      rw [List.length_set] at sizes
      refine ⟨sizes,fun key' position' member inside => ?_,fun i absent => ?_⟩
      · rcases List.mem_cons.mp member with same | later
        · cases same
          refine ⟨json,tv,found,called,?_⟩
          rw [others position once.1]
          exact List.getElem?_set_self inside
        · exact visited key' position' later (by rwa [List.length_set])
      · rw [List.map_cons,List.mem_cons,not_or] at absent
        rw [others i absent.2]
        exact List.getElem?_set_ne (Ne.symm absent.1)

/-- The loop over an array fills each member. -/
theorem initEach_of {inits : List Initializer} {elements : List Json} {members : List AbstractType}
    (sizes : inits.length = elements.length) (sizes' : members.length = elements.length)
    (each : ∀ (i : Nat) (init : Initializer) (json : Json), inits[i]? = some init → elements[i]? = some json →
      ∃ tv, init json = .ok tv ∧ members[i]? = some tv) : initEach inits elements = .ok members := by
  induction inits generalizing elements members with
  | nil =>
    obtain rfl := List.length_eq_zero_iff.mp sizes.symm
    obtain rfl := List.length_eq_zero_iff.mp sizes'
    rfl
  | cons init later ih =>
    cases elements with
    | nil => cases sizes
    | cons json rest =>
      cases members with
      | nil => cases sizes'
      | cons tv others =>
        obtain ⟨tv',called,same⟩ := each 0 init json rfl rfl
        cases same
        have tail := ih (Nat.succ.inj sizes) (Nat.succ.inj sizes') (fun i init json => each (i + 1) init json)
        rw [initEach,called,ok_bind,tail]
        rfl

/-! ### Objects and arrays -/

/-- The object fills each member, and the tree is that of the array of the values in the order
    of the members, each of which has one. -/
def ObjectAgrees (C : ContractABICodec) (name : Bytes) (value : List AbstractType) (entries : List (Bytes × Json))
    (tree : AbstractType) : Prop :=
  (∀ position < value.length, Visited C value position) ∧
    ∃ elements, List.Forall₂ (fun tv json => entries.lookup (nameOf tv) = some json) value elements ∧
      initAbstractType C (.struct name value) (.array elements) = .ok tree

/-- An object that a tuple accepts agrees with the array of its values exactly when the members
    of the tuple have distinct names, none of them empty. -/
theorem object_agrees_iff {C : ContractABICodec} (documented : C.J.Documented) {name : Bytes} {value : List AbstractType}
    {entries : List (Bytes × Json)} {tree : AbstractType}
    (accepted : initAbstractType C (.struct name value) (.object entries) = .ok tree) :
    ObjectAgrees C name value entries tree ↔ (∀ tv ∈ value, nameOf tv ≠ []) ∧ (value.map nameOf).Nodup := by
  constructor
  · intro agrees
    exact visited_all.mp agrees.1
  · intro distinct
    have all := (visited_all (C := C)).mpr distinct
    obtain ⟨_,members,filled,rfl⟩ := initAbstractType_object.mp accepted
    obtain ⟨sizes,visited,_⟩ := initKeys_ok (visited_once C value) filled
    have each : ∀ (i : Nat) (tv : AbstractType), value[i]? = some tv → ∃ json tv', entries.lookup (nameOf tv) = some json ∧
        initAbstractType C tv json = .ok tv' ∧ members[i]? = some tv' := by
      intro i tv member
      obtain ⟨inside,_⟩ := List.getElem?_eq_some_iff.mp member
      obtain ⟨key,visit⟩ := all i inside
      obtain ⟨tv₁,member₁,rfl,_⟩ := visited_named visit
      cases member.symm.trans member₁
      obtain ⟨json,tv',found,called,placed⟩ := visited _ i visit inside
      rw [initializers_eq,List.getD_eq_getElem?_getD,List.getElem?_map,member] at called
      exact ⟨json,tv',found,called,placed⟩
    -- the values of the object in the order of the members
    have listed : ∀ tv ∈ value, entries.lookup (nameOf tv) = some ((entries.lookup (nameOf tv)).getD .null) := by
      intro tv member
      obtain ⟨i,found⟩ := List.mem_iff_getElem?.mp member
      obtain ⟨json,_,value,_⟩ := each i tv found
      rw [value]
      rfl
    refine ⟨all,value.map (fun tv => (entries.lookup (nameOf tv)).getD .null),?_,?_⟩
    · exact List.forall₂_map_right_iff.mpr (List.forall₂_same.mpr listed)
    · refine initAbstractType_array.mpr ⟨?_,by simp,members,?_,rfl⟩
      · rw [jsonTypeMatchCheck,List.any_cons,documented.array_array]
        rfl
      · rw [initializers_eq]
        refine initEach_of (by simp) (by simpa using sizes) ?_
        intro i init json init_at json_at
        rw [List.getElem?_map,Option.map_eq_some_iff] at init_at json_at
        obtain ⟨tv,member,rfl⟩ := init_at
        obtain ⟨tv₁,member₁,rfl⟩ := json_at
        cases member.symm.trans member₁
        obtain ⟨json,tv',found,called,placed⟩ := each i tv member
        rw [found]
        exact ⟨tv',called,placed⟩

/-- A codec of the reference libraries. -/
def plainCodec : ContractABICodec := zeroCodec (fun _ => none)

/-- An input without a name is left as it was built, and an object without any value is
    accepted for it. -/
theorem object_unnamed :
    buildInput false [Param.named [] (.uint none)] = .ok (.struct [] [.uint [] wholeExtent 0]) ∧
      initAbstractType plainCodec (.struct [] [.uint [] wholeExtent 0]) (.object []) =
        .ok (.struct [] [.uint [] wholeExtent 0]) ∧
      ¬ ObjectAgrees plainCodec [] [.uint [] wholeExtent 0] [] (.struct [] [.uint [] wholeExtent 0]) := by
  refine ⟨rfl,rfl,?_⟩
  rintro ⟨all,_⟩
  obtain ⟨key,visited⟩ := all 0 (by simp)
  obtain ⟨tv,member,rfl,named⟩ := visited_named visited
  cases member
  exact named rfl
/-- An object of two members agrees with the array. -/
theorem object_agrees_pair :
    ObjectAgrees plainCodec [] [.uint (lit "a") wholeExtent 0,.boolean (lit "b") false]
        [(lit "b",.boolean true),(lit "a",.uint 5)] (.struct [] [.uint (lit "a") wholeExtent 5,.boolean (lit "b") true]) ↔
      (∀ tv ∈ [AbstractType.uint (lit "a") wholeExtent 0,.boolean (lit "b") false], nameOf tv ≠ []) ∧
        ([AbstractType.uint (lit "a") wholeExtent 0,.boolean (lit "b") false].map nameOf).Nodup :=
  object_agrees_iff (jsoncpp_documented _) rfl

end CppSdk.TupleArguments

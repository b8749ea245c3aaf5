import Mathlib

/-!
Finite maps, as the `std::map` and `std::unordered_map` of the sources: what the
operations that Mathlib's `AList` lacks do to a look-up, and how a map is made of its entries.
-/
namespace CppSdk.Tables
variable {K V : Type} [DecidableEq K]

/-- A finite map. -/
abbrev Table (K V : Type) := AList (fun _ : K => V)

/-- Every value replaced or, where there is none, erased. -/
def prune (change : K → V → Option V) (m : Table K V) : Table K V :=
  ⟨m.entries.filterMap (fun e => (change e.1 e.2).map (fun v => ⟨e.1,v⟩)),by
    rw [List.nodupKeys_iff_pairwise]
    refine (List.nodupKeys_iff_pairwise.mp m.nodupKeys).filterMap _ ?_
    intro e e' different f kept f' kept'
    obtain ⟨v,_,rfl⟩ := Option.map_eq_some_iff.mp kept
    obtain ⟨v',_,rfl⟩ := Option.map_eq_some_iff.mp kept'
    exact different⟩

theorem lookup_prune (change : K → V → Option V) (m : Table K V) (k : K) :
    (prune change m).lookup k = (m.lookup k).bind (change k) := by
  ext v
  simp only [← Option.mem_def,AList.mem_lookup_iff,prune,List.mem_filterMap]
  simp only [Option.mem_def,Option.map_eq_some_iff,Option.bind_eq_some_iff]
  constructor
  · rintro ⟨e,member,w,changed,same⟩
    cases same
    exact ⟨e.2,AList.mem_lookup_iff.mpr member,changed⟩
  · rintro ⟨w,found,changed⟩
    exact ⟨⟨k,w⟩,AList.mem_lookup_iff.mp found,v,changed,rfl⟩

/-- The values, in the order of the entries. -/
def values (m : Table K V) : List V := m.entries.map Sigma.snd

theorem mem_values {m : Table K V} {v : V} : v ∈ values m ↔ ∃ k, m.lookup k = some v := by
  simp only [values,List.mem_map,← Option.mem_def,AList.mem_lookup_iff]
  constructor
  · rintro ⟨e,member,rfl⟩
    exact ⟨e.1,member⟩
  · rintro ⟨k,member⟩
    exact ⟨⟨k,v⟩,member,rfl⟩

theorem lookup_insert_if (m : Table K V) (k k' : K) (v : V) :
    (m.insert k v).lookup k' = if k' = k then some v else m.lookup k' := by
  by_cases same : k' = k
  · rw [if_pos same,same,AList.lookup_insert]
  · rw [if_neg same,AList.lookup_insert_ne same]
theorem lookup_erase_if (m : Table K V) (k k' : K) :
    (m.erase k).lookup k' = if k' = k then none else m.lookup k' := by
  by_cases same : k' = k
  · rw [if_pos same,same,AList.lookup_erase]
  · rw [if_neg same,AList.lookup_erase_ne same]
/-- What is found after an insertion is new or was there. -/
theorem lookup_insert_cases {m : Table K V} {k k' : K} {v v' : V} (found : (m.insert k v).lookup k' = some v') :
    (k' = k ∧ v' = v) ∨ (k' ≠ k ∧ m.lookup k' = some v') := by
  rw [lookup_insert_if] at found
  by_cases same : k' = k
  · rw [if_pos same,Option.some.injEq] at found
    exact .inl ⟨same,found.symm⟩
  · rw [if_neg same] at found
    exact .inr ⟨same,found⟩
theorem lookup_erase_cases {m : Table K V} {k k' : K} {v : V} (found : (m.erase k).lookup k' = some v) :
    k' ≠ k ∧ m.lookup k' = some v := by
  rw [lookup_erase_if] at found
  by_cases same : k' = k
  · simp [same] at found
  · rw [if_neg same] at found
    exact ⟨same,found⟩

/-- The value at a key replaced, or erased. -/
def put (m : Table K V) (k : K) (v : Option V) : Table K V :=
  match v with
  | some v => m.insert k v
  | none => m.erase k

theorem lookup_put (m : Table K V) (k k' : K) (v : Option V) :
    (put m k v).lookup k' = if k' = k then v else m.lookup k' := by
  cases v with
  | none => exact lookup_erase_if m k k'
  | some v => exact lookup_insert_if m k k' v
theorem lookup_put_cases {m : Table K V} {k k' : K} {v : Option V} {v' : V} (found : (put m k v).lookup k' = some v') :
    (k' = k ∧ v = some v') ∨ (k' ≠ k ∧ m.lookup k' = some v') := by
  rw [lookup_put] at found
  by_cases same : k' = k
  · exact .inl ⟨same,by rwa [if_pos same] at found⟩
  · exact .inr ⟨same,by rwa [if_neg same] at found⟩
theorem mem_values_put {m : Table K V} {k : K} {v : Option V} {v' : V} (member : v' ∈ values (put m k v)) :
    v = some v' ∨ v' ∈ values m := by
  obtain ⟨k',found⟩ := mem_values.mp member
  rcases lookup_put_cases found with ⟨_,new⟩ | ⟨_,old⟩
  · exact .inl new
  · exact .inr (mem_values.mpr ⟨k',old⟩)

/-- The sum of the weights of the values. -/
def weigh (weight : V → Nat) (m : Table K V) : Nat := ((values m).map weight).sum

theorem weigh_erase (weight : V → Nat) (m : Table K V) (k : K) :
    weigh weight (m.erase k) + (m.lookup k).elim 0 weight = weigh weight m := by
  by_cases known : k ∈ m
  · obtain ⟨v,before,after,_,split,erased⟩ := List.exists_of_kerase (AList.mem_keys.mp known)
    have found : m.lookup k = some v := by
      apply AList.mem_lookup_iff.mpr
      rw [split]
      exact List.mem_append_right before List.mem_cons_self
    have rest : (m.erase k).entries = before ++ after := erased
    simp only [weigh,values,rest,split,found,Option.elim_some,List.map_append,List.map_cons,List.sum_append,List.sum_cons]
    omega
  · have absent : m.lookup k = none := AList.lookup_eq_none.mpr known
    have same : m.erase k = m := AList.ext (List.kerase_of_notMem_keys (mt AList.mem_keys.mpr known))
    rw [absent,same]
    rfl
theorem weigh_insert (weight : V → Nat) (m : Table K V) (k : K) (v : V) :
    weigh weight (m.insert k v) = weight v + weigh weight (m.erase k) := by
  simp only [weigh,values,AList.entries_insert,List.map_cons,List.sum_cons]
  rfl
/-- A replaced value leaves the sum as it was, but for the old value and the new. -/
theorem weigh_put (weight : V → Nat) (m : Table K V) (k : K) (v : Option V) :
    weigh weight (put m k v) + (m.lookup k).elim 0 weight = weigh weight m + v.elim 0 weight := by
  have erased := weigh_erase weight m k
  cases v with
  | none => exact erased
  | some v =>
    have inserted := weigh_insert weight m k v
    rw [put,Option.elim_some]
    omega

/-- The value of the last entry of a key. -/
def latest (entries : List (K × V)) (k : K) : Option V := entries.reverse.lookup k

/-- After the entries are put in turn, the last one of a key is found. -/
theorem lookup_foldl_insert (entries : List (K × V)) (m : Table K V) (k : K) :
    (entries.foldl (fun m e => m.insert e.1 e.2) m).lookup k = (latest entries k).or (m.lookup k) := by
  induction entries generalizing m with
  | nil => rfl
  | cons e rest ih =>
    obtain ⟨key,v⟩ := e
    rw [List.foldl_cons,ih,latest,latest,List.reverse_cons,List.lookup_append,Option.or_assoc,lookup_insert_if]
    congr 1
    by_cases same : k = key
    · simp [same]
    · have differs : (k == key) = false := beq_eq_false_iff_ne.mpr same
      simp [same,List.lookup,differs]

/-- The order in which a loop over an `unordered_map` meets the entries: each once, in no
    order that the language fixes. -/
structure Iteration (K V : Type) [DecidableEq K] where
  order : Table K V → List (K × V)
  perm : ∀ m, (order m).Perm (m.entries.map (fun e => (e.1,e.2)))

theorem mem_order (iteration : Iteration K V) {m : Table K V} {k : K} {v : V} :
    (k,v) ∈ iteration.order m ↔ m.lookup k = some v := by
  rw [(iteration.perm m).mem_iff,← Option.mem_def,AList.mem_lookup_iff,List.mem_map]
  constructor
  · rintro ⟨e,member,same⟩
    cases same
    exact member
  · exact fun member => ⟨⟨k,v⟩,member,rfl⟩

/-! ### Ordered maps -/

section
open Std
variable {K V : Type} [Ord K] [TransOrd K] [LawfulEqOrd K]

/-- Entries of different keys that are not there are put the same way with or without
    a look at what is there. -/
theorem foldl_insertIfNew (entries : List (K × V)) (made : ExtTreeMap K V)
    (distinct : entries.Pairwise (fun a b => ¬compare a.1 b.1 = .eq)) (fresh : ∀ e ∈ entries, e.1 ∉ made) :
    entries.foldl (fun made e => made.insertIfNew e.1 e.2) made = entries.foldl (fun made e => made.insert e.1 e.2) made := by
  induction entries generalizing made with
  | nil => rfl
  | cons e rest ih =>
    obtain ⟨others,later⟩ := List.pairwise_cons.mp distinct
    obtain ⟨first,absent⟩ := List.forall_mem_cons.mp fresh
    have same : made.insertIfNew e.1 e.2 = made.insert e.1 e.2 := by
      refine ExtTreeMap.ext_getElem? (fun k => ?_)
      simp only [ExtTreeMap.getElem?_insertIfNew,ExtTreeMap.getElem?_insert,first,not_false_eq_true,and_true]
    rw [List.foldl_cons,List.foldl_cons,same]
    refine ih _ later (fun e' member inserted => ?_)
    rcases ExtTreeMap.mem_insert.mp inserted with equal | old
    · exact others e' member equal
    · exact absent e' member old

variable [DecidableEq K]

/-- A `std::map` is made of its entries. -/
theorem foldl_insert_toList (m : ExtTreeMap K V) : m.toList.foldl (fun made e => made.insert e.1 e.2) ∅ = m := by
  rw [← ExtTreeMap.ofList_eq_foldl]
  refine ExtTreeMap.ext_getElem? (fun k => ?_)
  cases found : m[k]? with
  | some v =>
    exact ExtTreeMap.getElem?_ofList_of_mem compare_self ExtTreeMap.distinct_keys_toList
      (ExtTreeMap.mem_toList_iff_getElem?_eq_some.mpr found)
  | none =>
    refine ExtTreeMap.getElem?_ofList_of_contains_eq_false ?_
    rw [ExtTreeMap.map_fst_toList_eq_keys,ExtTreeMap.contains_keys,← Bool.not_eq_true,ExtTreeMap.contains_iff_mem,
      ExtTreeMap.mem_iff_isSome_getElem?,found]
    simp
theorem foldl_insertIfNew_toList (m : ExtTreeMap K V) : m.toList.foldl (fun made e => made.insertIfNew e.1 e.2) ∅ = m :=
  (foldl_insertIfNew m.toList ∅ ExtTreeMap.distinct_keys_toList (fun _ _ => ExtTreeMap.not_mem_empty)).trans
    (foldl_insert_toList m)

end

end CppSdk.Tables

import CppSdk.SolidityLayout

/-!
The round trip of the templates. Where a component is found in the data with its parts
`Located`, the decoder returns its value. A tuple is found so when its members take one
word each or none of them is dynamic (`WordHeads`), because `serialise` announces the
first tail after one word for each member, and the decoder expects it after the heads.
-/
namespace CppSdk.SolidityRoundTrip
open CppSdk.ByteString CppSdk.Runtime CppSdk.SolidityCodec CppSdk.SolidityLayout
open CppSdk.SolidityAbi hiding parts headLength_parts

/-- Every element satisfies the predicate. -/
def Each {α : Type} (P : α → Prop) (xs : List α) : Prop := ∀ x ∈ xs, P x

mutual
/-- In every tuple with a dynamic member, each member takes one word in the head. -/
def WordHeads : (T : ArgType) → T.Val → Prop
  | .vector T, xs => Each (WordHeads T) xs
  | .array T _, xs => Each (WordHeads T) xs.1
  | .tuple Ts, xs => ((∃ T ∈ Ts, abiDynamicType T = true) → ∀ T ∈ Ts, lengthOf T = 1) ∧ AllWordHeads Ts xs
  | _, _ => True
/-- The members have such heads. -/
def AllWordHeads : (Ts : List ArgType) → Vals Ts → Prop
  | [], _ => True
  | T :: Ts, (x,xs) => WordHeads T x ∧ AllWordHeads Ts xs
end

/-- Such a tuple is the layout of its members. -/
theorem serialise_tuple_layout {Ts : List ArgType} (xs : Vals Ts)
    (words : (∃ T ∈ Ts, abiDynamicType T = true) → ∀ T ∈ Ts, lengthOf T = 1) :
    serialise (.tuple Ts) xs = layout (parts Ts xs) := by
  rw [serialise_tuple,layout,headLength_parts]
  by_cases dynamic : ∃ T ∈ Ts, abiDynamicType T = true
  · rw [offsetOf_eq_length.mpr (words dynamic)]
  · have static := parts_static (by simpa using dynamic) xs
    rw [heads_static static,heads_static static]

/-! ### Reading words and bytes -/

section
variable {U : Utilities} {data : Bytes} (bounded : data.length < 2 ^ 31)
include bounded

private theorem validOffset_ok {offset ahead : UInt64} {part : Bytes} (found : Occurs data offset.toNat part)
    (inside : ahead.toNat < part.length) : validOffset U data (offset + ahead) = .ok () := by
  have bound := occurs_bound found
  rw [validOffset,add_toNat (by omega),if_neg (by omega)]

theorem validOffset_word {offset : UInt64} {content : Bytes} (size : content.length = 32)
    (found : Occurs data offset.toNat content) : validOffset U data (offset + 32 - 1) = .ok () := by
  rw [last_word]
  exact validOffset_ok bounded found (by rw [size]; decide)

theorem deserializeU256_ok {offset : UInt64} {n : Nat} (found : Occurs data offset.toNat (word n)) :
    deserializeU256 U data offset = .ok (BitVec.ofNat 256 n) := by
  rw [deserializeU256,validOffset_word bounded (word_length n) found,ok_bind,getCroppedData_word found]

private theorem deserializeS256_ok {offset : UInt64} (i : S256) (found : Occurs data offset.toNat (serialiseS256 i)) :
    deserializeS256 U data offset = .ok i := by
  have value : BitVec.ofNat 256 (s2u i.1).toNat = s2u i.1 := by simp
  obtain ⟨i,low,high⟩ := i
  have converted := u2s_s2u low high
  rw [deserializeS256,deserializeU256_ok bounded found,ok_bind,value]
  by_cases negated : 2 ^ 255 + 2 ^ 252 ≤ (s2u i).toNat
  · rw [dif_pos negated]
    refine congrArg Except.ok (Subtype.ext ?_)
    show -((2 ^ 256 - 1 - (s2u i).toNat + 1 : Nat) : Int) = i
    rw [s2u_toNat] at negated ⊢
    omega
  · rw [dif_neg negated]
    exact congrArg Except.ok (Subtype.ext converted)

private theorem deserializeBool_ok {offset : UInt64} (b : Bool) (found : Occurs data offset.toNat (serialiseBool b)) :
    deserializeBool U data offset = .ok b := by
  rw [deserializeBool,deserializeU256_ok bounded found,ok_bind]
  cases b with
  | true => rfl
  | false => rfl

theorem deserializeAddress_ok {offset : UInt64} (account : Exactly 20)
    (found : Occurs data offset.toNat (serialiseAddress account)) : deserializeAddress U data offset = .ok account := by
  obtain ⟨account,exact⟩ := account
  have size : (serialiseAddress ⟨account,exact⟩).length = 32 := by simp [serialiseAddress,exact]
  have bound := occurs_bound found
  have start : offset + 32 - 20 = offset + 12 := by grind
  have position : (offset + 12).toNat = offset.toNat + 12 := add_toNat (by simp; omega)
  have content := (occurs_append.mp found).2
  rw [List.length_replicate,← position] at content
  have view := getCroppedData_occurs content
  have whole := populate_exact account
  rw [exact] at view whole
  rw [deserializeAddress,validOffset_word bounded size found,ok_bind]
  refine congrArg Except.ok (Subtype.ext ?_)
  show populate (getCroppedData data (offset + 32 - 20).toNat 20) 20 = account
  rw [start,view,whole]

private theorem deserializeString32_ok {offset : UInt64} (content : Exactly 32)
    (found : Occurs data offset.toNat (serialiseString32 content)) :
    deserializeString32 U data offset = .ok content := by
  obtain ⟨content,exact⟩ := content
  have whole := populate_exact content
  rw [exact] at whole
  rw [serialiseString32,whole] at found
  have view := getCroppedData_occurs found
  rw [exact] at view
  rw [deserializeString32,validOffset_word bounded exact found,ok_bind]
  refine congrArg Except.ok (Subtype.ext ?_)
  show populate (getCroppedData data offset.toNat 32) 32 = content
  rw [view,whole]

theorem deserializeBytes_ok {offset : UInt64} {content : Bytes} (found : Occurs data offset.toNat (serialiseBytes content)) :
    deserializeBytes U data offset = .ok content := by
  rw [serialiseBytes_eq] at found
  obtain ⟨head,tail⟩ := occurs_append.mp found
  have bound := occurs_bound found
  have fits := le_padded content.length
  rw [List.length_append,word_length,padRight_length] at bound
  rw [word_length] at tail
  have size : (sizeOfWord (BitVec.ofNat 256 content.length)).toNat = content.length := sizeOfWord_ofNat (by omega)
  have position : (offset + 32).toNat = offset.toNat + 32 := add_word (by omega)
  have last : ∀ len : UInt64, offset + 32 + len - 1 = offset + (31 + len) := by grind
  have ahead : (31 + sizeOfWord (BitVec.ofNat 256 content.length)).toNat = 31 + content.length := by
    rw [add_toNat (by rw [size]; simp; omega),size]
    rfl
  have valid : validOffset U data (offset + (31 + sizeOfWord (BitVec.ofNat 256 content.length))) = .ok () := by
    apply validOffset_ok bounded found
    rw [ahead,List.length_append,word_length,padRight_length]
    omega
  rw [← position] at tail
  have view := getCroppedData_occurs (occurs_append.mp tail).1
  rw [deserializeBytes,deserializeU256_ok bounded head,ok_bind,last,valid,ok_bind,size,view]

/-! ### Components -/

/-- The decoder returns the value wherever its encoding lies in the data. -/
def Decodes (U : Utilities) (data : Bytes) (T : ArgType) (x : T.Val) : Prop :=
  ∀ offset : UInt64, Occurs data offset.toNat (serialise T x) → deserialize U data T offset = .ok x

/-- One component: its value is decoded, and the rest is found after its head. -/
theorem component_decodes {T : ArgType} {x : T.Val} (decodes : Decodes U data T x) {base cursor : UInt64} {offset : Nat}
    {ps : List Part} (found : Located data base.toNat cursor.toNat offset (part T x :: ps)) :
    deserializeComponent U data T (fun o => deserialize U data T o) base cursor = .ok x ∧
      lengthOf T * 32 < 2 ^ 31 ∧
      ∃ offset', Located data base.toNat (cursor + UInt64.ofNat (lengthOf T * 32)).toNat offset' ps := by
  have bound := occurs_bound found.1
  have size := part_headSize x
  rw [heads_length,headLength,size] at bound
  have after : (cursor + UInt64.ofNat (lengthOf T * 32)).toNat = cursor.toNat + lengthOf T * 32 := by
    have head : (UInt64.ofNat (lengthOf T * 32)).toNat = lengthOf T * 32 := by
      rw [UInt64.toNat_ofNat']
      omega
    rw [add_toNat (by omega),head]
  refine ⟨?_,by omega,?_⟩
  · by_cases dynamic : abiDynamicType T = true
    · obtain ⟨head,body,_⟩ := located_dynamic dynamic found
      have bodyBound := occurs_bound body
      have target : (base + sizeOfWord (BitVec.ofNat 256 offset)).toNat = base.toNat + offset := by
        have value : (sizeOfWord (BitVec.ofNat 256 offset)).toNat = offset := sizeOfWord_ofNat (by omega)
        rw [add_toNat (by omega),value]
      rw [← target] at body
      rw [deserializeComponent,if_pos dynamic,deserializeU256_ok bounded head,ok_bind]
      exact decodes _ body
    · have static : abiDynamicType T = false := by simpa using dynamic
      rw [deserializeComponent,if_neg dynamic]
      exact decodes _ (located_static static found).1
  · rw [after,← size]
    by_cases dynamic : abiDynamicType T = true
    · have word : (part T x).headSize = 32 := by simp [part,Part.headSize,dynamic]
      rw [word]
      exact ⟨_,(located_dynamic dynamic found).2.2⟩
    · have static : abiDynamicType T = false := by simpa using dynamic
      have whole : (part T x).headSize = (part T x).body.length := by simp [part,Part.headSize,static]
      rw [whole]
      exact ⟨_,(located_static static found).2⟩

/-! ### Loops -/

omit bounded in
theorem elementCursor_next (T : ArgType) (base : UInt64) (u : Nat) :
    elementCursor T base (u + 1) = elementCursor T base u + UInt64.ofNat (lengthOf T * 32) := by
  rw [elementCursor,elementCursor,UInt64.ofNat_add,UInt64.ofNat_mul]
  grind

omit bounded in
/-- The first element is found at the start of the layout. -/
theorem elements_located {T : ArgType} {base : UInt64} {ps : List Part} (found : Occurs data base.toNat (layout ps)) :
    Located data base.toNat (elementCursor T base 0).toNat (headLength ps) ps := by
  have start : elementCursor T base 0 = base := by
    rw [elementCursor]
    grind
  rw [start]
  exact located_layout found

/-- The loop over elements that the decoder returns. -/
theorem elements_decode {T : ArgType} {base : UInt64} {xs : List T.Val} (decodes : ∀ x ∈ xs, Decodes U data T x) :
    ∀ {u offset count : Nat} (full : xs.length = count),
      Located data base.toNat (elementCursor T base u).toNat offset (xs.map (part T)) →
      deserializeElements (fun u =>
          deserializeComponent U data T (fun o => deserialize U data T o) base (elementCursor T base u)) count u =
        .ok ⟨xs,full⟩ := by
  induction xs with
  | nil =>
    rintro u offset count rfl _
    rfl
  | cons x xs ih =>
    rintro u offset count rfl found
    obtain ⟨here,later⟩ := List.forall_mem_cons.mp decodes
    obtain ⟨decoded,_,offset',rest⟩ := component_decodes bounded here found
    rw [← elementCursor_next] at rest
    have others := ih later rfl rest
    simp only [List.length_cons,deserializeElements,decoded,others,ok_bind]

/-- The loop over members that the decoder returns. -/
theorem members_decode {Ts : List ArgType} (decodes : ∀ T ∈ Ts, ∀ x, WordHeads T x → Decodes U data T x) :
    ∀ {xs : Vals Ts} {base tupleOffset : UInt64} {offset : Nat}, AllWordHeads Ts xs →
      Located data base.toNat (base + tupleOffset).toNat offset (parts Ts xs) →
      deserializeMembers U data Ts base tupleOffset = .ok xs := by
  induction Ts with
  | nil => exact fun _ _ => rfl
  | cons T Ts ih =>
    rintro ⟨x,xs⟩ base tupleOffset offset ⟨first,others⟩ found
    obtain ⟨here,later⟩ := List.forall_mem_cons.mp decodes
    obtain ⟨decoded,small,offset',rest⟩ := component_decodes bounded (here x first) found
    rw [UInt64.add_assoc] at rest
    rw [deserializeMembers,decoded,ok_bind,headBytes_small small,ok_bind,ih later others rest]
    rfl

/-- Every value whose tuples have such heads is decoded. -/
theorem decodes_of_wordHeads (T : ArgType) : ∀ x : T.Val, WordHeads T x → Decodes U data T x := by
  induction T using ArgType.induct with
  | u256 =>
    intro (u : U256) _ offset found
    have value : BitVec.ofNat 256 u.toNat = u := by simp
    have decoded : deserializeU256 U data offset = _ := deserializeU256_ok bounded found
    rwa [value] at decoded
  | s256 => exact fun i _ offset found => deserializeS256_ok bounded i found
  | bool => exact fun b _ offset found => deserializeBool_ok bounded b found
  | address => exact fun account _ offset found => deserializeAddress_ok bounded account found
  | string32 => exact fun content _ offset found => deserializeString32_ok bounded content found
  | string => exact fun content _ offset found => deserializeBytes_ok bounded found
  | bytes => exact fun content _ offset found => deserializeBytes_ok bounded found
  | vector T ih =>
    intro (xs : List T.Val) words offset found
    rw [serialise_vector] at found
    obtain ⟨head,body⟩ := occurs_append.mp found
    have bound := occurs_bound found
    have positive := lengthOf_positive T
    rw [List.length_append,word_length,layout_length,headLength_elements] at bound
    have short : xs.length ≤ xs.length * lengthOf T := Nat.le_mul_of_pos_right _ positive
    have base : (offset + 32).toNat = offset.toNat + 32 := add_word (by omega)
    have count : (sizeOfWord (BitVec.ofNat 256 xs.length)).toNat = xs.length := sizeOfWord_ofNat (by omega)
    rw [word_length,← base] at body
    have looped := elements_decode bounded (fun x member => ih x (words x member)) rfl (elements_located body)
    rw [deserialize,deserializeU256_ok bounded head,ok_bind,count,looped]
    rfl
  | array T N ih =>
    intro xs words offset found
    rw [serialise_array xs] at found
    exact elements_decode bounded (fun x member => ih x (words x member)) xs.2 (elements_located found)
  | tuple Ts ih =>
    rintro xs ⟨words,members⟩ offset found
    rw [serialise_tuple_layout xs words] at found
    have located : Located data offset.toNat (offset + 0).toNat (headLength (parts Ts xs)) (parts Ts xs) := by
      rw [UInt64.add_zero]
      exact located_layout found
    exact members_decode bounded ih members located

end

/-! ### The round trip -/

/-- `abiOut` returns the arguments that `abiIn` encoded, in less than 2^31 bytes, when
    their tuples have such heads. -/
theorem abiOut_abiIn (U : Utilities) (hash : Bytes → Bytes) {Ts : List ArgType} (xs : Vals Ts)
    (small : (layout (parts Ts xs)).length < 2 ^ 31) (words : AllWordHeads Ts xs) :
    ∃ data, abiIn hash [] Ts xs = .ok data ∧ abiOut U data Ts = .ok (some xs) := by
  have head : offsetOf Ts * 32 < 2 ^ 31 := by
    rw [layout_length,headLength_parts] at small
    omega
  refine ⟨layout (parts Ts xs),?_,?_⟩
  · rw [abiIn_eq hash xs (headBytes_small head),layout,headLength_parts]
  · have whole : Occurs (layout (parts Ts xs)) 0 (layout (parts Ts xs)) := ⟨[],[],by simp,rfl⟩
    have located : Located (layout (parts Ts xs)) (UInt64.toNat 0) (UInt64.toNat (0 + 0)) _ (parts Ts xs) :=
      located_layout whole
    have decoded := members_decode small (fun T _ => decodes_of_wordHeads (U := U) small T) words located
    rw [abiOut,abiOutAux,decoded]

/-- Two records of a number and a text, and an array of signed numbers. -/
def records : Vals [.vector (.tuple [.u256,.string]),.array .s256 2] :=
  ([((5 : U256),[65],()),((6 : U256),[],())],⟨[⟨-1,by decide⟩,⟨7,by decide⟩],rfl⟩,())

theorem abiOut_abiIn_records :
    ∃ data, abiIn id [] [.vector (.tuple [.u256,.string]),.array .s256 2] records = .ok data ∧
      abiOut Utilities.reference data [.vector (.tuple [.u256,.string]),.array .s256 2] = .ok (some records) :=
  abiOut_abiIn Utilities.reference id records (by decide +kernel)
    ⟨fun _ _ => ⟨fun _ => by simp [lengthOf],trivial,trivial,trivial⟩,fun _ _ => trivial,trivial⟩

/-- An array of texts after two numbers. -/
def wideTexts : Vals [.tuple [.array .u256 2,.array .string 1]] := ((⟨[(0 : U256),(0 : U256)],rfl⟩,⟨[[65]],rfl⟩,()),())

-- The condition is not necessary: the misplaced offset of this array is at the place that it
-- points to, so reading it twice leads to the text by accident.
example : (abiIn id [] [.tuple [.array .u256 2,.array .string 1]] wideTexts >>= fun data =>
    abiOut Utilities.reference data [.tuple [.array .u256 2,.array .string 1]]).toOption.map
      (Option.map (fun xs => (xs.1.2.1.1 : List Bytes))) = some (some [[65]]) := by
  decide +kernel

/-- An array of two numbers and a text, which is empty. -/
def wideMember : Vals [.tuple [.array .u256 2,.string]] := ((⟨[(0 : U256),(0 : U256)],rfl⟩,[],()),())

/-- The offset of the text points at its own word, 64, which is read as its length. -/
theorem abiOut_wideMember :
    (layout (parts [.tuple [.array .u256 2,.string]] wideMember)).length < 2 ^ 31 ∧
      ¬ ∃ data, abiIn id [] [.tuple [.array .u256 2,.string]] wideMember = .ok data ∧
        abiOut Utilities.reference data [.tuple [.array .u256 2,.string]] = .ok (some wideMember) := by
  refine ⟨by decide +kernel,?_⟩
  rintro ⟨data,encoded,decoded⟩
  have failed : ((abiIn id [] [.tuple [.array .u256 2,.string]] wideMember >>= fun data =>
      abiOut Utilities.reference data [.tuple [.array .u256 2,.string]]).toOption.map Option.isNone) = some true := by
    decide +kernel
  rw [encoded,ok_bind,decoded] at failed
  exact absurd failed (by decide)

end CppSdk.SolidityRoundTrip

import CppSdk.ContractABITypeCodec

/-!
The encoder against the Solidity ABI. The bytes that `serialize` appends have the
length of the encoding; they are the encoding exactly when no static member of a
struct with a dynamic member takes 2^32 bytes or more (`HeadsFit`), because
`offsetAsBytes` is an `unsigned`.
-/
namespace CppSdk.Conformance
open CppSdk.ByteString CppSdk.Runtime CppSdk.SolidityAbi CppSdk.ContractABIType CppSdk.ContractABITypeCodec

/-! ### Comparing layouts -/

/-- Parts of one shape: equally dynamic, with encodings of one length. -/
def SameShape (ps qs : List Part) : Prop :=
  List.Forall₂ (fun p q => p.dynamic = q.dynamic ∧ p.body.length = q.body.length) ps qs

theorem sameShape_headLength {ps qs : List Part} (same : SameShape ps qs) : headLength ps = headLength qs := by
  induction same with
  | nil => rfl
  | cons here later ih => simp only [headLength,Part.headSize,here.1,here.2,ih]
private theorem sameShape_tails {ps qs : List Part} (same : SameShape ps qs) : (tails ps).length = (tails qs).length := by
  induction same with
  | nil => rfl
  | cons here later ih =>
    simp only [tails,here.1]
    split <;> simp [here.2,ih]

private theorem sameShape_uniform {ps qs : List Part} (same : SameShape ps qs) {dynamic : Bool}
    (uniform : ∀ q ∈ qs, q.dynamic = dynamic) : ∀ p ∈ ps, p.dynamic = dynamic := by
  induction same with
  | nil => simp
  | cons here later ih =>
    obtain ⟨first,others⟩ := List.forall_mem_cons.mp uniform
    exact List.forall_mem_cons.mpr ⟨here.1.trans first,ih others⟩

/-- Equal layouts have equal parts and, with a dynamic part, equal first offsets. -/
theorem sameShape_layout {ps qs : List Part} (same : SameShape ps qs) :
    ∀ {off off' : Nat}, heads off ps = heads off' qs → tails ps = tails qs →
      ps = qs ∧ ((∃ p ∈ ps, p.dynamic = true) → word off = word off') := by
  induction same with
  | nil => simp
  | @cons p q ps qs here later ih =>
    intro off off' sameHeads sameTails
    obtain ⟨pDynamic,pBody⟩ := p
    obtain ⟨qDynamic,qBody⟩ := q
    obtain ⟨dynamics,lengths⟩ := here
    simp only at dynamics lengths
    subst dynamics
    by_cases dynamic : pDynamic = true
    · simp only [heads,tails,dynamic,if_true] at sameHeads sameTails
      obtain ⟨offsets,restHeads⟩ := List.append_inj sameHeads (by simp)
      obtain ⟨bodies,restTails⟩ := List.append_inj sameTails lengths
      obtain ⟨rest,_⟩ := ih restHeads restTails
      exact ⟨by rw [bodies,rest],fun _ => offsets⟩
    · simp only [heads,tails,dynamic,Bool.false_eq_true,if_false] at sameHeads sameTails
      obtain ⟨bodies,restHeads⟩ := List.append_inj sameHeads lengths
      obtain ⟨rest,offsets⟩ := ih restHeads sameTails
      refine ⟨by rw [bodies,rest],?_⟩
      rintro ⟨p,member,isDynamic⟩
      rcases List.mem_cons.mp member with rfl | inRest
      · exact absurd isDynamic dynamic
      · exact offsets ⟨p,inRest,isDynamic⟩

/-! ### The loops of the encoder -/

section
variable {U : Utilities}

/-- The encoder appends the part for the tree. -/
def Emits (U : Utilities) (v : AbstractType) (p : Part) : Prop :=
  dynamicType v = .ok p.dynamic ∧ ∀ buffer, serialize U v buffer = .ok (buffer ++ p.body)

theorem serializeU256_ofNat (n : Nat) (buffer : Bytes) :
    serializeU256 (BitVec.ofNat 256 n) buffer = buffer ++ word n := by
  rw [serializeU256,BitVec.toNat_ofNat,word_mod]

theorem serializeMembers_eq {vs : List AbstractType} {ps : List Part} (emits : List.Forall₂ (Emits U) vs ps) :
    ∀ dynamicOffset fixedBuffer dynamicBuffer, serializeMembers U vs dynamicOffset fixedBuffer dynamicBuffer =
      .ok (fixedBuffer ++ heads dynamicOffset ps,dynamicBuffer ++ tails ps) := by
  induction emits with
  | nil => simp [serializeMembers,heads,tails]
  | @cons v p vs ps here later ih =>
    intro dynamicOffset fixedBuffer dynamicBuffer
    obtain ⟨dynamics,bytes⟩ := here
    simp only [serializeMembers,bytes,dynamics,ok_bind,List.nil_append]
    by_cases dynamic : p.dynamic = true
    · simp [dynamic,ih,serializeU256_ofNat,heads,tails]
    · simp [dynamic,ih,heads,tails]

private theorem serializeElements_dynamic {vs : List AbstractType} {ps : List Part} (emits : List.Forall₂ (Emits U) vs ps)
    (dynamic : ∀ p ∈ ps, p.dynamic = true) :
    ∀ offset offsetBuffer valueBuffer, serializeElements U vs offset offsetBuffer valueBuffer =
      .ok (offsetBuffer ++ heads offset ps,valueBuffer ++ tails ps) := by
  induction emits with
  | nil => simp [serializeElements,heads,tails]
  | @cons v p vs ps here later ih =>
    intro offset offsetBuffer valueBuffer
    obtain ⟨dynamics,bytes⟩ := here
    obtain ⟨first,others⟩ := List.forall_mem_cons.mp dynamic
    simp only [serializeElements,bytes,dynamics,ok_bind,List.nil_append,first,if_true]
    simp [ih others,serializeU256_ofNat,heads,tails,first]

private theorem serializeElements_static {vs : List AbstractType} {ps : List Part} (emits : List.Forall₂ (Emits U) vs ps)
    (static : ∀ p ∈ ps, p.dynamic = false) :
    ∀ offset offsetBuffer valueBuffer, serializeElements U vs offset offsetBuffer valueBuffer =
      .ok (offsetBuffer,valueBuffer ++ heads offset ps) := by
  induction emits with
  | nil => simp [serializeElements,heads]
  | @cons v p vs ps here later ih =>
    intro offset offsetBuffer valueBuffer
    obtain ⟨dynamics,bytes⟩ := here
    obtain ⟨first,others⟩ := List.forall_mem_cons.mp static
    simp only [serializeElements,bytes,dynamics,ok_bind,List.nil_append,first,Bool.false_eq_true,if_false]
    simp [ih others,heads,first]

/-- The loop over elements that are all dynamic or all static emits their layout. -/
theorem serializeElements_eq {vs : List AbstractType} {ps : List Part} (emits : List.Forall₂ (Emits U) vs ps)
    {dynamic : Bool} (uniform : ∀ p ∈ ps, p.dynamic = dynamic) :
    ∃ offsetBuffer valueBuffer, serializeElements U vs (vs.length * 32) [] [] = .ok (offsetBuffer,valueBuffer) ∧
      offsetBuffer ++ valueBuffer = layout ps := by
  cases dynamic with
  | true =>
    refine ⟨_,_,serializeElements_dynamic emits uniform _ _ _,?_⟩
    rw [layout,headLength_dynamic uniform,emits.length_eq]
    rfl
  | false =>
    refine ⟨_,_,serializeElements_static emits uniform _ _ _,?_⟩
    rw [layout,tails_static uniform,heads_static uniform,heads_static uniform]
    simp

/-! ### The first offset of a struct -/

/-- The sizes of the heads, each cut to 32 bits. -/
def cutSizes : List Ty → Nat
  | [] => 0
  | t :: ts => t.headSize % 2 ^ 32 + cutSizes ts

theorem initialOffset_eq {vs : List AbstractType} {ts : List Ty} (typed : List.Forall₂ HeadType vs ts) :
    ∀ dynamicOffset, initialOffset dynamicOffset vs = .ok (dynamicOffset + cutSizes ts) := by
  induction typed with
  | nil => simp [initialOffset,cutSizes]
  | cons here later ih =>
    intro dynamicOffset
    simp only [initialOffset,offsetAsBytes_eq here,ok_bind,ih,cutSizes,UInt32.toNat_ofNat']
    rw [Nat.add_assoc]

/-- Cutting the sizes loses nothing exactly when every size fits 32 bits. -/
theorem cutSizes_eq (ts : List Ty) :
    cutSizes ts ≤ headSizes ts ∧ (cutSizes ts = headSizes ts ↔ ∀ t ∈ ts, t.headSize < 2 ^ 32) := by
  induction ts with
  | nil => simp [cutSizes,headSizes]
  | cons t ts ih =>
    obtain ⟨bound,exact⟩ := ih
    have cut : t.headSize % 2 ^ 32 ≤ t.headSize := Nat.mod_le _ _
    simp only [cutSizes,headSizes,List.forall_mem_cons,← exact]
    refine ⟨by omega,?_,?_⟩
    · intro same
      have here : t.headSize % 2 ^ 32 = t.headSize := by omega
      have small := Nat.mod_lt t.headSize (show 0 < 2 ^ 32 by decide)
      exact ⟨by omega,by omega⟩
    · rintro ⟨small,same⟩
      rw [Nat.mod_eq_of_lt small,same]

/-! ### What the encoder appends -/

mutual
/-- In every struct with a dynamic member, each static member takes less than 2^32
    bytes in the head. -/
def HeadsFit : Ty → Value → Prop
  | .list t, .seq xs => AllFit (List.replicate xs.length t) xs
  | .fixed t count, .seq xs => AllFit (List.replicate count t) xs
  | .tuple ts, .seq xs =>
    (anyDynamic ts = true → ∀ t ∈ ts, t.dynamic = false → t.headSize < 2 ^ 32) ∧ AllFit ts xs
  | _, _ => True
/-- The components fit. -/
def AllFit : List Ty → List Value → Prop
  | t :: ts, x :: xs => HeadsFit t x ∧ AllFit ts xs
  | _, _ => True
end

private theorem allFit_of_small {ts : List Ty} {xs : List Value} (count : ts.length = xs.length)
    (each : ∀ p ∈ ts.zip xs, (enc p.1 p.2).length < 2 ^ 32 → HeadsFit p.1 p.2)
    (small : (layout (parts ts xs)).length < 2 ^ 32) : AllFit ts xs := by
  have bodies : ∀ p ∈ ts.zip xs, HeadsFit p.1 p.2 := by
    intro p member
    have inParts : ⟨p.1.dynamic,enc p.1 p.2⟩ ∈ parts ts xs := by
      rw [parts_eq]
      exact List.mem_map_of_mem member
    have bound := body_length_le inParts
    exact each p member (Nat.lt_of_le_of_lt bound small)
  have pairs := pairwise_of_zip count bodies
  clear count each small bodies
  induction pairs with
  | nil => simp [AllFit]
  | cons here later ih => exact ⟨here,ih⟩

/-- In an encoding of less than 2^32 bytes every head fits. -/
theorem headsFit_of_small {t : Ty} {x : Value} (typed : Typed t x) : (enc t x).length < 2 ^ 32 → HeadsFit t x := by
  induction typed with
  | @list element xs each ih =>
    intro small
    rw [enc,List.length_append] at small
    exact allFit_of_small (by simp)
      (each_replicate (P := fun t x => (enc t x).length < 2 ^ 32 → HeadsFit t x) ih) (by omega)
  | @fixed element count xs full each ih =>
    intro small
    rw [enc] at small
    exact allFit_of_small (by simp [full])
      (each_replicate (P := fun t x => (enc t x).length < 2 ^ 32 → HeadsFit t x) ih) small
  | @tuple ts xs count each ih =>
    intro small
    rw [enc] at small
    refine ⟨fun _ t member _ => ?_,allFit_of_small count ih small⟩
    have first := headLength_parts count (fun p inZip static => enc_length_static (each p inZip) static)
    have bound := headSize_le member
    rw [layout_length,first] at small
    omega
  | _ => exact fun _ => trivial

/-- What the encoder appends for a tree, against the encoding of its value. -/
structure Appends (U : Utilities) (v : AbstractType) (t : Ty) (x : Value) (out : Bytes) : Prop where
  emits : Emits U v ⟨t.dynamic,out⟩
  size : out.length = (enc t x).length
  sound : HeadsFit t x → out = enc t x
  complete : (enc t x).length < 2 ^ 64 → out = enc t x → HeadsFit t x

/-- The parts that the encoder makes of the components, against those of the value. -/
theorem emitted_parts {vs : List AbstractType} {ts : List Ty} {xs : List Value}
    (rows : Rows (fun v t x => ∃ out, Appends U v t x out) vs ts xs) :
    ∃ ps, List.Forall₂ (Emits U) vs ps ∧ SameShape ps (parts ts xs) ∧ (AllFit ts xs → ps = parts ts xs) ∧
      ((∀ p ∈ parts ts xs, p.body.length < 2 ^ 64) → ps = parts ts xs → AllFit ts xs) := by
  induction rows with
  | nil => exact ⟨[],.nil,.nil,fun _ => rfl,fun _ _ => by simp [AllFit]⟩
  | @cons v t x vs ts xs here later ih =>
    obtain ⟨out,appends⟩ := here
    obtain ⟨ps,emits,same,sound,complete⟩ := ih
    refine ⟨⟨t.dynamic,out⟩ :: ps,.cons appends.emits emits,.cons ⟨rfl,appends.size⟩ same,?_,?_⟩
    · rw [AllFit]
      rintro ⟨fits,others⟩
      rw [parts,appends.sound fits,sound others]
    · intro small equal
      simp only [parts,List.forall_mem_cons,List.cons.injEq,SolidityAbi.Part.mk.injEq,true_and] at small equal
      exact ⟨appends.complete small.1 equal.1,complete small.2 equal.2⟩

/-- Elements of one type: the encoder emits their layout. -/
theorem appends_elements {vs : List AbstractType} {t : Ty} {xs : List Value} (count : vs.length = xs.length)
    (each : ∀ p ∈ vs.zip xs, ∃ out, Appends U p.1 t p.2 out) :
    ∃ offsetBuffer valueBuffer out, serializeElements U vs (vs.length * 32) [] [] = .ok (offsetBuffer,valueBuffer) ∧
      offsetBuffer ++ valueBuffer = out ∧ out.length = (layout (parts (List.replicate xs.length t) xs)).length ∧
      (AllFit (List.replicate xs.length t) xs → out = layout (parts (List.replicate xs.length t) xs)) ∧
      ((layout (parts (List.replicate xs.length t) xs)).length < 2 ^ 64 →
        out = layout (parts (List.replicate xs.length t) xs) → AllFit (List.replicate xs.length t) xs) := by
  obtain ⟨ps,emits,same,sound,complete⟩ :=
    emitted_parts (rows_replicate (R := fun v t x => ∃ out, Appends U v t x out) count each)
  have uniform : ∀ p ∈ parts (List.replicate xs.length t) xs, p.dynamic = t.dynamic :=
    parts_dynamic (fun u member => by rw [List.eq_of_mem_replicate member])
  obtain ⟨offsetBuffer,valueBuffer,looped,out⟩ := serializeElements_eq emits (sameShape_uniform same uniform)
  refine ⟨offsetBuffer,valueBuffer,layout ps,looped,out,?_,?_,?_⟩
  · rw [layout_length,layout_length,sameShape_headLength same,sameShape_tails same]
  · intro fits
    rw [sound fits]
  · intro small equal
    obtain ⟨sameHeads,sameTails⟩ := List.append_inj equal (by simp [sameShape_headLength same])
    exact complete (fun p member => by have := body_length_le member; omega) (sameShape_layout same sameHeads sameTails).1

/-- The encoder appends bytes of the length of the encoding, which are the encoding
    exactly when the heads fit. -/
theorem appends_of_denotes (documented : U.Documented) {limit : Nat} {v : AbstractType} {t : Ty} {x : Value}
    (denotes : Denotes limit v t x) : ∃ out, Appends U v t x out := by
  induction denotes with
  | boolean name b =>
    refine ⟨_,⟨rfl,fun buffer => rfl⟩,by simp [enc],fun _ => ?_,fun _ _ => trivial⟩
    cases b <;> rfl
  | uint name extent u => exact ⟨_,⟨rfl,fun buffer => rfl⟩,by simp [enc],fun _ => rfl,fun _ _ => trivial⟩
  | int name extent low high =>
    refine ⟨word (s2u _).toNat,⟨rfl,fun buffer => rfl⟩,by simp [enc],fun _ => ?_,fun _ _ => trivial⟩
    rw [s2u_toNat,enc]
  | @fixedBytes name fixedN content exact =>
    have bound := fixedN.2.2
    have positive := fixedN.2.1
    have room : padded content.length = 32 := by unfold padded; omega
    have small : ¬ 32 < content.length := by omega
    refine ⟨padRight content,⟨rfl,fun buffer => ?_⟩,rfl,fun _ => rfl,fun _ _ => trivial⟩
    rw [serialize,serializeBytesN,if_neg small,padRight,room]
  | @addr name account exact =>
    refine ⟨word (fromBigEndian account),⟨rfl,fun buffer => ?_⟩,rfl,fun _ => rfl,fun _ _ => trivial⟩
    rw [serialize,documented.address_reads account exact]
    simp only [serializeAddress]
    rw [word_fromBigEndian (by omega),exact]
  | string name content =>
    refine ⟨word content.length ++ padRight content,⟨rfl,fun buffer => ?_⟩,rfl,fun _ => rfl,fun _ _ => trivial⟩
    rw [serialize,serializeBytes_eq]
  | dynamicBytes name content =>
    refine ⟨word content.length ++ padRight content,⟨rfl,fun buffer => ?_⟩,rfl,fun _ => rfl,fun _ _ => trivial⟩
    rw [serialize,serializeBytes_eq]
  | @dynamicList name vs t xs count short each ih =>
    obtain ⟨offsetBuffer,valueBuffer,out,looped,rfl,size,sound,complete⟩ := appends_elements count ih
    refine ⟨word vs.length ++ (offsetBuffer ++ valueBuffer),⟨rfl,fun buffer => ?_⟩,?_,?_,?_⟩
    · simp [serialize,looped,serializeU256_ofNat]
    · simp only [enc,List.length_append,word_length] at size ⊢
      omega
    · intro fits
      rw [sound fits,enc,count]
    · intro small equal
      rw [enc,List.length_append] at small
      rw [enc,count] at equal
      rw [HeadsFit]
      exact complete (by omega) (List.append_cancel_left equal)
  | @fixedList name dimension vs t xs full nonempty count each ih =>
    obtain ⟨offsetBuffer,valueBuffer,out,looped,rfl,size,sound,complete⟩ := appends_elements count ih
    have dynamics := dynamicType_eq (denotes_headType (.fixedList name full nonempty count each))
    have filled : dimension.toNat = xs.length := by omega
    refine ⟨offsetBuffer ++ valueBuffer,⟨dynamics,fun buffer => ?_⟩,?_,?_,?_⟩
    · simp [serialize,looped]
    · rw [enc,filled,size]
    · intro fits
      rw [HeadsFit,filled] at fits
      rw [sound fits,enc,filled]
    · intro small equal
      rw [enc,filled] at small equal
      rw [HeadsFit,filled]
      exact complete small equal
  | @struct name vs ts xs types count each ih =>
    have dynamics := dynamicType_eq (denotes_headType (.struct name types count each))
    obtain ⟨ps,emits,same,sound,complete⟩ :=
      emitted_parts (rows_of_zip (R := fun v t x => ∃ out, Appends U v t x out) types count ih)
    have typed : List.Forall₂ HeadType vs ts := by
      cases denotes_headType (.struct name types count each) with
      | struct _ sizes members => exact pairwise_of_zip sizes members
    have components : ∀ p ∈ ts.zip xs, Typed p.1 p.2 :=
      (rows_of_zip (R := fun _ t x => Typed t x) types count (fun p member => denotes_typed (each p member))).zip_right
    have first : headLength (parts ts xs) = headSizes ts :=
      headLength_parts count (fun p member static => enc_length_static (components p member) static)
    refine ⟨heads (cutSizes ts) ps ++ tails ps,⟨dynamics,fun buffer => ?_⟩,?_,?_,?_⟩
    · simp [serialize,initialOffset_eq typed,serializeMembers_eq emits]
    · rw [enc,layout_length,List.length_append,heads_length,sameShape_headLength same,sameShape_tails same]
    · rw [HeadsFit]
      rintro ⟨fit,others⟩
      rw [sound others,enc,layout,first]
      by_cases dynamic : anyDynamic ts = true
      · have all : ∀ t ∈ ts, t.headSize < 2 ^ 32 := by
          intro t member
          by_cases isDynamic : t.dynamic = true
          · rw [headSize_of_dynamic isDynamic]; omega
          · exact fit dynamic t member (by simpa using isDynamic)
        rw [(cutSizes_eq ts).2.mpr all]
      · have static : ∀ p ∈ parts ts xs, p.dynamic = false :=
          parts_dynamic (anyDynamic_eq_false.mp (by simpa using dynamic))
        rw [heads_static static,heads_static static]
    · intro small equal
      rw [enc] at small equal
      obtain ⟨sameHeads,sameTails⟩ := List.append_inj equal (by simp [sameShape_headLength same])
      obtain ⟨sameParts,offsets⟩ := sameShape_layout same sameHeads sameTails
      rw [HeadsFit]
      refine ⟨fun dynamic t member static => ?_,?_⟩
      · have bound := layout_length (parts ts xs)
        have cut := (cutSizes_eq ts).1
        have words := offsets (by rw [sameParts]; exact parts_anyDynamic count dynamic)
        rw [first] at words bound
        exact (cutSizes_eq ts).2.mp (word_injective (by omega) (by omega) words) t member
      · exact complete (fun p member => by have := body_length_le member; omega) sameParts

/-! ### Conformance -/

/-- The encoder conforms on a tree: it appends the encoding, a whole number of words;
    `dynamicType()` is right; `offsetAsBytes()` of a static tree is its length. -/
def Conforms (U : Utilities) (v : AbstractType) (t : Ty) (x : Value) : Prop :=
  ∀ buffer, ∃ out, serialize U v buffer = .ok (buffer ++ out) ∧ out = enc t x ∧ 32 ∣ out.length ∧
    dynamicType v = .ok t.dynamic ∧
    (t.dynamic = false → ∃ size, offsetAsBytes v = .ok size ∧ size.toNat = out.length)

private theorem conforms_fits (documented : U.Documented) {limit : Nat} {v : AbstractType} {t : Ty} {x : Value}
    (denotes : Denotes limit v t x) (size : (enc t x).length < 2 ^ 64) (conforms : Conforms U v t x) :
    HeadsFit t x ∧ (t.dynamic = false → t.headSize < 2 ^ 32) := by
  obtain ⟨out,appends⟩ := appends_of_denotes documented denotes
  obtain ⟨out',appended,encoded,_,_,lengths⟩ := conforms []
  have same : out' = out := by simpa [appends.emits.2] using appended.symm
  refine ⟨appends.complete size (same ▸ encoded),fun static => ?_⟩
  obtain ⟨n,computed,exact⟩ := lengths static
  rw [encoded,enc_length_static (denotes_typed denotes) static] at exact
  rw [offsetAsBytes_eq (denotes_headType denotes),Except.ok.injEq] at computed
  rw [← exact]
  exact n.toNat_lt

private theorem fits_conforms (documented : U.Documented) {limit : Nat} {v : AbstractType} {t : Ty} {x : Value}
    (denotes : Denotes limit v t x) (fits : HeadsFit t x) (small : t.dynamic = false → t.headSize < 2 ^ 32) :
    Conforms U v t x := by
  obtain ⟨out,appends⟩ := appends_of_denotes documented denotes
  have typed := denotes_typed denotes
  have offset := offsetAsBytes_eq (denotes_headType denotes)
  intro buffer
  refine ⟨out,appends.emits.2 buffer,appends.sound fits,?_,appends.emits.1,fun static => ⟨_,offset,?_⟩⟩
  · rw [appends.size]
    exact enc_dvd typed
  · rw [appends.size,enc_length_static typed static,UInt32.toNat_ofNat']
    exact Nat.mod_eq_of_lt (small static)

/-- The encoder conforms on a tree exactly when a static tree takes less than 2^32 bytes
    and so does every static member of a struct with a dynamic member. -/
theorem serialize_conforms (documented : U.Documented) {limit : Nat} {v : AbstractType} {t : Ty} {x : Value}
    (denotes : Denotes limit v t x) (size : (enc t x).length < 2 ^ 64) :
    Conforms U v t x ↔ HeadsFit t x ∧ (t.dynamic = false → t.headSize < 2 ^ 32) :=
  ⟨conforms_fits documented denotes size,
    fun ⟨fits,small⟩ => fits_conforms documented denotes fits small⟩

/-- A struct of the number 7 and of the list of the strings "A" and "". -/
theorem serialize_conforms_struct :
    Conforms Utilities.reference
      (.struct [] [.uint [] ⟨256,by decide⟩ 7,.dynamicList [] [.string [] (lit "A"),.string [] []]])
      (.tuple [.uint 256,.list .string]) (.seq [.nat 7,.seq [.bytes (lit "A"),.bytes []]]) := by
  have denotes : Denotes (2 ^ 64) (.struct [] [.uint [] ⟨256,by decide⟩ 7,.dynamicList [] [.string [] (lit "A"),.string [] []]])
      (.tuple [.uint 256,.list .string]) (.seq [.nat 7,.seq [.bytes (lit "A"),.bytes []]]) := by
    refine .struct [] rfl rfl ?_
    simp only [List.zip_cons_cons,List.forall_mem_cons]
    refine ⟨.uint [] ⟨256,by decide⟩ 7,.dynamicList [] rfl (by decide) ?_,by simp⟩
    simp only [List.zip_cons_cons,List.forall_mem_cons]
    exact ⟨.string [] _,.string [] _,by simp⟩
  refine (serialize_conforms reference_documented denotes (by decide +kernel)).mpr ⟨⟨fun _ t member static => ?_,?_⟩,fun static => by cases static⟩
  · rcases List.mem_pair.mp member with rfl | rfl
    · decide
    · cases static
  · exact ⟨trivial,⟨trivial,trivial,trivial⟩,trivial⟩

/-- A struct of `uint256[count]` and an empty `string`. -/
def wideStruct (count : UInt32) : AbstractType :=
  .struct [] [.fixedList [] count (List.replicate count.toNat (.uint [] ⟨256,by decide⟩ 0)),.string [] []]
/-- Its type. -/
def wideTy (count : UInt32) : Ty := .tuple [.fixed (.uint 256) count.toNat,.string]
/-- Its value. -/
def wideValue (count : UInt32) : Value := .seq [.seq (List.replicate count.toNat (.nat 0)),.bytes []]

private theorem wideStruct_denotes (limit : Nat) {count : UInt32} (positive : 0 < count.toNat) :
    Denotes limit (wideStruct count) (wideTy count) (wideValue count) := by
  refine .struct [] rfl rfl ?_
  simp only [List.zip_cons_cons,List.forall_mem_cons]
  refine ⟨.fixedList [] (by simp) positive (by simp) ?_,.string [] [],by simp⟩
  intro p member
  obtain ⟨inTrees,inValues⟩ := List.of_mem_zip member
  rw [List.eq_of_mem_replicate inTrees,List.eq_of_mem_replicate inValues]
  exact .uint [] _ 0

private theorem wideValue_length {count : UInt32} (positive : 0 < count.toNat) :
    (enc (wideTy count) (wideValue count)).length = count.toNat * 32 + 64 := by
  have typed := denotes_typed (wideStruct_denotes 1 positive)
  cases typed with
  | tuple sizes each =>
    have first := headLength_parts sizes (fun p member static => enc_length_static (each p member) static)
    simp only [wideTy,wideValue,enc,layout_length,first]
    simp [parts,tails,headSizes,Ty.headSize,Ty.dynamic,enc,padRight,padded]

/-- With 2^27 elements the static member takes 2^32 bytes, and the offset of the string
    does not count them. -/
theorem serialize_wideStruct :
    Denotes (2 ^ 64) (wideStruct 134217728) (wideTy 134217728) (wideValue 134217728) ∧
      ¬ Conforms Utilities.reference (wideStruct 134217728) (wideTy 134217728) (wideValue 134217728) := by
  have denotes := wideStruct_denotes (2 ^ 64) (show 0 < (134217728 : UInt32).toNat by decide)
  refine ⟨denotes,fun conforms => ?_⟩
  have size := wideValue_length (show 0 < (134217728 : UInt32).toNat by decide)
  have count : (134217728 : UInt32).toNat = 134217728 := by decide
  obtain ⟨fits,_⟩ := conforms_fits reference_documented denotes (by omega) conforms
  rw [wideTy,wideValue,HeadsFit] at fits
  have small := fits.1 rfl (.fixed (.uint 256) (134217728 : UInt32).toNat) (by simp) rfl
  simp only [Ty.headSize,Ty.dynamic,Bool.false_eq_true,if_false] at small
  omega

end

end CppSdk.Conformance

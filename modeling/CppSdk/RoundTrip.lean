import CppSdk.HeadPositions

/-!
The round trip of the codec. Where the encoding of a value lies in a buffer with its
heads below 2^31, the decoder fills any template of its type with a tree that stands
for the value. The loops keep the heads of the remaining components at the cursor and
their tails at the next offset (`Located`).
-/
namespace CppSdk.RoundTrip
open CppSdk.ByteString CppSdk.Runtime CppSdk.SolidityAbi CppSdk.ContractABIType CppSdk.ContractABITypeCodec
open CppSdk.Conformance CppSdk.HeadPositions

/-! ### Reading words and bytes -/

section
variable {U : Utilities} {ndebug : Bool} {buffer : Bytes} (bounded : buffer.length < 2 ^ 63 - 1)
include bounded

private theorem verifyBufferOffset_ok {offset : UInt64} {part : Bytes} (found : Occurs buffer offset.toNat part)
    {ahead : UInt64} (inside : ahead.toNat < part.length) : verifyBufferOffset U buffer (offset + ahead) = .ok () := by
  have bound := occurs_bound found
  rw [verifyBufferOffset,add_toNat (by omega),if_neg (by omega)]

private theorem verifyBufferOffset_word {offset : UInt64} {content : Bytes} (size : content.length = 32)
    (found : Occurs buffer offset.toNat content) : verifyBufferOffset U buffer (offset + 32 - 1) = .ok () := by
  rw [last_word]
  exact verifyBufferOffset_ok bounded found (by rw [size]; decide)

theorem deserializeU256_ok {offset : UInt64} {n : Nat} (found : Occurs buffer offset.toNat (word n)) :
    deserializeU256 U buffer offset = .ok (BitVec.ofNat 256 n) := by
  rw [deserializeU256,verifyBufferOffset_word bounded (word_length n) found,ok_bind,getCroppedData_word found]

theorem deserializeAddress_ok {offset : UInt64} {account : Bytes} (exact : account.length = 20)
    (found : Occurs buffer offset.toNat (word (fromBigEndian account))) :
    deserializeAddress U buffer offset = .ok account := by
  have start : offset + 32 - 20 = offset + 12 := by grind
  have verified := verifyBufferOffset_word (U := U) bounded (word_length _) found
  have bound := occurs_bound found
  rw [word_fromBigEndian (by omega),exact] at found
  rw [word_length] at bound
  have position : (offset + 12).toNat = offset.toNat + 12 := add_toNat (by simp; omega)
  have content := (occurs_append.mp found).2
  rw [List.length_replicate,← position] at content
  have view := getCroppedData_occurs content
  rw [exact] at view
  have whole := populate_exact account
  rw [exact] at whole
  rw [deserializeAddress,verified,ok_bind,start,view,whole]

private theorem deserializeBytesN_ok {offset : UInt64} {content : Bytes} (positive : 0 < content.length)
    (small : content.length ≤ 32) (found : Occurs buffer offset.toNat (padRight content)) :
    deserializeBytesN U buffer offset content.length = .ok content := by
  have size : (padRight content).length = 32 := by
    rw [padRight_length,padded]
    omega
  have view := getCroppedData_occurs (occurs_append.mp found).1
  rw [deserializeBytesN,if_neg (by omega),verifyBufferOffset_word bounded size found,ok_bind,view]

theorem deserializeBytes_ok {offset : UInt64} {content : Bytes}
    (found : Occurs buffer offset.toNat (word content.length ++ padRight content)) :
    ∃ use, deserializeBytes U buffer offset = .ok (content,use) := by
  obtain ⟨head,tail⟩ := occurs_append.mp found
  have bound := occurs_bound found
  have fits := le_padded content.length
  rw [List.length_append,word_length,padRight_length] at bound
  rw [word_length] at tail
  have size : (sizeOfWord (BitVec.ofNat 256 content.length)).toNat = content.length := sizeOfWord_ofNat (by omega)
  have position : (offset + 32).toNat = offset.toNat + 32 := add_word (by omega)
  have last : ∀ len : UInt64, offset + 32 + len - 1 = offset + (31 + len) := by grind
  have ahead : (31 + sizeOfWord (BitVec.ofNat 256 content.length)).toNat = 31 + content.length := by
    rw [add_toNat (by rw [size]; simp; omega),size]
    rfl
  have verified : verifyBufferOffset U buffer (offset + (31 + sizeOfWord (BitVec.ofNat 256 content.length))) = .ok () := by
    refine verifyBufferOffset_ok bounded found ?_
    rw [ahead,List.length_append,word_length,padRight_length]
    omega
  rw [← position] at tail
  have view := getCroppedData_occurs (occurs_append.mp tail).1
  refine ⟨.length offset (BitVec.ofNat 256 content.length) content,?_⟩
  rw [deserializeBytes,deserializeU256_ok bounded head,ok_bind,last,verified,ok_bind,size,view]

/-! ### Loops -/

/-- The tree decodes the encoding of the value, wherever it lies in the buffer with its
    heads below 2^31. -/
def Decodes (U : Utilities) (ndebug : Bool) (buffer : Bytes) (limit : Nat) (v : AbstractType) (t : Ty) (x : Value) :
    Prop :=
  ∀ offset : UInt64, Occurs buffer offset.toNat (enc t x) → Near t x offset.toNat →
    ∃ out uses, deserializeUses U ndebug buffer v offset = .ok (out,uses) ∧ Denotes limit out t x

/-- The check lets the offsets in a buffer pass. -/
def Lenient (check : OffsetCheck) : Prop := ∀ n, 0 < n → n < 2 ^ 63 - 1 → check (BitVec.ofNat 256 n) = .ok ()

omit bounded in
private theorem lenient_element (ndebug : Bool) : Lenient (checkElementOffset ndebug) := by
  intro n positive small
  have value : n % 2 ^ 256 = n := Nat.mod_eq_of_lt (by omega)
  simp only [checkElementOffset,assert,BitVec.toNat_ofNat,value,small,decide_true,Bool.or_true,if_true]
omit bounded in
private theorem lenient_member (ndebug : Bool) : Lenient (checkMemberOffset ndebug) := by
  intro n positive small
  have value : n % 2 ^ 256 = n := Nat.mod_eq_of_lt (by omega)
  simp only [checkMemberOffset,assert,BitVec.toNat_ofNat,value,positive,small,and_self,decide_true,Bool.or_true,if_true]

omit bounded in
private theorem lenient_none : Lenient (fun _ => .ok ()) := fun _ _ _ => rfl

/-- One component: its tree stands for the value, and the rest is found after it. -/
theorem component_decodes {limit : Nat} {v : AbstractType} {t : Ty} {x : Value} (decodes : Decodes U ndebug buffer limit v t x)
    {check : OffsetCheck} (lenient : Lenient check) {base cursor : UInt64} {offset : Nat} {ts : List Ty} {xs : List Value}
    (found : Located buffer base.toNat cursor.toNat offset (parts (t :: ts) (x :: xs)))
    (near : NearParts base.toNat (t :: ts) (x :: xs) cursor.toNat offset) (positive : t.dynamic = true → 0 < offset) :
    ∃ out uses, ∃ after : UInt64, ∃ offset' ≥ offset,
      deserializeComponent U buffer (fun o => deserializeUses U ndebug buffer v o) (.ok t.dynamic) check base
        (cursorAt cursor) = .ok (out,uses,cursorAt after) ∧ Denotes limit out t x ∧
      Located buffer base.toNat after.toNat offset' (parts ts xs) ∧ NearParts base.toNat ts xs after.toNat offset' := by
  rw [parts] at found
  by_cases dynamic : t.dynamic = true
  · obtain ⟨head,body,rest⟩ := located_dynamic dynamic found
    obtain ⟨low,inside,later⟩ := nearParts_dynamic dynamic near
    have headBound := occurs_bound head
    have bodyBound := occurs_bound body
    rw [word_length] at headBound
    have place : (cursorAt cursor).position = cursor := cursorAt_position low
    have value : (sizeOfWord (BitVec.ofNat 256 offset)).toNat = offset := sizeOfWord_ofNat (by omega)
    have target : (base + sizeOfWord (BitVec.ofNat 256 offset)).toNat = base.toNat + offset := by
      rw [add_toNat (by omega),value]
    rw [← target] at body inside
    obtain ⟨out,uses,decoded,denotes⟩ := decodes _ body inside
    have size := offsetAsBytes_eq (denotes_headType denotes)
    rw [headSize_of_dynamic dynamic] at size
    have after : (cursor + 32).toNat = cursor.toNat + 32 := add_word (by omega)
    refine ⟨out,.offset base (BitVec.ofNat 256 offset) :: uses,cursor + 32,offset + (enc t x).length,
      Nat.le_add_right _ _,?_,denotes,?_⟩
    · simp only [deserializeComponent,dynamic,ok_bind,if_true,place,deserializeU256_ok bounded head,
        lenient offset (positive dynamic) (by omega),decoded,size,cursorAt_advance]
      rfl
    · rw [after]
      exact ⟨rest,later⟩
  · have static : t.dynamic = false := by simpa using dynamic
    obtain ⟨body,rest⟩ := located_static static found
    obtain ⟨low,inside,later⟩ := nearParts_static static near
    have bodyBound := occurs_bound body
    have place : (cursorAt cursor).position = cursor := cursorAt_position low
    obtain ⟨out,uses,decoded,denotes⟩ := decodes _ body inside
    have ends := endsNear_of_typed (denotes_typed denotes) static cursor.toNat inside low
    have size := offsetAsBytes_eq (denotes_headType denotes)
    rw [← enc_length_static (denotes_typed denotes) static] at size
    have after : (cursor + (UInt32.ofNat (enc t x).length).toUInt64).toNat = cursor.toNat + (enc t x).length := by
      rw [UInt64.toNat_add,UInt32.toNat_toUInt64,UInt32.toNat_ofNat']
      omega
    refine ⟨out,uses,cursor + (UInt32.ofNat (enc t x).length).toUInt64,offset,Nat.le_refl _,?_,denotes,?_⟩
    · simp only [deserializeComponent,dynamic,ok_bind,place,decoded,size,cursorAt_advance]
      rfl
    · rw [after]
      exact ⟨rest,later⟩

/-- The loop of `T[]` over elements that the template decodes. -/
theorem elements_decode {limit : Nat} {v : AbstractType} {t : Ty} {xs : List Value} {check : OffsetCheck}
    (lenient : Lenient check) (cloned : xs ≠ [] → clone v = .ok v) (dynamics : dynamicType v = .ok t.dynamic)
    {base : UInt64} (decodes : ∀ x ∈ xs, Decodes U ndebug buffer limit v t x) :
    ∀ {cursor : UInt64} {offset : Nat}, (t.dynamic = true → xs ≠ [] → 0 < offset) →
      Located buffer base.toNat cursor.toNat offset (parts (List.replicate xs.length t) xs) →
      NearParts base.toNat (List.replicate xs.length t) xs cursor.toNat offset →
      ∃ outs uses, deserializeElements (fun cursor => do
          let _ ← clone v
          deserializeComponent U buffer (fun o => deserializeUses U ndebug buffer v o) (dynamicType v) check base cursor)
        xs.length (cursorAt cursor) = .ok (outs,uses) ∧
        List.Forall₂ (fun out x => Denotes limit out t x) outs xs := by
  induction xs with
  | nil => exact fun _ _ _ => ⟨[],[],rfl,.nil⟩
  | cons x xs ih =>
    intro cursor offset positive found near
    obtain ⟨first,others⟩ := List.forall_mem_cons.mp decodes
    have copied := cloned (by simp)
    obtain ⟨out,uses,after,offset',later,decoded,denotes,rest,ahead⟩ :=
      component_decodes bounded first lenient found near (fun dynamic => positive dynamic (by simp))
    obtain ⟨outs,more,looped,all⟩ := ih (fun _ => copied) others
      (fun dynamic _ => Nat.lt_of_lt_of_le (positive dynamic (by simp)) later) rest ahead
    refine ⟨out :: outs,uses ++ more,?_,.cons denotes all⟩
    simp only [copied,dynamics,ok_bind] at looped ⊢
    simp only [List.length_cons,deserializeElements,decoded,ok_bind,looped]

/-- The loop over the members of a fixed list or of a struct. -/
theorem members_decode {limit : Nat} {vs : List AbstractType} {ts : List Ty} {xs : List Value} {check : OffsetCheck}
    (lenient : Lenient check) {base : UInt64}
    (rows : Rows (fun v t x => dynamicType v = .ok t.dynamic ∧ Decodes U ndebug buffer limit v t x) vs ts xs) :
    ∀ {cursor : UInt64} {offset : Nat}, (anyDynamic ts = true → 0 < offset) →
      Located buffer base.toNat cursor.toNat offset (parts ts xs) → NearParts base.toNat ts xs cursor.toNat offset →
      ∃ outs uses, deserializeMembers U ndebug buffer check base vs vs.length (cursorAt cursor) = .ok (outs,uses) ∧
        Rows (Denotes limit) outs ts xs := by
  induction rows with
  | nil => exact fun _ _ _ => ⟨[],[],rfl,.nil⟩
  | @cons v t x vs ts xs here later ih =>
    intro cursor offset positive found near
    obtain ⟨dynamics,decodes⟩ := here
    obtain ⟨out,uses,after,offset',next,decoded,denotes,rest,ahead⟩ :=
      component_decodes bounded decodes lenient found near (fun dynamic => positive (by simp [anyDynamic,dynamic]))
    obtain ⟨outs,more,looped,all⟩ :=
      ih (fun dynamic => Nat.lt_of_lt_of_le (positive (by simp [anyDynamic,dynamic])) next) rest ahead
    refine ⟨out :: outs,uses ++ more,?_,.cons denotes all⟩
    simp only [List.length_cons,deserializeMembers,dynamics,decoded,ok_bind,looped]

/-! ### Trees -/

omit bounded in
/-- The most elements a list can have: with asserts `INT_MAX` bounds them, without
    the range of a `size_t`. -/
def countLimit (ndebug : Bool) : Nat := if ndebug then 2 ^ 64 else 2 ^ 31 - 1

omit bounded in
/-- A tree that the decoder can fill with the value: the template of a list is cloned for
    each element that the value has. -/
inductive Fillable : AbstractType → Ty → Value → Prop where
  | boolean (name : Bytes) (b : Bool) (x : Value) : Fillable (.boolean name b) .bool x
  | uint (name : Bytes) (extent : Extent) (u : U256) (x : Value) : Fillable (.uint name extent u) (.uint extent.1) x
  | int (name : Bytes) (extent : Extent) (i : Int) (x : Value) : Fillable (.int name extent i) (.int extent.1) x
  | fixedBytes (name : Bytes) (fixedN : FixedN) (content : Bytes) (x : Value) :
      Fillable (.fixedBytes name fixedN content) (.bytesN fixedN.1) x
  | addr (name text : Bytes) (x : Value) : Fillable (.addr name text) .address x
  | string (name content : Bytes) (x : Value) : Fillable (.string name content) .string x
  | dynamicBytes (name content : Bytes) (x : Value) : Fillable (.dynamicBytes name content) .bytes x
  | dynamicList (name : Bytes) {element : AbstractType} {others : List AbstractType} {t : Ty} {xs : List Value}
      (headed : HeadType element t) (exact : xs ≠ [] → Exact element) (each : ∀ x ∈ xs, Fillable element t x) :
      Fillable (.dynamicList name (element :: others)) (.list t) (.seq xs)
  | fixedList (name : Bytes) {dimension : UInt32} {vs : List AbstractType} {t : Ty} {xs : List Value}
      (full : vs.length = dimension.toNat) (nonempty : 0 < dimension.toNat) (count : vs.length = xs.length)
      (each : ∀ p ∈ vs.zip xs, Fillable p.1 t p.2) :
      Fillable (.fixedList name dimension vs) (.fixed t dimension.toNat) (.seq xs)
  | struct (name : Bytes) {vs : List AbstractType} {ts : List Ty} {xs : List Value} (types : vs.length = ts.length)
      (count : ts.length = xs.length) (each : ∀ p ∈ vs.zip (ts.zip xs), Fillable p.1 p.2.1 p.2.2) :
      Fillable (.struct name vs) (.tuple ts) (.seq xs)

omit bounded in
private theorem fillable_headType {w : AbstractType} {t : Ty} {x : Value} (fillable : Fillable w t x) : HeadType w t := by
  induction fillable with
  | boolean name b x => exact .boolean name b
  | uint name extent u x => exact .uint name extent u
  | int name extent i x => exact .int name extent i
  | fixedBytes name fixedN content x => exact .fixedBytes name fixedN content
  | addr name text x => exact .addr name text
  | string name content x => exact .string name content
  | dynamicBytes name content x => exact .dynamicBytes name content
  | dynamicList name headed exact' each ih => exact .dynamicList name _ _
  | fixedList name full nonempty count each ih => exact .fixedList name full nonempty (zip_left count ih)
  | struct name types count each ih =>
    exact .struct name types (rows_of_zip (R := fun v t _ => HeadType v t) types count ih).zip_left

omit bounded in
/-- A template can be filled with any value of its type. -/
theorem fillable_of_template {w : AbstractType} {t : Ty} (template : Template w t) :
    ∀ {x : Value}, Typed t x → Fillable w t x := by
  induction template with
  | boolean name b => exact fun _ => .boolean name b _
  | uint name extent u => exact fun _ => .uint name extent u _
  | int name extent i => exact fun _ => .int name extent i _
  | fixedBytes name fixedN content => exact fun _ => .fixedBytes name fixedN content _
  | addr name text => exact fun _ => .addr name text _
  | string name content => exact fun _ => .string name content _
  | dynamicBytes name content => exact fun _ => .dynamicBytes name content _
  | dynamicList name fillable exact' ih =>
    intro x typed
    cases typed with
    | list each => exact .dynamicList name (template_headType fillable) (fun _ => exact') (fun x member => ih (each x member))
  | @fixedList name dimension vs t full nonempty each ih =>
    intro x typed
    cases typed with
    | fixed count types =>
      refine .fixedList name full nonempty (by omega) (fun p member => ?_)
      obtain ⟨inTrees,inValues⟩ := List.of_mem_zip member
      exact ih p.1 inTrees (types p.2 inValues)
  | @struct name vs ts count each ih =>
    intro x typed
    cases typed with
    | tuple sizes types =>
      refine .struct name count sizes (zip_of_rows ?_)
      exact (rows_of_pairs (pairwise_of_zip (R := fun w t => ∀ {x : Value}, Typed t x → Fillable w t x) count ih)
        (pairwise_of_zip sizes types)).imp (fun w t x pair => pair.1 pair.2)

private theorem decodes_of_fillable (documented : U.Documented) {v : AbstractType} {t : Ty} {x : Value}
    (denotes : Denotes (countLimit ndebug) v t x) : ∀ {w : AbstractType} {u : Ty} {y : Value}, Fillable w u y → t = u →
      x = y → Decodes U ndebug buffer (countLimit ndebug) w t x := by
  induction denotes with
  | boolean name b =>
    intro w u y fillable same _ offset found _
    cases fillable with
    | boolean name' b' y =>
      rw [enc] at found
      refine ⟨.boolean name' b,[],?_,.boolean name' b⟩
      rw [deserializeUses,deserializeBool,deserializeU256_ok bounded found]
      cases b <;> rfl
    | _ => simp at same
  | uint name extent n =>
    intro w u y fillable same _ offset found _
    cases fillable with
    | uint name' extent' n' y =>
      rw [enc] at found
      refine ⟨.uint name' extent' n,[],?_,?_⟩
      · rw [deserializeUses,deserializeU256_ok bounded found,BitVec.ofNat_toNat,BitVec.setWidth_eq]
        rfl
      · rw [same]
        exact .uint name' extent' n
    | _ => simp at same
  | @int name extent i low high =>
    intro w u y fillable same _ offset found _
    cases fillable with
    | int name' extent' i' y =>
      rw [enc] at found
      refine ⟨.int name' extent' i,[],?_,?_⟩
      · rw [deserializeUses,deserializeS256,deserializeU256_ok bounded found,← s2u_toNat,BitVec.ofNat_toNat,
          BitVec.setWidth_eq]
        simp only [ok_bind,u2s_s2u low high]
      · rw [same]
        exact .int name' extent' low high
    | _ => simp at same
  | @fixedBytes name fixedN content exact =>
    intro w u y fillable same _ offset found _
    cases fillable with
    | fixedBytes name' fixedN' content' y =>
      simp only [Ty.bytesN.injEq] at same
      rw [enc] at found
      have size : content.length = fixedN'.1 := exact.trans same
      refine ⟨.fixedBytes name' fixedN' content,[],?_,?_⟩
      · have positive := fixedN'.2.1
        have small := fixedN'.2.2
        rw [deserializeUses,← size,deserializeBytesN_ok bounded (by omega) (by omega) found,ok_bind,setFixedBytes,
          if_pos size]
        rfl
      · rw [same]
        exact .fixedBytes name' size
    | _ => simp at same
  | @addr name account exact =>
    intro w u y fillable same _ offset found _
    cases fillable with
    | addr name' text y =>
      rw [enc] at found
      refine ⟨.addr name' (addressText account),[],?_,.addr name' exact⟩
      rw [deserializeUses,deserializeAddress_ok bounded exact found,ok_bind,documented.hexPrefixed_writes account exact]
    | _ => simp at same
  | string name content =>
    intro w u y fillable same _ offset found _
    cases fillable with
    | string name' content' y =>
      rw [enc] at found
      obtain ⟨use,decoded⟩ := deserializeBytes_ok bounded found
      exact ⟨.string name' content,[use],by rw [deserializeUses,decoded]; rfl,.string name' content⟩
    | _ => simp at same
  | dynamicBytes name content =>
    intro w u y fillable same _ offset found _
    cases fillable with
    | dynamicBytes name' content' y =>
      rw [enc] at found
      obtain ⟨use,decoded⟩ := deserializeBytes_ok bounded found
      exact ⟨.dynamicBytes name' content,[use],by rw [deserializeUses,decoded]; rfl,.dynamicBytes name' content⟩
    | _ => simp at same
  | @dynamicList name vs t xs count short each ih =>
    intro w u y fillable same sameValue offset found near
    cases fillable with
    | @dynamicList name' element others t' xs' headed exact each' =>
      simp only [Ty.list.injEq,Value.seq.injEq] at same sameValue
      subst same sameValue
      rw [enc] at found
      rw [Near] at near
      obtain ⟨head,body⟩ := occurs_append.mp found
      have bound := occurs_bound head
      rw [word_length] at bound body
      have base : (offset + 32).toNat = offset.toNat + 32 := add_word (by omega)
      rw [← base] at body near
      have most : xs.length < countLimit ndebug := count ▸ short
      have size : (BitVec.ofNat 256 xs.length).toNat = xs.length := by
        rw [BitVec.toNat_ofNat]
        refine Nat.mod_eq_of_lt ?_
        cases ndebug <;> simp [countLimit] at most <;> omega
      have checked : (ndebug || decide (xs.length < 2 ^ 31 - 1)) = true := by
        cases ndebug <;> simp [countLimit] at most ⊢
        exact most
      have representable : ¬ 2 ^ 64 ≤ xs.length := by
        cases ndebug <;> simp [countLimit] at most ⊢ <;> omega
      have uniform : ∀ p ∈ parts (List.replicate xs.length t) xs, p.dynamic = t.dynamic :=
        parts_dynamic (fun u member => by rw [List.eq_of_mem_replicate member])
      have positive : t.dynamic = true → xs ≠ [] → 0 < headLength (parts (List.replicate xs.length t) xs) := by
        intro dynamic nonempty
        rw [headLength_dynamic (fun p member => (uniform p member).trans dynamic),parts_length (by simp)]
        have := List.length_pos_iff.mpr nonempty
        omega
      have decodes : ∀ x ∈ xs, Decodes U ndebug buffer (countLimit ndebug) element t x :=
        zip_right count (P := fun x => Fillable element t x → Decodes U ndebug buffer (countLimit ndebug) element t x)
          (fun p member fills => ih p member fills rfl rfl) |> fun all x member => all x member (each' x member)
      obtain ⟨outs,uses,looped,all⟩ := elements_decode bounded (lenient_element ndebug)
        (fun nonempty => clone_eq (exact nonempty)) (dynamicType_eq headed) decodes positive (located_layout body) near
      refine ⟨.dynamicList name' outs,uses,?_,
        .dynamicList name' all.length_eq (by rw [all.length_eq]; exact most) (zip_of_pairwise all)⟩
      rw [deserializeUses,deserializeU256_ok bounded head,ok_bind,size,assert,if_pos checked,ok_bind]
      simp only [looped,ok_bind,if_neg representable]
    | _ => simp at same
  | @fixedList name dimension vs t xs full nonempty count each ih =>
    intro w u y fillable same sameValue offset found near
    cases fillable with
    | @fixedList name' dimension' ws t' xs' full' nonempty' count' each' =>
      simp only [Ty.fixed.injEq,Value.seq.injEq] at same sameValue
      obtain ⟨rfl,sameSize⟩ := same
      subst sameValue
      have filled : dimension.toNat = xs.length := by omega
      have size : dimension'.toNat = ws.length := full'.symm
      rw [enc,filled] at found
      rw [Near,filled] at near
      have values : ∀ x ∈ xs, ∀ w, Fillable w t x → Decodes U ndebug buffer (countLimit ndebug) w t x :=
        zip_right count (fun p member w fills => ih p member fills rfl rfl)
      have rows : Rows (fun v t x => dynamicType v = .ok t.dynamic ∧ Decodes U ndebug buffer (countLimit ndebug) v t x)
          ws (List.replicate xs.length t) xs := by
        refine rows_replicate count' (fun p member => ?_)
        have fills := each' p member
        exact ⟨dynamicType_eq (fillable_headType fills),values p.2 (List.of_mem_zip member).2 p.1 fills⟩
      obtain ⟨outs,uses,looped,all⟩ := members_decode bounded (lenient_member ndebug) rows
        (fun dynamic => headLength_positive (parts_anyDynamic (by simp) dynamic)) (located_layout found) near
      refine ⟨.fixedList name' dimension' outs,uses,?_,?_⟩
      · rw [deserializeUses,assert,if_pos (by simp [size]),ok_bind,size,looped]
        rfl
      · have members := pairwise_of_rows all (fun u member => List.eq_of_mem_replicate member)
        have sizes := members.length_eq
        rw [sameSize]
        exact .fixedList name' (by omega) nonempty' sizes (zip_of_pairwise members)
    | _ => simp at same
  | @struct name vs ts xs types count each ih =>
    intro w u y fillable same sameValue offset found near
    cases fillable with
    | @struct name' ws ts' xs' types' count' each' =>
      simp only [Ty.tuple.injEq,Value.seq.injEq] at same sameValue
      subst same sameValue
      rw [enc] at found
      rw [Near] at near
      have values := (rows_of_zip types count
        (R := fun _ t x => ∀ w, Fillable w t x → Decodes U ndebug buffer (countLimit ndebug) w t x)
        (fun p member w fills => ih p member fills rfl rfl)).zip_right
      have rows : Rows (fun v t x => dynamicType v = .ok t.dynamic ∧ Decodes U ndebug buffer (countLimit ndebug) v t x)
          ws ts xs := by
        refine rows_of_zip types' count' (fun p member => ?_)
        have fills := each' p member
        exact ⟨dynamicType_eq (fillable_headType fills),values p.2 (List.of_mem_zip member).2 p.1 fills⟩
      obtain ⟨outs,uses,looped,all⟩ := members_decode bounded lenient_none rows
        (fun dynamic => headLength_positive (parts_anyDynamic count dynamic)) (located_layout found) near
      refine ⟨.struct name' outs,uses,?_,.struct name' all.lengths.1 all.lengths.2 (zip_of_rows all)⟩
      rw [deserializeUses,looped]
      rfl
    | _ => simp at same

/-- The decoder fills the tree with what another tree stands for. -/
theorem decodes_fillable (documented : U.Documented) {v w : AbstractType} {t : Ty} {x : Value}
    (denotes : Denotes (countLimit ndebug) v t x) (fillable : Fillable w t x) :
    Decodes U ndebug buffer (countLimit ndebug) w t x := decodes_of_fillable bounded documented denotes fillable rfl rfl

end

/-! ### Round trip -/

/-- What `serialize` appends to a buffer is decoded at its position into any template of
    the type, whatever follows: the template ends up equal to the tree. -/
theorem deserialize_serialize {U : Utilities} (documented : U.Documented) {ndebug : Bool} {v template : AbstractType}
    {t : Ty} {x : Value} (denotes : Denotes (countLimit ndebug) v t x) (fillable : Template template t)
    {before encoded after : Bytes} (appended : serialize U v before = .ok (before ++ encoded))
    (small : before.length + encoded.length + after.length < 2 ^ 31) :
    ∃ out, deserialize U ndebug (before ++ encoded ++ after) template (UInt64.ofNat before.length) = .ok out ∧
      isEqual out v = true ∧ Denotes (countLimit ndebug) out t x := by
  obtain ⟨bytes,appends⟩ := appends_of_denotes documented denotes
  have same : encoded = bytes := by simpa [appends.emits.2] using appended.symm
  have size := appends.size
  rw [← same] at size
  have fits := headsFit_of_small (denotes_typed denotes) (by omega)
  have conforms := appends.sound fits
  have bounded : (before ++ encoded ++ after).length < 2 ^ 31 := by simp; omega
  have position : (UInt64.ofNat before.length).toNat = before.length := by
    rw [UInt64.toNat_ofNat']
    exact Nat.mod_eq_of_lt (by omega)
  have found : Occurs (before ++ encoded ++ after) (UInt64.ofNat before.length).toNat (enc t x) := by
    rw [position,← conforms,← same]
    exact occurs_middle before encoded after
  have near := near_of_small (denotes_typed denotes) before.length (by rw [← conforms,← same]; omega)
  rw [← position] at near
  obtain ⟨out,uses,decoded,result⟩ := decodes_fillable (by omega) documented denotes
    (fillable_of_template fillable (denotes_typed denotes)) _ found near
  refine ⟨out,?_,denotes_isEqual result denotes,result⟩
  rw [deserialize,decoded]
  rfl

/-- A struct of a boolean and a list of `bytes2`, at position 1 of a buffer. -/
theorem deserialize_serialize_struct :
    ∃ out, deserialize Utilities.reference false
        ([9] ++ enc (.tuple [.bool,.list (.bytesN 2)]) (.seq [.bool true,.seq [.bytes [7,8]]]) ++ [])
        (.struct [] [.boolean [] false,.dynamicList [] [.fixedBytes [] ⟨2,by decide⟩ [0,0]]]) (UInt64.ofNat 1) = .ok out ∧
      isEqual out (.struct [] [.boolean [] true,.dynamicList [] [.fixedBytes [] ⟨2,by decide⟩ [7,8]]]) = true ∧
      Denotes (countLimit false) out (.tuple [.bool,.list (.bytesN 2)]) (.seq [.bool true,.seq [.bytes [7,8]]]) :=
  deserialize_serialize reference_documented
    (.struct [] rfl rfl (by
      simp only [List.zip_cons_cons,List.forall_mem_cons]
      refine ⟨.boolean [] true,.dynamicList [] rfl (by decide) ?_,by simp⟩
      simp only [List.zip_cons_cons,List.forall_mem_cons]
      exact ⟨.fixedBytes [] rfl,by simp⟩))
    (.struct [] rfl (by
      simp only [List.zip_cons_cons,List.forall_mem_cons]
      exact ⟨.boolean [] false,.dynamicList [] (.fixedBytes [] ⟨2,by decide⟩ [0,0]) rfl,by simp⟩))
    rfl (by decide +kernel)

end CppSdk.RoundTrip

import CppSdk.TreeHeads

/-!
What a tree looks for in a buffer. `Found` goes through the buffer without decoding anything: it
asks that every word and every range that the decoder takes is there, and a predicate of the words
that are offsets or lengths. It holds exactly where the decoder returns and all words that it used
satisfy the predicate (`found_iff`).
-/
namespace CppSdk.BufferWalk
open CppSdk.ByteString CppSdk.Runtime CppSdk.ContractABIType CppSdk.ContractABITypeCodec CppSdk.TreeHeads

/-! ### The walk -/

/-- The cursor behind the head of a tree. -/
def behind (t : AbstractType) (cursor : Cursor) : Cursor :=
  match offsetAsBytes t with
  | .ok size => cursor.advance size
  | .error _ => cursor

section
variable (buffer : Bytes) (P : Use → Prop)

/-- The length of a `bytes` or a `string` and the last byte behind it are there. -/
def BytesFound (position : UInt64) : Prop :=
  let len := wordAt buffer position
  WordInside buffer position ∧ WordInside buffer (position + sizeOfWord len) ∧
    P (.length position len (getCroppedData buffer (position + 32).toNat (sizeOfWord len).toNat))
/-- A dynamic component is looked for where the word at the cursor says, a static one at the cursor. -/
def ComponentFound (found : UInt64 → Prop) (dynamic : Call Bool) (base : UInt64) (cursor : Cursor) : Prop :=
  let w := wordAt buffer cursor.position
  (dynamic = .ok true ∧ WordInside buffer cursor.position ∧ P (.offset base w) ∧ found (base + sizeOfWord w)) ∨
    (dynamic = .ok false ∧ found cursor.position)
/-- As many elements, one behind the other. -/
def ElementsFound (found : Cursor → Prop) (next : Cursor → Cursor) : Nat → Cursor → Prop
  | 0, _ => True
  | count + 1, cursor => found cursor ∧ ElementsFound found next count (next cursor)

mutual
/-- What the decoder takes for the tree at the position is there, and the words satisfy the predicate. -/
def Found : AbstractType → UInt64 → Prop
  | .fixedBytes _ fixedN _, position =>
    WordInside buffer position ∧ (getCroppedData buffer position.toNat fixedN.1).length = fixedN.1
  | .string _ _, position => BytesFound buffer P position
  | .dynamicBytes _ _, position => BytesFound buffer P position
  | .dynamicList _ value, position =>
    WordInside buffer position ∧
      match value with
      | [] => True
      -- the template of the elements has to be one that can be cloned, if there are any
      | template :: _ => (wordAt buffer position).toNat < 2 ^ 64 ∧
        ElementsFound (fun cursor => Exact template ∧
            ComponentFound buffer P (fun o => Found template o) (dynamicType template) (position + 32) cursor)
          (behind template) (wordAt buffer position).toNat (cursorAt (position + 32))
  | .fixedList _ dimension value, position => MembersFound position value dimension.toNat (cursorAt position)
  | .struct _ value, position => MembersFound position value value.length (cursorAt position)
  | _, position => WordInside buffer position
/-- The same for the first members of a fixed list or of a struct at the base. -/
def MembersFound (base : UInt64) : List AbstractType → Nat → Cursor → Prop
  | _, 0, _ => True
  | [], _ + 1, _ => False
  | t :: ts, count + 1, cursor => ComponentFound buffer P (fun o => Found t o) (dynamicType t) base cursor ∧
      MembersFound base ts count (behind t cursor)
end

end

/-! ### The decoder -/

section
variable {U : Utilities} {buffer : Bytes} {P : Use → Prop}

/-- The tree is decoded with words that satisfy the predicate. -/
def Decodes (U : Utilities) (buffer : Bytes) (P : Use → Prop) (t : AbstractType) (position : UInt64) : Prop :=
  ∃ out uses, deserializeUses U true buffer t position = .ok (out,uses) ∧ ∀ use ∈ uses, P use

/-- What is found is decoded, and the other way round. -/
def Agrees (U : Utilities) (buffer : Bytes) (P : Use → Prop) (t : AbstractType) : Prop :=
  ∀ position, Found buffer P t position ↔ Decodes U buffer P t position

theorem bytesFound_iff (position : UInt64) : BytesFound buffer P position ↔
    ∃ value use, deserializeBytes U buffer position = .ok (value,use) ∧ P use := by
  have last : position + 32 + sizeOfWord (wordAt buffer position) - 1 = position + sizeOfWord (wordAt buffer position) + 31 := by grind
  constructor
  · rintro ⟨inside,behind,holds⟩
    have read : deserializeBytes U buffer position = .ok (getCroppedData buffer (position + 32).toNat
        (sizeOfWord (wordAt buffer position)).toNat,.length position (wordAt buffer position) (getCroppedData buffer
          (position + 32).toNat (sizeOfWord (wordAt buffer position)).toNat)) := by
      rw [deserializeBytes,deserializeU256_iff.mpr ⟨inside,rfl⟩,ok_bind,last,verifyBufferOffset_iff.mpr behind]
      rfl
    exact ⟨_,_,read,holds⟩
  · rintro ⟨value,use,read,holds⟩
    obtain ⟨len,header,more⟩ := bind_ok.mp read
    obtain ⟨inside,rfl⟩ := deserializeU256_iff.mp header
    obtain ⟨⟨⟩,verified,⟨⟩⟩ := bind_ok.mp more
    rw [last] at verified
    exact ⟨inside,verifyBufferOffset_iff.mp verified,holds⟩

/-- The decoder moves the cursor behind the head. -/
theorem component_behind {t : AbstractType} {check : OffsetCheck} {base : UInt64} {cursor next : Cursor} {out : AbstractType}
    {uses : List Use} (decoded : deserializeComponent U buffer (fun o => deserializeUses U true buffer t o) (dynamicType t) check base
      cursor = .ok (out,uses,next)) : next = behind t cursor := by
  obtain ⟨_,size,measured,moved⟩ := component_sameHead (keepsHead t) decoded
  rw [moved,behind,measured]
theorem componentFound_iff {t : AbstractType} (agrees : Agrees U buffer P t) (check : OffsetCheck) (unchecked : ∀ w, check w = .ok ())
    (base : UInt64) (cursor : Cursor) :
    ComponentFound buffer P (fun o => Found buffer P t o) (dynamicType t) base cursor ↔
      ∃ out uses, deserializeComponent U buffer (fun o => deserializeUses U true buffer t o) (dynamicType t) check base cursor =
        .ok (out,uses,behind t cursor) ∧ ∀ use ∈ uses, P use := by
  have sized : ∀ position out uses dynamic, deserializeUses U true buffer t position = .ok (out,uses) → dynamicType t = .ok dynamic →
      ∃ size, offsetAsBytes out = .ok size ∧ behind t cursor = cursor.advance size := by
    intro position out uses dynamic decoded dynamics
    have same := (keepsHead t position out uses decoded).offsetAsBytes_eq
    cases dynamic with
    | true => exact ⟨32,same.trans (offsetAsBytes_dynamic dynamics),by rw [behind,offsetAsBytes_dynamic dynamics]⟩
    | false => exact ⟨_,same.trans (offsetAsBytes_static dynamics),by rw [behind,offsetAsBytes_static dynamics]⟩
  constructor
  · rintro (⟨dynamic,inside,here,found⟩ | ⟨static,found⟩)
    · obtain ⟨out,uses,decoded,all⟩ := (agrees _).mp found
      obtain ⟨size,measured,next⟩ := sized _ _ _ _ decoded dynamic
      refine ⟨out,_ :: uses,?_,List.forall_mem_cons.mpr ⟨here,all⟩⟩
      simp only [deserializeComponent,dynamic,ok_bind,if_true,deserializeU256_iff.mpr ⟨inside,rfl⟩,unchecked,decoded,measured,next]
    · obtain ⟨out,uses,decoded,all⟩ := (agrees _).mp found
      obtain ⟨size,measured,next⟩ := sized _ _ _ _ decoded static
      refine ⟨out,uses,?_,all⟩
      simp only [deserializeComponent,static,ok_bind,Bool.false_eq_true,if_false,decoded,measured,next]
  · rintro ⟨out,uses,component,all⟩
    obtain ⟨dynamic,dynamics,chosen⟩ := bind_ok.mp component
    cases dynamic with
    | true =>
      simp only [if_true] at chosen
      obtain ⟨w,read,more⟩ := bind_ok.mp chosen
      obtain ⟨⟨⟩,_,rest⟩ := bind_ok.mp more
      obtain ⟨⟨tree,inner⟩,decoded,measured⟩ := bind_ok.mp rest
      obtain ⟨size,_,same⟩ := bind_ok.mp measured
      obtain ⟨inside,rfl⟩ := deserializeU256_iff.mp read
      obtain ⟨rfl,rfl⟩ : tree = out ∧ .offset base (wordAt buffer cursor.position) :: inner = uses := by simp_all
      obtain ⟨here,later⟩ := List.forall_mem_cons.mp all
      exact .inl ⟨dynamics,inside,here,(agrees _).mpr ⟨tree,inner,decoded,later⟩⟩
    | false =>
      simp only [Bool.false_eq_true,if_false] at chosen
      obtain ⟨⟨tree,inner⟩,decoded,measured⟩ := bind_ok.mp chosen
      obtain ⟨size,_,same⟩ := bind_ok.mp measured
      obtain ⟨rfl,rfl⟩ : tree = out ∧ inner = uses := by simp_all
      exact .inr ⟨dynamics,(agrees _).mpr ⟨tree,inner,decoded,all⟩⟩

/-- The loop of a list decodes what is found. -/
theorem elementsFound_iff {t : AbstractType} (agrees : Agrees U buffer P t) (check : OffsetCheck) (unchecked : ∀ w, check w = .ok ())
    (base : UInt64) (count : Nat) (cursor : Cursor) :
    ElementsFound (fun cursor => Exact t ∧ ComponentFound buffer P (fun o => Found buffer P t o) (dynamicType t) base cursor)
        (behind t) count cursor ↔
      ∃ outs uses, deserializeElements (fun cursor => do
          let _ ← clone t
          deserializeComponent U buffer (fun o => deserializeUses U true buffer t o) (dynamicType t) check base cursor)
        count cursor = .ok (outs,uses) ∧ ∀ use ∈ uses, P use := by
  induction count generalizing cursor with
  | zero => exact iff_of_true trivial ⟨[],[],rfl,by simp⟩
  | succ count ih =>
    rw [ElementsFound,ih,componentFound_iff agrees check unchecked]
    constructor
    · rintro ⟨⟨exact',out,first,one,here⟩,outs,others,looped,later⟩
      refine ⟨out :: outs,first ++ others,?_,List.forall_mem_append.mpr ⟨here,later⟩⟩
      rw [deserializeElements,clone_eq exact',ok_bind,one,ok_bind]
      simp only [clone_eq exact',ok_bind] at looped
      simp only [looped,ok_bind]
    · rintro ⟨outs,uses,decoded,all⟩
      obtain ⟨⟨out,first,next⟩,one,more⟩ := bind_ok.mp decoded
      obtain ⟨⟨rest,others⟩,looped,⟨⟩⟩ := bind_ok.mp more
      obtain ⟨copy,cloned,component⟩ := bind_ok.mp one
      obtain ⟨here,later⟩ := List.forall_mem_append.mp all
      obtain rfl := component_behind component
      exact ⟨⟨exact_of_clone cloned,out,first,component,here⟩,rest,others,looped,later⟩

/-- The loop over members decodes what is found. -/
theorem membersFound_iff {ts : List AbstractType} (agrees : ∀ t ∈ ts, Agrees U buffer P t) (check : OffsetCheck)
    (unchecked : ∀ w, check w = .ok ()) (base : UInt64) (count : Nat) (cursor : Cursor) :
    MembersFound buffer P base ts count cursor ↔
      ∃ outs uses, deserializeMembers U true buffer check base ts count cursor = .ok (outs,uses) ∧ ∀ use ∈ uses, P use := by
  induction ts generalizing count cursor with
  | nil =>
    cases count with
    | zero => exact iff_of_true trivial ⟨[],[],rfl,by simp⟩
    | succ count => exact iff_of_false id (fun ⟨_,_,decoded,_⟩ => by cases decoded)
  | cons t ts ih =>
    cases count with
    | zero => exact iff_of_true trivial ⟨t :: ts,[],rfl,by simp⟩
    | succ count =>
      obtain ⟨here,later⟩ := List.forall_mem_cons.mp agrees
      rw [MembersFound,ih later,componentFound_iff here check unchecked]
      constructor
      · rintro ⟨⟨out,first,one,ofFirst⟩,outs,others,looped,ofOthers⟩
        refine ⟨out :: outs,first ++ others,?_,List.forall_mem_append.mpr ⟨ofFirst,ofOthers⟩⟩
        simp only [deserializeMembers,one,ok_bind,looped]
      · rintro ⟨outs,uses,decoded,all⟩
        obtain ⟨⟨out,first,next⟩,one,more⟩ := bind_ok.mp (by simpa only [deserializeMembers] using decoded)
        obtain ⟨⟨rest,others⟩,looped,⟨⟩⟩ := bind_ok.mp more
        obtain ⟨ofFirst,ofOthers⟩ := List.forall_mem_append.mp all
        obtain rfl := component_behind one
        exact ⟨⟨out,first,one,ofFirst⟩,rest,others,looped,ofOthers⟩

/-! ### Trees -/

/-- A leaf that takes one word and uses none. -/
theorem agrees_word {t : AbstractType} {α : Type} (read : UInt64 → Call α) (set : α → AbstractType)
    (looks : ∀ position, Found buffer P t position = WordInside buffer position)
    (decodes : ∀ position, deserializeUses U true buffer t position = (do .ok (set (← read position),[])))
    (reads : ∀ position, (∃ value, read position = .ok value) ↔ WordInside buffer position) : Agrees U buffer P t := by
  intro position
  rw [looks,← reads,Decodes,decodes]
  constructor
  · rintro ⟨value,here⟩
    exact ⟨set value,[],by rw [here]; rfl,by simp⟩
  · rintro ⟨out,uses,decoded,_⟩
    obtain ⟨value,here,_⟩ := bind_ok.mp decoded
    exact ⟨value,here⟩
/-- A leaf that is read with its length. -/
theorem agrees_bytes {t : AbstractType} (set : Bytes → AbstractType)
    (looks : ∀ position, Found buffer P t position = BytesFound buffer P position)
    (decodes : ∀ position, deserializeUses U true buffer t position = (do
      let (value,use) ← deserializeBytes U buffer position
      .ok (set value,[use]))) : Agrees U buffer P t := by
  intro position
  rw [looks,bytesFound_iff (U := U),Decodes,decodes]
  constructor
  · rintro ⟨value,use,read,holds⟩
    exact ⟨set value,[use],by rw [read]; rfl,by simpa using holds⟩
  · rintro ⟨out,uses,decoded,all⟩
    obtain ⟨⟨value,use⟩,read,⟨⟩⟩ := bind_ok.mp decoded
    exact ⟨value,use,read,all use (by simp)⟩

theorem deserializeU256_reads (position : UInt64) : (∃ w, deserializeU256 U buffer position = .ok w) ↔ WordInside buffer position :=
  ⟨fun ⟨_,read⟩ => (deserializeU256_iff.mp read).1,fun inside => ⟨_,deserializeU256_iff.mpr ⟨inside,rfl⟩⟩⟩
theorem converted_reads {α : Type} (convert : U256 → α) (position : UInt64) :
    (∃ value, (do .ok (convert (← deserializeU256 U buffer position)) : Call α) = .ok value) ↔ WordInside buffer position := by
  rw [← deserializeU256_reads (U := U)]
  constructor
  · rintro ⟨value,read⟩
    obtain ⟨w,word,_⟩ := bind_ok.mp read
    exact ⟨w,word⟩
  · rintro ⟨w,word⟩
    exact ⟨convert w,by rw [word]; rfl⟩
private theorem deserializeAddress_reads (position : UInt64) :
    (∃ account, deserializeAddress U buffer position = .ok account) ↔ WordInside buffer position := by
  unfold deserializeAddress
  rw [last_word]
  constructor
  · rintro ⟨account,read⟩
    obtain ⟨⟨⟩,verified,_⟩ := bind_ok.mp read
    exact verifyBufferOffset_iff.mp verified
  · intro inside
    exact ⟨_,by rw [verifyBufferOffset_iff.mpr inside]; rfl⟩

/-- A `bytesN` takes a word, and its bytes have to be so many. -/
theorem agrees_fixedBytes (name : Bytes) (fixedN : FixedN) (content : Bytes) : Agrees U buffer P (.fixedBytes name fixedN content) := by
  intro position
  have read : deserializeBytesN U buffer position fixedN.1 = (do
      verifyBufferOffset U buffer (position + 31)
      .ok (getCroppedData buffer position.toNat fixedN.1)) := by
    rw [deserializeBytesN,if_neg (Nat.not_lt.mpr fixedN.2.2),last_word]
  rw [Found,Decodes]
  constructor
  · rintro ⟨inside,size⟩
    refine ⟨.fixedBytes name fixedN (getCroppedData buffer position.toNat fixedN.1),[],?_,by simp⟩
    rw [deserializeUses,read,verifyBufferOffset_iff.mpr inside,ok_bind,ok_bind,setFixedBytes,if_pos size]
    rfl
  · rintro ⟨out,uses,decoded,_⟩
    obtain ⟨bytes,taken,more⟩ := bind_ok.mp decoded
    obtain ⟨tree,stored,_⟩ := bind_ok.mp more
    rw [read] at taken
    obtain ⟨⟨⟩,verified,⟨⟩⟩ := bind_ok.mp taken
    refine ⟨verifyBufferOffset_iff.mp verified,?_⟩
    by_cases size : (getCroppedData buffer position.toNat fixedN.1).length = fixedN.1
    · exact size
    · rw [setFixedBytes,if_neg size] at stored
      cases stored

/-- What is found of a tree is what the decoder decodes. -/
theorem found_iff (t : AbstractType) : Agrees U buffer P t := by
  induction t using AbstractType.induct with
  | boolean name b =>
    exact agrees_word (deserializeBool U buffer) (.boolean name) (fun _ => rfl) (fun _ => rfl) (converted_reads fun w => decide (0 < w))
  | uint name extent u =>
    exact agrees_word (deserializeU256 U buffer) (.uint name extent) (fun _ => rfl) (fun _ => rfl) deserializeU256_reads
  | int name extent i =>
    exact agrees_word (deserializeS256 U buffer) (.int name extent) (fun _ => rfl) (fun _ => rfl) (converted_reads u2s)
  | addr name text =>
    exact agrees_word (deserializeAddress U buffer) (fun account => .addr name (U.hexPrefixed account)) (fun _ => rfl) (fun _ => rfl)
      deserializeAddress_reads
  | fixedBytes name fixedN content => exact agrees_fixedBytes name fixedN content
  | string name content => exact agrees_bytes (.string name) (fun _ => rfl) (fun _ => rfl)
  | dynamicBytes name content => exact agrees_bytes (.dynamicBytes name) (fun _ => rfl) (fun _ => rfl)
  | dynamicList name value ih =>
    intro position
    cases value with
    | nil =>
      rw [Found,← deserializeU256_reads (U := U)]
      constructor
      · rintro ⟨⟨w,read⟩,_⟩
        exact ⟨.dynamicList name [],[],by rw [deserializeUses,read]; rfl,by simp⟩
      · rintro ⟨out,uses,decoded,_⟩
        obtain ⟨w,read,_⟩ := decoded_dynamicList decoded
        exact ⟨⟨w,read⟩,trivial⟩
    | cons template others =>
      have loop := elementsFound_iff (ih template List.mem_cons_self) (checkElementOffset true) (fun _ => rfl) (position + 32)
        (wordAt buffer position).toNat (cursorAt (position + 32))
      rw [Found]
      constructor
      · rintro ⟨inside,small,found⟩
        obtain ⟨elements,uses,looped,all⟩ := loop.mp found
        refine ⟨.dynamicList name elements,uses,?_,all⟩
        rw [deserializeUses,deserializeU256_iff.mpr ⟨inside,rfl⟩]
        simp only [ok_bind,looped,if_neg (show ¬ 2 ^ 64 ≤ (wordAt buffer position).toNat by omega)]
        rfl
      · rintro ⟨out,uses,decoded,all⟩
        rw [deserializeUses] at decoded
        obtain ⟨w,read,more⟩ := bind_ok.mp decoded
        obtain ⟨⟨⟩,_,rest⟩ := bind_ok.mp more
        obtain ⟨⟨elements,used⟩,looped,ended⟩ := bind_ok.mp rest
        obtain ⟨inside,rfl⟩ := deserializeU256_iff.mp read
        by_cases endless : 2 ^ 64 ≤ (wordAt buffer position).toNat
        · cases (if_pos endless).symm.trans ended
        · cases (if_neg endless).symm.trans ended
          exact ⟨inside,by omega,loop.mpr ⟨elements,uses,looped,all⟩⟩
  | fixedList name dimension value ih =>
    intro position
    rw [Found,membersFound_iff ih (checkMemberOffset true) (fun _ => rfl)]
    constructor
    · rintro ⟨outs,uses,looped,all⟩
      refine ⟨.fixedList name dimension outs,uses,?_,all⟩
      rw [deserializeUses]
      simp only [Runtime.assert,Bool.true_or,if_true,ok_bind,looped]
    · rintro ⟨out,uses,decoded,all⟩
      obtain ⟨members,looped,_⟩ := decoded_fixedList decoded
      exact ⟨members,uses,looped,all⟩
  | struct name value ih =>
    intro position
    rw [Found,membersFound_iff ih (fun _ => .ok ()) (fun _ => rfl)]
    constructor
    · rintro ⟨outs,uses,looped,all⟩
      refine ⟨.struct name outs,uses,?_,all⟩
      rw [deserializeUses]
      simp only [ok_bind,looped]
    · rintro ⟨out,uses,decoded,all⟩
      obtain ⟨members,looped,_⟩ := decoded_struct decoded
      exact ⟨members,uses,looped,all⟩

end

end CppSdk.BufferWalk

import CppSdk.ContractABITypeCodec

/-!
Where the trees stand that the decoder fills. Decoding keeps the head of a tree, a static
tree with a word reads its first word where its head starts, and one that has a type reads
all of its head (`readsAll`).
-/
namespace CppSdk.TreeHeads
open CppSdk.ByteString CppSdk.Runtime CppSdk.SolidityAbi CppSdk.ContractABIType CppSdk.ContractABITypeCodec

/-! ### Cursors -/

/-- The bits of the cursor as a number. -/
def bits (cursor : Cursor) : Nat := cursor.toBitVec.toNat

private theorem bits_lt (cursor : Cursor) : bits cursor < 2 ^ 32 := cursor.toBitVec.isLt
theorem position_toNat (cursor : Cursor) : cursor.position.toNat =
    bits cursor + if 2 ^ 31 ≤ bits cursor then 2 ^ 64 - 2 ^ 32 else 0 := by
  have extended : cursor.position.toBitVec = cursor.toBitVec.signExtend 64 := rfl
  have small : cursor.toBitVec.toNat < 2 ^ 32 := cursor.toBitVec.isLt
  unfold bits
  rw [← UInt64.toNat_toBitVec,extended,BitVec.toNat_signExtend,BitVec.msb_eq_decide]
  simp
  omega
theorem bits_cursorAt (offset : UInt64) : bits (cursorAt offset) = offset.toNat % 2 ^ 32 := rfl
theorem bits_advance (cursor : Cursor) (size : UInt32) :
    bits (cursor.advance size) = (bits cursor + size.toNat) % 2 ^ 32 := UInt32.toNat_add _ _
/-- A cursor is read back from the position that it stands for. -/
theorem cursorAt_position (cursor : Cursor) : cursorAt cursor.position = cursor := by
  apply Int32.toBitVec_inj.mp
  apply BitVec.eq_of_toNat_eq
  have small := bits_lt cursor
  show bits (cursorAt cursor.position) = bits cursor
  rw [bits_cursorAt,position_toNat]
  split <;> omega

/-! ### What decoding leaves as it is -/

section
variable {U : Utilities} {ndebug : Bool} {buffer : Bytes}

/-- The trees take up the same heads. -/
structure SameHead (t out : AbstractType) : Prop where
  dynamicType_eq : dynamicType out = dynamicType t
  offsetAsBytes_eq : offsetAsBytes out = offsetAsBytes t

/-- What is decoded takes up the head of its template. -/
def KeepsHead (U : Utilities) (ndebug : Bool) (buffer : Bytes) (t : AbstractType) : Prop :=
  ∀ offset out uses, deserializeUses U ndebug buffer t offset = .ok (out,uses) → SameHead t out

/-- A component is decoded at some offset. -/
theorem component_decoded {t : AbstractType} {check : OffsetCheck} {base : UInt64} {cursor next : Cursor}
    {out : AbstractType} {uses : List Use}
    (decoded : deserializeComponent U buffer (fun o => deserializeUses U ndebug buffer t o) (dynamicType t) check base
      cursor = .ok (out,uses,next)) :
    (∃ offset used, deserializeUses U ndebug buffer t offset = .ok (out,used)) ∧
      ∃ size, offsetAsBytes out = .ok size ∧ next = cursor.advance size := by
  obtain ⟨dynamic,_,component⟩ := bind_ok.mp decoded
  cases dynamic with
  | true =>
    simp only [if_true] at component
    obtain ⟨w,_,checked⟩ := bind_ok.mp component
    obtain ⟨⟨⟩,_,rest⟩ := bind_ok.mp checked
    obtain ⟨⟨tree,inner⟩,decodedTree,sized⟩ := bind_ok.mp rest
    obtain ⟨size,measured,⟨⟩⟩ := bind_ok.mp sized
    exact ⟨⟨_,inner,decodedTree⟩,size,measured,rfl⟩
  | false =>
    simp only [Bool.false_eq_true,if_false] at component
    obtain ⟨⟨tree,inner⟩,decodedTree,sized⟩ := bind_ok.mp component
    obtain ⟨size,measured,⟨⟩⟩ := bind_ok.mp sized
    exact ⟨⟨_,inner,decodedTree⟩,size,measured,rfl⟩

theorem component_sameHead {t : AbstractType} (keeps : KeepsHead U ndebug buffer t) {check : OffsetCheck} {base : UInt64}
    {cursor next : Cursor} {out : AbstractType} {uses : List Use}
    (decoded : deserializeComponent U buffer (fun o => deserializeUses U ndebug buffer t o) (dynamicType t) check base
      cursor = .ok (out,uses,next)) :
    SameHead t out ∧ ∃ size, offsetAsBytes t = .ok size ∧ next = cursor.advance size := by
  obtain ⟨⟨_,_,decodedTree⟩,size,measured,moved⟩ := component_decoded decoded
  have same := keeps _ _ _ decodedTree
  exact ⟨same,size,same.offsetAsBytes_eq.symm.trans measured,moved⟩

private theorem members_sameHead {check : OffsetCheck} {base : UInt64} {ts : List AbstractType}
    (keeps : ∀ t ∈ ts, KeepsHead U ndebug buffer t) {count : Nat} {cursor : Cursor} {outs : List AbstractType}
    {uses : List Use} (decoded : deserializeMembers U ndebug buffer check base ts count cursor = .ok (outs,uses)) :
    List.Forall₂ SameHead ts outs := by
  induction ts generalizing count cursor outs uses with
  | nil =>
    cases count with
    | zero => cases decoded; exact .nil
    | succ count => simp [deserializeMembers] at decoded
  | cons t ts ih =>
    cases count with
    | zero =>
      cases decoded
      exact List.forall₂_same.mpr (fun _ _ => ⟨rfl,rfl⟩)
    | succ count =>
      obtain ⟨here,later⟩ := List.forall_mem_cons.mp keeps
      obtain ⟨⟨out,first,next⟩,one,more⟩ := bind_ok.mp (by simpa only [deserializeMembers] using decoded)
      obtain ⟨⟨rest,others⟩,looped,⟨⟩⟩ := bind_ok.mp more
      exact .cons (component_sameHead here one).1 (ih later looped)

private theorem sameHead_struct {name : Bytes} {ts outs : List AbstractType} (same : List.Forall₂ SameHead ts outs) :
    SameHead (.struct name ts) (.struct name outs) := by
  have dynamics : anyDynamicType outs = anyDynamicType ts := by
    induction same with
    | nil => rfl
    | cons here later ih => simp only [anyDynamicType,here.dynamicType_eq,ih]
  have sums : ∀ offset, sumOffsets offset outs = sumOffsets offset ts := by
    clear dynamics
    induction same with
    | nil => exact fun offset => rfl
    | cons here later ih => intro offset; simp only [sumOffsets,here.offsetAsBytes_eq,ih]
  exact ⟨by simp only [dynamicType,dynamics],by simp only [offsetAsBytes,dynamicType,dynamics,sums]⟩

private theorem sameHead_fixedList {name : Bytes} {dimension : UInt32} {ts outs : List AbstractType}
    (same : List.Forall₂ SameHead ts outs) :
    SameHead (.fixedList name dimension ts) (.fixedList name dimension outs) := by
  have size := same.length_eq
  cases same with
  | nil => exact ⟨rfl,rfl⟩
  | cons here later =>
    exact ⟨by simp only [dynamicType,firstDynamicType,here.dynamicType_eq,size],
      by simp only [offsetAsBytes,dynamicType,firstDynamicType,firstOffset,here.dynamicType_eq,here.offsetAsBytes_eq,size]⟩

theorem keepsHead (t : AbstractType) : KeepsHead U ndebug buffer t := by
  induction t using AbstractType.induct with
  | boolean name b | uint name extent u | int name extent i | addr name text =>
    intro offset out uses decoded
    obtain ⟨value,_,⟨⟩⟩ := bind_ok.mp decoded
    exact ⟨rfl,rfl⟩
  | string name content | dynamicBytes name content =>
    intro offset out uses decoded
    obtain ⟨⟨value,use⟩,_,⟨⟩⟩ := bind_ok.mp decoded
    exact ⟨rfl,rfl⟩
  | fixedBytes name fixedN content =>
    intro offset out uses decoded
    obtain ⟨bytes,_,rfl,_⟩ := decoded_fixedBytes decoded
    exact ⟨rfl,rfl⟩
  | dynamicList name value ih =>
    intro offset out uses decoded
    obtain ⟨listSize,_,⟨_,rfl,_⟩ | ⟨template,others,elements,_,_,rfl⟩⟩ := decoded_dynamicList decoded
    · exact ⟨rfl,rfl⟩
    · exact ⟨rfl,rfl⟩
  | fixedList name dimension value ih =>
    intro offset out uses decoded
    obtain ⟨members,looped,rfl⟩ := decoded_fixedList decoded
    exact sameHead_fixedList (members_sameHead ih looped)
  | struct name value ih =>
    intro offset out uses decoded
    obtain ⟨members,looped,rfl⟩ := decoded_struct decoded
    exact sameHead_struct (members_sameHead ih looped)

/-! ### Heads of static trees -/

mutual
/-- The size of the head of a static tree as an unbounded number: a fixed list goes by its
    first member. -/
def headBytes : AbstractType → Nat
  | .fixedList _ _ value => value.length * firstHead value
  | .struct _ value => sumHeads value
  | _ => 32
/-- The head of the first member. -/
def firstHead : List AbstractType → Nat
  | [] => 0
  | t :: _ => headBytes t
/-- The heads of the members. -/
def sumHeads : List AbstractType → Nat
  | [] => 0
  | t :: ts => headBytes t + sumHeads ts
end

theorem anyDynamicType_false {ts : List AbstractType} (static : anyDynamicType ts = .ok false) :
    ∀ t ∈ ts, dynamicType t = .ok false := by
  induction ts with
  | nil => simp
  | cons t ts ih =>
    obtain ⟨first,dynamics,rest⟩ := bind_ok.mp (by simpa only [anyDynamicType] using static)
    cases first with
    | true => simp at rest
    | false => exact List.forall_mem_cons.mpr ⟨dynamics,ih (by simpa using rest)⟩

/-- A fixed list that answers is full, and its first member answers. -/
theorem firstDynamicType_of {name : Bytes} {dimension : UInt32} {value : List AbstractType} {dynamic : Bool}
    (answers : dynamicType (.fixedList name dimension value) = .ok dynamic) :
    ∃ t ts, value = t :: ts ∧ dimension.toNat = value.length ∧ dynamicType t = .ok dynamic := by
  obtain ⟨⟨⟩,verified,first⟩ := bind_ok.mp (by simpa only [dynamicType] using answers)
  unfold verifyDimension at verified
  split at verified
  · cases verified
  · split at verified
    · rename_i full
      cases value with
      | nil => simp [firstDynamicType] at first
      | cons t ts => exact ⟨t,ts,rfl,full,first⟩
    · cases verified

/-- `offsetAsBytes()` of a static tree is its head modulo 2^32. -/
theorem offsetAsBytes_static {t : AbstractType} (static : dynamicType t = .ok false) :
    offsetAsBytes t = .ok (UInt32.ofNat (headBytes t)) := by
  induction t using AbstractType.induct with
  | fixedList name dimension value ih =>
    obtain ⟨t,ts,rfl,_,first⟩ := firstDynamicType_of static
    have head := ih t List.mem_cons_self first
    rw [offsetAsBytes,static,ok_bind]
    simp only [Bool.false_eq_true,if_false,firstOffset,head,ok_bind,headBytes,firstHead]
    refine congrArg _ (UInt32.toNat_inj.mp ?_)
    simp [Nat.mul_mod]
  | struct name value ih =>
    have members := anyDynamicType_false (by simpa only [dynamicType] using static)
    have sums : ∀ offset, sumOffsets offset value = .ok (offset + UInt32.ofNat (sumHeads value)) := by
      clear static
      induction value with
      | nil => simp [sumOffsets,sumHeads]
      | cons t ts later =>
        intro offset
        obtain ⟨here,others⟩ := List.forall_mem_cons.mp members
        obtain ⟨head,heads⟩ := List.forall_mem_cons.mp ih
        simp [sumOffsets,head here,later heads others,sumHeads,UInt32.add_assoc]
    rw [offsetAsBytes,static,ok_bind]
    simp [sums,headBytes]
  | string name content => cases static
  | dynamicBytes name content => cases static
  | dynamicList name value => cases static
  | _ => rfl

/-- A dynamic tree takes up one word. -/
theorem offsetAsBytes_dynamic {t : AbstractType} (dynamic : dynamicType t = .ok true) : offsetAsBytes t = .ok 32 := by
  cases t with
  | fixedList name dimension value => rw [offsetAsBytes,dynamic]; rfl
  | struct name value => rw [offsetAsBytes,dynamic]; rfl
  | _ => rfl

/-- Heads are made of words. -/
theorem headBytes_words (t : AbstractType) : 32 ∣ headBytes t := by
  induction t using AbstractType.induct with
  | fixedList name dimension value ih =>
    cases value with
    | nil => exact ⟨0,rfl⟩
    | cons t ts => exact Dvd.dvd.mul_left (ih t List.mem_cons_self) _
  | struct name value ih =>
    simp only [headBytes]
    induction value with
    | nil => exact ⟨0,rfl⟩
    | cons t ts later =>
      obtain ⟨here,others⟩ := List.forall_mem_cons.mp ih
      exact Nat.dvd_add here (later others)
  | _ => exact ⟨1,rfl⟩

/-! ### The first word of a static tree -/

/-- A static tree with a word reads one where its head starts. -/
def ReadsFirst (U : Utilities) (ndebug : Bool) (buffer : Bytes) (t : AbstractType) : Prop :=
  dynamicType t = .ok false → 0 < headBytes t → ∀ (cursor : Cursor) out uses,
    deserializeUses U ndebug buffer t cursor.position = .ok (out,uses) → cursor.position.toNat + 31 < 2 ^ 64 →
      cursor.position.toNat + 32 ≤ buffer.length

theorem component_static {t : AbstractType} (static : dynamicType t = .ok false) {check : OffsetCheck} {base : UInt64}
    {cursor next : Cursor} {out : AbstractType} {uses : List Use}
    (decoded : deserializeComponent U buffer (fun o => deserializeUses U ndebug buffer t o) (dynamicType t) check base
      cursor = .ok (out,uses,next)) :
    deserializeUses U ndebug buffer t cursor.position = .ok (out,uses) ∧
      next = cursor.advance (UInt32.ofNat (headBytes t)) := by
  obtain ⟨_,size,measured,moved⟩ := component_sameHead (keepsHead t) decoded
  rw [offsetAsBytes_static static,Except.ok.injEq] at measured
  refine ⟨?_,measured ▸ moved⟩
  simp only [deserializeComponent,static,ok_bind,Bool.false_eq_true,if_false] at decoded
  obtain ⟨⟨tree,inner⟩,decodedTree,sized⟩ := bind_ok.mp decoded
  obtain ⟨_,_,⟨⟩⟩ := bind_ok.mp sized
  exact decodedTree

theorem advance_zero (cursor : Cursor) : cursor.advance 0 = cursor := by
  simp [Cursor.advance]

private theorem members_readFirst {check : OffsetCheck} {base : UInt64} {ts : List AbstractType}
    (reads : ∀ t ∈ ts, ReadsFirst U ndebug buffer t) (static : ∀ t ∈ ts, dynamicType t = .ok false)
    (word : 0 < sumHeads ts) {cursor : Cursor} {outs : List AbstractType} {uses : List Use}
    (decoded : deserializeMembers U ndebug buffer check base ts ts.length cursor = .ok (outs,uses))
    (small : cursor.position.toNat + 31 < 2 ^ 64) : cursor.position.toNat + 32 ≤ buffer.length := by
  induction ts generalizing cursor outs uses with
  | nil => cases word
  | cons t ts ih =>
    obtain ⟨here,later⟩ := List.forall_mem_cons.mp reads
    obtain ⟨flat,others⟩ := List.forall_mem_cons.mp static
    obtain ⟨⟨out,first,next⟩,one,more⟩ := bind_ok.mp (by simpa only [List.length_cons,deserializeMembers] using decoded)
    obtain ⟨⟨rest,remaining⟩,looped,_⟩ := bind_ok.mp more
    obtain ⟨decodedTree,moved⟩ := component_static flat one
    by_cases empty : headBytes t = 0
    · -- a member without a head leaves the cursor where it is
      have stays : next = cursor := by rw [moved,empty]; exact advance_zero cursor
      simp only [stays] at looped
      exact ih later others (by simpa [sumHeads,empty] using word) looped small
    · exact here flat (by omega) _ _ _ decodedTree small

theorem readsFirst (t : AbstractType) : ReadsFirst U ndebug buffer t := by
  induction t using AbstractType.induct with
  | boolean name b | int name extent i =>
    intro _ _ cursor out uses decoded small
    obtain ⟨value,read,_⟩ := bind_ok.mp decoded
    obtain ⟨w,word,_⟩ := bind_ok.mp read
    exact deserializeU256_inside word small
  | uint name extent u =>
    intro _ _ cursor out uses decoded small
    obtain ⟨w,word,_⟩ := bind_ok.mp decoded
    exact deserializeU256_inside word small
  | addr name text =>
    intro _ _ cursor out uses decoded small
    obtain ⟨value,read,_⟩ := bind_ok.mp decoded
    obtain ⟨⟨⟩,verified,_⟩ := bind_ok.mp read
    exact verified_inside verified small
  | fixedBytes name fixedN content =>
    intro _ _ cursor out uses decoded small
    obtain ⟨bytes,read,_⟩ := decoded_fixedBytes decoded
    unfold deserializeBytesN at read
    split at read
    · cases read
    · obtain ⟨⟨⟩,verified,_⟩ := bind_ok.mp read
      exact verified_inside verified small
  | string name content => intro static; cases static
  | dynamicBytes name content => intro static; cases static
  | dynamicList name value ih => intro static; cases static
  | fixedList name dimension value ih =>
    intro static word cursor out uses decoded small
    obtain ⟨t,ts,rfl,full,first⟩ := firstDynamicType_of static
    obtain ⟨members,looped,_⟩ := decoded_fixedList decoded
    rw [cursorAt_position,full,List.length_cons] at looped
    obtain ⟨⟨member,firstUses,next⟩,one,_⟩ := bind_ok.mp (by simpa only [deserializeMembers] using looped)
    have inner : 0 < headBytes t := Nat.pos_of_mul_pos_left (by simpa only [headBytes,firstHead] using word)
    exact ih t List.mem_cons_self first inner _ _ _ (component_static first one).1 small
  | struct name value ih =>
    intro static word cursor out uses decoded small
    obtain ⟨members,looped,_⟩ := decoded_struct decoded
    rw [cursorAt_position] at looped
    exact members_readFirst ih (anyDynamicType_false (by simpa only [dynamicType] using static)) word looped small

/-! ### All of a straight tree -/

/-- A static tree reads all of its head, so the head is inside the buffer. -/
def ReadsAll (U : Utilities) (ndebug : Bool) (buffer : Bytes) (t : AbstractType) : Prop :=
  dynamicType t = .ok false → ∀ (cursor : Cursor) out uses, bits cursor < 2 ^ 31 →
    deserializeUses U ndebug buffer t cursor.position = .ok (out,uses) →
      headBytes t = 0 ∨ bits cursor + headBytes t ≤ buffer.length

theorem position_of_small {cursor : Cursor} (small : bits cursor < 2 ^ 31) : cursor.position.toNat = bits cursor := by
  rw [position_toNat,if_neg (by omega),Nat.add_zero]

private theorem bits_advance_small {cursor : Cursor} {size : Nat} (small : bits cursor + size < 2 ^ 32) :
    bits (cursor.advance (UInt32.ofNat size)) = bits cursor + size := by
  have fits : (UInt32.ofNat size).toNat = size := by
    rw [UInt32.toNat_ofNat']
    omega
  rw [bits_advance,fits]
  omega

/-- The head of a static tree that has a type. -/
theorem headBytes_eq {t : AbstractType} {ty : Ty} (typed : HeadType t ty) (static : ty.dynamic = false) :
    headBytes t = ty.headSize := by
  induction typed with
  | @fixedList name dimension vs ty full nonempty each ih =>
    cases vs with
    | nil => simp at full; omega
    | cons v vs =>
      have flat : ty.dynamic = false := static
      rw [headBytes,firstHead,ih v List.mem_cons_self flat,full,Ty.headSize,flat]
      rfl
  | @struct name vs ts count each ih =>
    have flat : anyDynamic ts = false := static
    have members := pairwise_of_zip (R := fun v t => t.dynamic = false → headBytes v = t.headSize) count ih
    have sums : sumHeads vs = headSizes ts := by
      clear each ih count static
      induction members with
      | nil => rfl
      | @cons v t vs ts here later members =>
        obtain ⟨first,others⟩ := List.forall_mem_cons.mp (anyDynamic_eq_false.mp flat)
        rw [sumHeads,headSizes,here first,members (anyDynamic_eq_false.mpr others)]
    simp only [headBytes,sums,Ty.headSize,flat,Bool.false_eq_true,if_false]
  | string name content | dynamicBytes name content | dynamicList name vs t => cases static
  | _ => rfl

private theorem members_readAll (bounded : buffer.length < 2 ^ 31) {check : OffsetCheck} {base : UInt64} {ts : List AbstractType}
    (reads : ∀ t ∈ ts, ReadsAll U ndebug buffer t) (static : ∀ t ∈ ts, dynamicType t = .ok false) {cursor : Cursor}
    {outs : List AbstractType} {uses : List Use} (small : bits cursor < 2 ^ 31)
    (decoded : deserializeMembers U ndebug buffer check base ts ts.length cursor = .ok (outs,uses)) :
    sumHeads ts = 0 ∨ bits cursor + sumHeads ts ≤ buffer.length := by
  induction ts generalizing cursor outs uses with
  | nil => exact .inl rfl
  | cons t ts ih =>
    obtain ⟨here,later⟩ := List.forall_mem_cons.mp reads
    obtain ⟨flat,others⟩ := List.forall_mem_cons.mp static
    obtain ⟨⟨out,first,next⟩,one,more⟩ := bind_ok.mp (by simpa only [List.length_cons,deserializeMembers] using decoded)
    obtain ⟨⟨rest,remaining⟩,looped,_⟩ := bind_ok.mp more
    obtain ⟨decodedTree,moved⟩ := component_static flat one
    rw [sumHeads]
    rcases here flat cursor _ _ small decodedTree with empty | inside
    · have stays : next = cursor := by rw [moved,empty]; exact advance_zero cursor
      simp only [stays] at looped
      have := ih later others small looped
      omega
    · have place : bits next = bits cursor + headBytes t := by rw [moved,bits_advance_small (by omega)]
      have rest : sumHeads ts = 0 ∨ bits next + sumHeads ts ≤ buffer.length :=
        ih later others (show bits next < 2 ^ 31 by omega) looped
      omega

private theorem readsAll_leaf {t : AbstractType} (leaf : headBytes t = 32) : ReadsAll U ndebug buffer t := by
  intro static cursor out uses small decoded
  have inside := readsFirst t static (by omega) cursor out uses decoded
  rw [position_of_small small] at inside
  exact .inr (by rw [leaf]; exact inside (by omega))

theorem readsAll (bounded : buffer.length < 2 ^ 31) {t : AbstractType} {ty : Ty} (typed : HeadType t ty) :
    ReadsAll U ndebug buffer t := by
  induction typed with
  | @fixedList name dimension vs ty full nonempty each ih =>
    intro static cursor out uses small decoded
    have flat : ty.dynamic = false := by
      have whole := dynamicType_eq (HeadType.fixedList name full nonempty each)
      rw [static] at whole
      exact (Except.ok.inj whole).symm
    obtain ⟨members,looped,_⟩ := decoded_fixedList decoded
    rw [cursorAt_position,← full] at looped
    have heads : headBytes (.fixedList name dimension vs) = sumHeads vs := by
      have sums : ∀ ws : List AbstractType, (∀ w ∈ ws, HeadType w ty) → sumHeads ws = ws.length * ty.headSize := by
        intro ws
        induction ws with
        | nil => simp [sumHeads]
        | cons w ws more =>
          intro all
          obtain ⟨here,later⟩ := List.forall_mem_cons.mp all
          rw [sumHeads,headBytes_eq here flat,more later,List.length_cons,Nat.succ_mul,Nat.add_comm]
      rw [headBytes_eq (HeadType.fixedList name full nonempty each) flat,sums vs each,full,Ty.headSize,flat]
      rfl
    rw [heads]
    exact members_readAll bounded ih (fun v member => by rw [dynamicType_eq (each v member),flat]) small looped
  | @struct name vs ts count each ih =>
    intro static cursor out uses small decoded
    obtain ⟨members,looped,_⟩ := decoded_struct decoded
    rw [cursorAt_position] at looped
    rw [headBytes]
    exact members_readAll bounded (zip_left count ih) (anyDynamicType_false (by simpa only [dynamicType] using static))
      small looped
  | _ => exact readsAll_leaf rfl

end

end CppSdk.TreeHeads

import CppSdk.BufferWalk

/-!
The decoder on arbitrary input. On a buffer below 2^31 bytes, what it used as offsets
and lengths was in range exactly when no such word of the buffer wraps around a `size_t`
(`deserialize_safe`): the one check of a position is an upper bound, made after the sum.
-/
namespace CppSdk.DecoderSafety
open CppSdk.ByteString CppSdk.Runtime CppSdk.ContractABIType CppSdk.ContractABITypeCodec CppSdk.BufferWalk

/-! ### Ranges -/

/-- The word was in range as an unbounded integer: a word fits at the offset of a
    component, and the value is the bytes after its length. -/
def InRange (buffer : Bytes) : Use → Prop
  | .offset base w => base.toNat + w.toNat + 32 ≤ buffer.length
  | .length position len value =>
    position.toNat + 32 + len.toNat ≤ buffer.length ∧ value.length = len.toNat ∧
      Occurs buffer (position.toNat + 32) value
/-- The position of the last byte that the word stands for is a `size_t`. -/
def Unwrapped : Use → Prop
  | .offset base w => base.toNat + w.toNat + 31 < 2 ^ 64
  | .length position len _ => position.toNat + 31 + len.toNat < 2 ^ 64

section
variable {U : Utilities} {ndebug : Bool} {buffer : Bytes}

theorem inRange_unwrapped (bounded : buffer.length < 2 ^ 31) {use : Use} (inside : InRange buffer use) :
    Unwrapped use := by
  cases use with
  | offset base w => simp only [InRange,Unwrapped] at inside ⊢; omega
  | length position len value => simp only [InRange,Unwrapped] at inside ⊢; omega

/-- The bytes of a `bytes` or a `string` that do not wrap are in range. -/
theorem deserializeBytes_inRange (bounded : buffer.length < 2 ^ 31) {offset : UInt64} {value : Bytes} {use : Use}
    (read : deserializeBytes U buffer offset = .ok (value,use)) (unwrapped : Unwrapped use) : InRange buffer use := by
  obtain ⟨len,header,more⟩ := bind_ok.mp read
  obtain ⟨⟨⟩,verified,⟨⟩⟩ := bind_ok.mp more
  simp only [Unwrapped] at unwrapped
  have inside := verifyBufferOffset_iff.mp verified
  have size := sizeOfWord_toNat (w := len) (by omega)
  have last : offset + 32 + sizeOfWord len - 1 = offset + (31 + sizeOfWord len) := by grind
  have sum : (31 + sizeOfWord len).toNat = 31 + len.toNat := by
    rw [add_toNat (by rw [size]; simp; omega),size]
    rfl
  rw [last,add_toNat (by omega),sum] at inside
  rw [add_word (by omega),size]
  obtain ⟨sizes,found⟩ := getCroppedData_slice (show offset.toNat + 32 + len.toNat ≤ buffer.length by omega)
  exact ⟨by omega,sizes,found⟩

/-- A word that does not wrap reaches the position that it says. -/
theorem target_toNat {base : UInt64} {w : U256} (unwrapped : base.toNat + w.toNat + 31 < 2 ^ 64) :
    (base + sizeOfWord w).toNat = base.toNat + w.toNat := by
  have size := sizeOfWord_toNat (w := w) (by omega)
  rw [add_toNat (by omega),size]

/-! ### One component -/

/-- What a successful decode of a tree guarantees when no word wrapped: the words are in
    range, and a dynamic tree has a word at its position. -/
def Sound (U : Utilities) (ndebug : Bool) (buffer : Bytes) (t : AbstractType) : Prop :=
  ∀ offset out uses, deserializeUses U ndebug buffer t offset = .ok (out,uses) → (∀ use ∈ uses, Unwrapped use) →
    (∀ use ∈ uses, InRange buffer use) ∧
      (dynamicType t = .ok true → offset.toNat + 31 < 2 ^ 64 → offset.toNat + 32 ≤ buffer.length)

/-- A component: its words are in range, and so is the base of a dynamic one. -/
theorem component_inRange {t : AbstractType} (sound : Sound U ndebug buffer t) {check : OffsetCheck} {base : UInt64}
    {cursor next : Cursor} {out : AbstractType} {uses : List Use}
    (decoded : deserializeComponent U buffer (fun o => deserializeUses U ndebug buffer t o) (dynamicType t) check base
      cursor = .ok (out,uses,next)) (unwrapped : ∀ use ∈ uses, Unwrapped use) :
    (∀ use ∈ uses, InRange buffer use) ∧ (dynamicType t = .ok true → base.toNat + 32 ≤ buffer.length) := by
  obtain ⟨dynamic,dynamics,component⟩ := bind_ok.mp decoded
  cases dynamic with
  | true =>
    simp only [if_true] at component
    obtain ⟨w,read,checked⟩ := bind_ok.mp component
    obtain ⟨⟨⟩,_,rest⟩ := bind_ok.mp checked
    obtain ⟨⟨tree,inner⟩,decodedTree,sized⟩ := bind_ok.mp rest
    obtain ⟨size,_,⟨⟩⟩ := bind_ok.mp sized
    obtain ⟨here,later⟩ := List.forall_mem_cons.mp unwrapped
    simp only [Unwrapped] at here
    obtain ⟨innerRange,innerBase⟩ := sound _ _ _ decodedTree later
    have target := target_toNat here
    have inside := innerBase dynamics (by omega)
    rw [target] at inside
    exact ⟨List.forall_mem_cons.mpr ⟨inside,innerRange⟩,fun _ => by omega⟩
  | false =>
    simp only [Bool.false_eq_true,if_false] at component
    obtain ⟨⟨tree,inner⟩,decodedTree,sized⟩ := bind_ok.mp component
    obtain ⟨size,_,⟨⟩⟩ := bind_ok.mp sized
    exact ⟨(sound _ _ _ decodedTree unwrapped).1,fun isDynamic => by simp [dynamics] at isDynamic⟩

/-! ### Loops -/

/-- The loop of `T[]`. -/
theorem elements_inRange {t : AbstractType} (sound : Sound U ndebug buffer t) {check : OffsetCheck} {base : UInt64} :
    ∀ {count : Nat} {cursor : Cursor} {outs : List AbstractType} {uses : List Use},
      deserializeElements (fun cursor => do
          let _ ← clone t
          deserializeComponent U buffer (fun o => deserializeUses U ndebug buffer t o) (dynamicType t) check base cursor)
        count cursor = .ok (outs,uses) →
      (∀ use ∈ uses, Unwrapped use) → ∀ use ∈ uses, InRange buffer use := by
  intro count
  induction count with
  | zero =>
    intro cursor outs uses decoded
    cases decoded
    simp
  | succ count ih =>
    intro cursor outs uses decoded unwrapped
    obtain ⟨⟨out,first,next⟩,one,more⟩ := bind_ok.mp decoded
    obtain ⟨⟨rest,others⟩,looped,⟨⟩⟩ := bind_ok.mp more
    obtain ⟨copy,_,component⟩ := bind_ok.mp one
    rw [List.forall_mem_append] at unwrapped ⊢
    exact ⟨(component_inRange sound component unwrapped.1).1,ih looped unwrapped.2⟩

/-- The loop over the members of a fixed list or of a struct. -/
theorem members_inRange {check : OffsetCheck} {base : UInt64} :
    ∀ {ts : List AbstractType}, (∀ t ∈ ts, Sound U ndebug buffer t) →
      ∀ {count : Nat} {cursor : Cursor} {outs : List AbstractType} {uses : List Use},
        deserializeMembers U ndebug buffer check base ts count cursor = .ok (outs,uses) →
        (∀ use ∈ uses, Unwrapped use) → (∀ use ∈ uses, InRange buffer use) ∧
          ((∃ t ∈ ts.take count, dynamicType t = .ok true) → base.toNat + 32 ≤ buffer.length) := by
  intro ts
  induction ts with
  | nil =>
    intro _ count cursor outs uses decoded
    cases count with
    | zero => cases decoded; simp
    | succ count => simp [deserializeMembers] at decoded
  | cons t ts ih =>
    intro sound count cursor outs uses decoded unwrapped
    cases count with
    | zero => cases decoded; simp
    | succ count =>
      obtain ⟨here,later⟩ := List.forall_mem_cons.mp sound
      obtain ⟨⟨out,first,next⟩,one,more⟩ := bind_ok.mp (by simpa only [deserializeMembers] using decoded)
      obtain ⟨⟨rest,others⟩,looped,⟨⟩⟩ := bind_ok.mp more
      rw [List.forall_mem_append] at unwrapped ⊢
      obtain ⟨inFirst,firstBase⟩ := component_inRange here one unwrapped.1
      obtain ⟨inRest,restBase⟩ := ih later looped unwrapped.2
      refine ⟨⟨inFirst,inRest⟩,?_⟩
      rintro ⟨u,member,dynamic⟩
      rcases List.mem_cons.mp (by simpa using member) with rfl | inTake
      · exact firstBase dynamic
      · exact restBase ⟨u,inTake,dynamic⟩

/-! ### Trees -/

private theorem anyDynamicType_mem {ts : List AbstractType} (dynamic : anyDynamicType ts = .ok true) :
    ∃ t ∈ ts, dynamicType t = .ok true := by
  induction ts with
  | nil => simp [anyDynamicType] at dynamic
  | cons t ts ih =>
    obtain ⟨first,dynamics,rest⟩ := bind_ok.mp (by simpa only [anyDynamicType] using dynamic)
    cases first with
    | true => exact ⟨t,List.mem_cons_self,dynamics⟩
    | false =>
      obtain ⟨u,member,isDynamic⟩ := ih (by simpa using rest)
      exact ⟨u,List.mem_cons_of_mem _ member,isDynamic⟩

/-- A dynamic fixed list is full, and its first member is dynamic. -/
theorem firstDynamicType_mem {name : Bytes} {dimension : UInt32} {value : List AbstractType}
    (dynamic : dynamicType (.fixedList name dimension value) = .ok true) :
    ∃ t ∈ value.take dimension.toNat, dynamicType t = .ok true := by
  obtain ⟨⟨⟩,verified,first⟩ := bind_ok.mp (by simpa only [dynamicType] using dynamic)
  by_cases zero : dimension = 0
  · simp [verifyDimension,zero,throws] at verified
  · by_cases full : dimension.toNat = value.length
    · rw [full,List.take_length]
      cases value with
      | nil => simp [firstDynamicType] at first
      | cons t ts => exact ⟨t,List.mem_cons_self,first⟩
    · simp [verifyDimension,zero,full,throws] at verified

/-- Every tree is decoded soundly. -/
theorem sound (bounded : buffer.length < 2 ^ 31) (t : AbstractType) : Sound U ndebug buffer t := by
  induction t using AbstractType.induct with
  | boolean name b | uint name extent u | int name extent i | addr name text =>
    intro offset out uses decoded _
    obtain ⟨value,_,⟨⟩⟩ := bind_ok.mp decoded
    simp [dynamicType]
  | fixedBytes name fixedN content =>
    intro offset out uses decoded _
    obtain ⟨bytes,_,rfl,rfl⟩ := decoded_fixedBytes decoded
    simp [dynamicType]
  | string name content | dynamicBytes name content =>
    intro offset out uses decoded unwrapped
    obtain ⟨⟨value,use⟩,read,⟨⟩⟩ := bind_ok.mp decoded
    have inside := deserializeBytes_inRange bounded read (unwrapped use (by simp))
    obtain ⟨len,header,_⟩ := bind_ok.mp read
    exact ⟨by simpa using inside,fun _ small => deserializeU256_inside header small⟩
  | dynamicList name value ih =>
    intro offset out uses decoded unwrapped
    obtain ⟨listSize,header,⟨rfl,rfl,rfl⟩ | ⟨template,others,elements,rfl,looped,rfl⟩⟩ := decoded_dynamicList decoded
    · exact ⟨by simp,fun _ small => deserializeU256_inside header small⟩
    · exact ⟨elements_inRange (ih template (by simp)) looped unwrapped,fun _ small => deserializeU256_inside header small⟩
  | fixedList name dimension value ih =>
    intro offset out uses decoded unwrapped
    obtain ⟨members,looped,rfl⟩ := decoded_fixedList decoded
    obtain ⟨inside,base⟩ := members_inRange ih looped unwrapped
    exact ⟨inside,fun dynamic _ => base (firstDynamicType_mem dynamic)⟩
  | struct name value ih =>
    intro offset out uses decoded unwrapped
    obtain ⟨members,looped,rfl⟩ := decoded_struct decoded
    obtain ⟨inside,base⟩ := members_inRange ih looped unwrapped
    refine ⟨inside,fun dynamic _ => base ?_⟩
    rw [List.take_length]
    exact anyDynamicType_mem (by simpa only [dynamicType] using dynamic)

/-! ### Safety -/

/-- Whenever the decoder, without its assertions, returns, the words it used were in range. -/
def Safe (U : Utilities) (buffer : Bytes) (t : AbstractType) (offset : UInt64) : Prop :=
  ∀ out uses, deserializeUses U true buffer t offset = .ok (out,uses) → ∀ use ∈ uses, InRange buffer use
/-- In the buffer no offset and no length that the tree has there wraps, unless something else is missing. -/
def Orderly (buffer : Bytes) (t : AbstractType) (offset : UInt64) : Prop :=
  Found buffer (fun _ => True) t offset → Found buffer Unwrapped t offset

/-- The decoder is safe exactly on orderly buffers. -/
theorem deserialize_safe (bounded : buffer.length < 2 ^ 31) (t : AbstractType) (offset : UInt64) :
    Safe U buffer t offset ↔ Orderly buffer t offset := by
  constructor
  · intro safe found
    obtain ⟨out,uses,decoded,_⟩ := (found_iff (U := U) t offset).mp found
    exact (found_iff t offset).mpr ⟨out,uses,decoded,fun use member => inRange_unwrapped bounded (safe out uses decoded use member)⟩
  · intro orderly out uses decoded
    have found : Found buffer (fun _ => True) t offset := (found_iff t offset).mpr ⟨out,uses,decoded,fun _ _ => trivial⟩
    obtain ⟨tree,words,same,unwrapped⟩ := (found_iff t offset).mp (orderly found)
    obtain ⟨rfl,rfl⟩ := Prod.mk.inj (Except.ok.inj (same.symm.trans decoded))
    exact (sound bounded t offset tree words decoded unwrapped).1

/-- The members `["A"]` and `true` of a struct. -/
def listAndFlag : Bytes := word 64 ++ word 1 ++ (word 1 ++ (word 32 ++ (word 1 ++ padRight [65])))
def listAndFlagTree : AbstractType := .struct [] [.dynamicList [] [.string [] []],.boolean [] false]

set_option maxRecDepth 8000 in
theorem deserialize_safe_struct : Safe Utilities.reference listAndFlag listAndFlagTree 0 ∧ Orderly listAndFlag listAndFlagTree 0 := by
  have bounded : listAndFlag.length < 2 ^ 31 := by decide +kernel
  have orderly : Orderly listAndFlag listAndFlagTree 0 := by
    have decoded : deserializeUses Utilities.reference true listAndFlag listAndFlagTree 0 =
        .ok (.struct [] [.dynamicList [] [.string [] [65]],.boolean [] true],
          [.offset 0 64,.offset 96 32,.length 128 1 [65]]) := by rfl
    exact fun _ => (found_iff _ _).mpr ⟨_,_,decoded,by simp [Unwrapped]⟩
  exact ⟨(deserialize_safe bounded _ _).mpr orderly,orderly⟩

/-- A `string` whose length is 2^64 is accepted as the empty one. -/
theorem deserialize_wrapped_length : deserialize Utilities.reference true (word (2 ^ 64)) (.string [] []) 0 = .ok (.string [] []) ∧
    ¬ Safe Utilities.reference (word (2 ^ 64)) (.string [] []) 0 := by
  have decoded : deserializeUses Utilities.reference true (word (2 ^ 64)) (.string [] []) 0 =
      .ok (.string [] [],[.length 0 (BitVec.ofNat 256 (2 ^ 64)) []]) := rfl
  refine ⟨rfl,fun safe => ?_⟩
  have inside := safe _ _ decoded _ (List.mem_singleton_self _)
  simp [InRange] at inside

end

end CppSdk.DecoderSafety

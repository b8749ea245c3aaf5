import CppSdk.ArgumentWalk
import CppSdk.DecoderSafety
import CppSdk.SolidityRoundTrip

/-!
The templates on arbitrary data. Where all is there that the types look for, what `abiOut` used as
offsets, lengths and counts was in range exactly when no such word of the data wraps around a
`size_t` (`abiOut_safe_iff`).
-/
namespace CppSdk.SoliditySafety
open CppSdk.ByteString CppSdk.Runtime CppSdk.SolidityCodec CppSdk.ArgumentWalk
open CppSdk.SolidityLayout (lengthOf_positive lengthOf_dynamic)
open CppSdk.SolidityRoundTrip (elementCursor_next)
open CppSdk.DecoderSafety (target_toNat)

section
variable {U : Utilities} {data : Bytes}

/-! ### Ranges -/

/-- The word is in range as an unbounded integer: a word of the component fits at the
    offset, the content is the bytes after the length, the heads of the elements are
    inside the data. -/
def InRange (data : Bytes) : Use → Prop
  | .offset base w => base.toNat + w.toNat + 32 ≤ data.length
  | .unread base w => base.toNat + w.toNat ≤ data.length
  | .length position w content =>
    position.toNat + 32 + w.toNat ≤ data.length ∧ content.length = w.toNat ∧ Occurs data (position.toNat + 32) content
  | .count position w T => position.toNat + 32 + w.toNat * (lengthOf T * 32) ≤ data.length
/-- The word and the position of the last byte that it stands for are a `size_t`. Nothing
    is read where a tuple without members starts, so its offset has to be in range by itself. -/
def Unwrapped (data : Bytes) : Use → Prop
  | .offset base w => base.toNat + w.toNat + 31 < 2 ^ 64
  | .unread base w => base.toNat + w.toNat ≤ data.length
  | .length position w _ => position.toNat + 31 + w.toNat < 2 ^ 64
  | .count _ w _ => w.toNat < 2 ^ 64

variable (bounded : data.length < 2 ^ 63)
include bounded

theorem inRange_unwrapped {use : Use} (inside : InRange data use) : Unwrapped data use := by
  cases use with
  | offset base w => simp only [InRange,Unwrapped] at inside ⊢; omega
  | unread base w => exact inside
  | length position w content => simp only [InRange,Unwrapped] at inside ⊢; omega
  | count position w T =>
    have positive := lengthOf_positive T
    simp only [InRange,Unwrapped] at inside ⊢
    have least : w.toNat ≤ w.toNat * (lengthOf T * 32) := Nat.le_mul_of_pos_right _ (by omega)
    omega

omit bounded in
theorem validOffset_word {position : UInt64} (small : position.toNat + 31 < 2 ^ 64)
    (valid : validOffset U data (position + 32 - 1) = .ok ()) : position.toNat + 32 ≤ data.length := by
  have inside := validOffset_iff.mp valid
  rw [last_word,add_toNat (by simpa using small)] at inside
  exact inside
omit bounded in
theorem deserializeU256_inside {position : UInt64} {w : U256} (small : position.toNat + 31 < 2 ^ 64)
    (read : deserializeU256 U data position = .ok w) : position.toNat + 32 ≤ data.length := by
  obtain ⟨⟨⟩,valid,_⟩ := bind_ok.mp read
  exact validOffset_word small valid

/-- The content of a string or of bytes whose length does not wrap is in range. -/
theorem bytes_inRange {position : UInt64} {len : U256} {content : Bytes} (small : position.toNat + 31 < 2 ^ 64)
    (header : deserializeU256 U data position = .ok len) (read : deserializeBytes U data position = .ok content)
    (unwrapped : Unwrapped data (.length position len content)) : InRange data (.length position len content) := by
  have word := deserializeU256_inside small header
  rw [deserializeBytes,header,ok_bind] at read
  obtain ⟨⟨⟩,valid,⟨⟩⟩ := bind_ok.mp read
  simp only [Unwrapped] at unwrapped
  have size := sizeOfWord_toNat (w := len) (by omega)
  have after : (position + 32).toNat = position.toNat + 32 := add_word (by omega)
  have last : position + 32 + sizeOfWord len - 1 = position + 31 + sizeOfWord len := by grind
  have before : (position + 31).toNat = position.toNat + 31 := add_toNat (by simp; omega)
  have inside := validOffset_iff.mp valid
  rw [last,add_toNat (by omega),before,size] at inside
  rw [after,size]
  obtain ⟨sizes,found⟩ := getCroppedData_slice (show position.toNat + 32 + len.toNat ≤ data.length by omega)
  exact ⟨by omega,sizes,found⟩

/-! ### One component -/

/-- What a successful decode of a type guarantees when no word wrapped: the words are in
    range, and so is the head of the type at its position. -/
def Sound (U : Utilities) (data : Bytes) (T : ArgType) : Prop :=
  ∀ position out uses, position.toNat + 31 < 2 ^ 64 → decodeUses U data T position = .ok (out,uses) →
    (∀ use ∈ uses, Unwrapped data use) →
    (∀ use ∈ uses, InRange data use) ∧ (Hollow T = false → position.toNat + lengthOf T * 32 ≤ data.length)

omit bounded in
private theorem dynamic_of_hollow {T : ArgType} (hollow : Hollow T = true) : abiDynamicType T = true := by
  cases T with
  | tuple Ts => rfl
  | _ => cases hollow

omit bounded in
/-- A tuple without members reads nothing. -/
theorem uses_hollow {T : ArgType} (hollow : Hollow T = true) {position : UInt64} {out : T.Val} {uses : List Use}
    (decoded : decodeUses U data T position = .ok (out,uses)) : uses = [] := by
  cases T with
  | tuple Ts =>
    cases Ts with
    | nil =>
      cases decoded
      rfl
    | cons T Ts => cases hollow
  | _ => cases hollow

omit bounded in
/-- A component: its words are in range, and so is its head. -/
theorem component_inRange {T : ArgType} (sound : Sound U data T) {base cursor : UInt64} {out : T.Val} {uses : List Use}
    (small : cursor.toNat + 31 < 2 ^ 64)
    (decoded : componentUses U data T (fun o => decodeUses U data T o) base cursor = .ok (out,uses))
    (unwrapped : ∀ use ∈ uses, Unwrapped data use) :
    (∀ use ∈ uses, InRange data use) ∧ cursor.toNat + lengthOf T * 32 ≤ data.length := by
  rw [componentUses] at decoded
  by_cases dynamic : abiDynamicType T = true
  · rw [if_pos dynamic] at decoded
    obtain ⟨w,read,more⟩ := bind_ok.mp decoded
    obtain ⟨⟨x,inner⟩,target,⟨⟩⟩ := bind_ok.mp more
    have head := deserializeU256_inside small read
    rw [lengthOf_dynamic dynamic]
    obtain ⟨here,later⟩ := List.forall_mem_cons.mp unwrapped
    refine ⟨?_,by omega⟩
    cases hollow : Hollow T with
    | true =>
      rw [hollow] at here
      rw [uses_hollow hollow target]
      simpa [Unwrapped,InRange] using here
    | false =>
      rw [hollow] at here
      have reached := target_toNat here
      obtain ⟨inRange,start⟩ := sound _ _ _ (by rw [reached]; exact here) target later
      have inside := start hollow
      rw [reached,lengthOf_dynamic dynamic] at inside
      exact List.forall_mem_cons.mpr ⟨inside,inRange⟩
  · rw [if_neg dynamic] at decoded
    have full : Hollow T = false := by
      cases hollow : Hollow T with
      | true => exact absurd (dynamic_of_hollow hollow) dynamic
      | false => rfl
    obtain ⟨inRange,head⟩ := sound _ _ _ small decoded unwrapped
    exact ⟨inRange,head full⟩

/-! ### Loops -/

/-- The loop over the elements of an array or of a vector. -/
theorem elements_inRange {T : ArgType} (sound : Sound U data T) {base : UInt64} :
    ∀ {count u : Nat} {xs : {xs : List (T.Val × List Use) // xs.length = count}},
      (elementCursor T base u).toNat = base.toNat + u * (lengthOf T * 32) → (elementCursor T base u).toNat + 31 < 2 ^ 64 →
      deserializeElements (fun u => componentUses U data T (fun o => decodeUses U data T o) base (elementCursor T base u)) count u =
        .ok xs →
      (∀ use ∈ usesOf xs.1, Unwrapped data use) →
      (∀ use ∈ usesOf xs.1, InRange data use) ∧ (0 < count → base.toNat + (u + count) * (lengthOf T * 32) ≤ data.length) := by
  intro count
  induction count with
  | zero =>
    intro u xs _ _ decoded _
    cases decoded
    simp [usesOf]
  | succ count ih =>
    intro u xs plain small decoded unwrapped
    obtain ⟨⟨x,first⟩,one,more⟩ := bind_ok.mp decoded
    obtain ⟨rest,looped,⟨⟩⟩ := bind_ok.mp more
    have both : usesOf ((x,first) :: rest.1) = first ++ usesOf rest.1 := rfl
    simp only [both,List.forall_mem_append] at unwrapped ⊢
    obtain ⟨inFirst,head⟩ := component_inRange sound small one unwrapped.1
    have next : (elementCursor T base (u + 1)).toNat = base.toNat + (u + 1) * (lengthOf T * 32) := by
      have width : (UInt64.ofNat (lengthOf T * 32)).toNat = lengthOf T * 32 := by
        rw [UInt64.toNat_ofNat']
        omega
      rw [elementCursor_next,add_toNat (by omega),width,plain,Nat.succ_mul]
      omega
    have reached : base.toNat + (u + 1) * (lengthOf T * 32) ≤ data.length := by
      rw [Nat.succ_mul]
      omega
    obtain ⟨inRest,last⟩ := ih next (by omega) looped unwrapped.2
    refine ⟨⟨inFirst,inRest⟩,fun _ => ?_⟩
    cases count with
    | zero => exact reached
    | succ count =>
      have order : u + 1 + (count + 1) = u + (count + 1 + 1) := by omega
      exact order ▸ last (Nat.succ_pos count)

omit bounded in
/-- The size of a head in bytes, in the type that the enumeration promotes to. -/
theorem headBytes_le {words size : Nat} (counted : headBytes words = .ok size) : size ≤ words * 32 := by
  unfold headBytes at counted
  split_ifs at counted <;> cases counted
  · exact Nat.le_refl _
  · exact Nat.mod_le _ _
  · exact Nat.le_refl _
  · exact Nat.mod_le _ _

/-- The loop over the members of a tuple, or over the arguments. -/
theorem members_inRange {Ts : List ArgType} (sound : ∀ T ∈ Ts, Sound U data T) {base : UInt64} :
    ∀ {tupleOffset : UInt64} {xs : Vals Ts} {uses : List Use}, (base + tupleOffset).toNat + 31 < 2 ^ 64 →
      memberUses U data Ts base tupleOffset = .ok (xs,uses) → (∀ use ∈ uses, Unwrapped data use) →
      (∀ use ∈ uses, InRange data use) ∧ (Ts ≠ [] → (base + tupleOffset).toNat + 32 ≤ data.length) := by
  induction Ts with
  | nil =>
    intro tupleOffset xs uses _ decoded _
    cases decoded
    simp
  | cons T Ts ih =>
    intro tupleOffset xs uses small decoded unwrapped
    obtain ⟨here,later⟩ := List.forall_mem_cons.mp sound
    rw [memberUses] at decoded
    obtain ⟨⟨x,first⟩,one,more⟩ := bind_ok.mp decoded
    obtain ⟨size,counted,rest⟩ := bind_ok.mp more
    obtain ⟨⟨ys,others⟩,looped,⟨⟩⟩ := bind_ok.mp rest
    rw [List.forall_mem_append] at unwrapped ⊢
    obtain ⟨inFirst,head⟩ := component_inRange here small one unwrapped.1
    have positive := lengthOf_positive T
    have short := headBytes_le counted
    have next : (base + (tupleOffset + UInt64.ofNat size)).toNat = (base + tupleOffset).toNat + size := by
      have width : (UInt64.ofNat size).toNat = size := by
        rw [UInt64.toNat_ofNat']
        omega
      rw [← UInt64.add_assoc,add_toNat (by omega),width]
    obtain ⟨inRest,_⟩ := ih later (by omega) looped unwrapped.2
    exact ⟨⟨inFirst,inRest⟩,fun _ => by omega⟩

/-! ### Types -/

omit bounded in
/-- A type of one word that is read without using any. -/
theorem sound_word {T : ArgType} (plain : UInt64 → Call T.Val) (word : lengthOf T = 1)
    (decodes : ∀ position, decodeUses U data T position = (plain position).map (fun x => (x,[])))
    (inside : ∀ position x, position.toNat + 31 < 2 ^ 64 → plain position = .ok x → position.toNat + 32 ≤ data.length) :
    Sound U data T := by
  intro position out uses small decoded _
  rw [decodes] at decoded
  cases read : plain position with
  | error failure =>
    rw [read] at decoded
    cases decoded
  | ok x =>
    rw [read] at decoded
    cases decoded
    refine ⟨by simp,fun _ => ?_⟩
    rw [word]
    exact inside position out small read

/-- Every type is decoded soundly. -/
theorem sound (T : ArgType) : Sound U data T := by
  induction T using ArgType.induct with
  | u256 => exact sound_word (deserializeU256 U data) rfl (fun _ => by rw [decodeUses]) (fun _ _ small read => deserializeU256_inside small read)
  | s256 =>
    refine sound_word (deserializeS256 U data) rfl (fun _ => by rw [decodeUses]) (fun position x small read => ?_)
    obtain ⟨u,header,_⟩ := bind_ok.mp read
    exact deserializeU256_inside small header
  | bool =>
    refine sound_word (deserializeBool U data) rfl (fun _ => by rw [decodeUses]) (fun position x small read => ?_)
    obtain ⟨u,header,_⟩ := bind_ok.mp read
    exact deserializeU256_inside small header
  | address =>
    refine sound_word (deserializeAddress U data) rfl (fun _ => by rw [decodeUses]) (fun position x small read => ?_)
    obtain ⟨⟨⟩,valid,_⟩ := bind_ok.mp read
    exact validOffset_word small valid
  | string32 =>
    refine sound_word (deserializeString32 U data) rfl (fun _ => by rw [decodeUses]) (fun position x small read => ?_)
    obtain ⟨⟨⟩,valid,_⟩ := bind_ok.mp read
    exact validOffset_word small valid
  | string =>
    intro position out uses small decoded unwrapped
    rw [decodeUses] at decoded
    obtain ⟨len,header,more⟩ := bind_ok.mp decoded
    obtain ⟨content,read,⟨⟩⟩ := bind_ok.mp more
    have inside := bytes_inRange bounded small header read (unwrapped _ (by simp))
    exact ⟨by simpa using inside,fun _ => deserializeU256_inside small header⟩
  | bytes =>
    intro position out uses small decoded unwrapped
    rw [decodeUses] at decoded
    obtain ⟨len,header,more⟩ := bind_ok.mp decoded
    obtain ⟨content,read,⟨⟩⟩ := bind_ok.mp more
    have inside := bytes_inRange bounded small header read (unwrapped _ (by simp))
    exact ⟨by simpa using inside,fun _ => deserializeU256_inside small header⟩
  | vector T ih =>
    intro position out uses small decoded unwrapped
    rw [decodeUses] at decoded
    obtain ⟨length,header,more⟩ := bind_ok.mp decoded
    obtain ⟨xs,looped,⟨⟩⟩ := bind_ok.mp more
    have word := deserializeU256_inside small header
    obtain ⟨here,later⟩ := List.forall_mem_cons.mp unwrapped
    have count := sizeOfWord_toNat here
    have base : (position + 32).toNat = position.toNat + 32 := add_word (by omega)
    have start : elementCursor T (position + 32) 0 = position + 32 := by
      rw [elementCursor]
      grind
    obtain ⟨inElements,last⟩ := elements_inRange bounded ih (by rw [start]; omega) (by rw [start]; omega) looped later
    refine ⟨List.forall_mem_cons.mpr ⟨?_,inElements⟩,fun _ => word⟩
    rw [count,base,Nat.zero_add] at last
    change position.toNat + 32 + length.toNat * (lengthOf T * 32) ≤ data.length
    by_cases some_element : 0 < length.toNat
    · exact last some_element
    · have empty : length.toNat = 0 := by omega
      rw [empty]
      omega
  | array T N ih =>
    intro position out uses small decoded unwrapped
    rw [decodeUses] at decoded
    obtain ⟨xs,looped,⟨⟩⟩ := bind_ok.mp decoded
    have start : elementCursor T position 0 = position := by
      rw [elementCursor]
      grind
    obtain ⟨inElements,last⟩ := elements_inRange bounded ih (by rw [start]; omega) (by rw [start]; omega) looped unwrapped
    refine ⟨inElements,fun _ => ?_⟩
    have whole := last N.pos
    have positive := lengthOf_positive T
    rw [Nat.zero_add,← Nat.mul_assoc] at whole
    rw [lengthOf]
    split
    · have one : 1 ≤ (N : Nat) * lengthOf T := Nat.mul_pos N.pos positive
      omega
    · exact whole
  | tuple Ts ih =>
    intro position out uses small decoded unwrapped
    rw [decodeUses] at decoded
    have start : position + 0 = position := by grind
    obtain ⟨inside,head⟩ := members_inRange bounded ih (by rw [start]; exact small) decoded unwrapped
    refine ⟨inside,fun full => ?_⟩
    have some_member : Ts ≠ [] := by
      rintro rfl
      cases full
    rw [start] at head
    exact head some_member

end

/-! ### Safety -/

section
variable (U : Utilities) (data : Bytes)

/-- The words that `abiOut` has used when it accepts the data. -/
def usedWords (Ts : List ArgType) : List Use :=
  match memberUses U data Ts 0 0 with
  | .ok (_,uses) => uses
  | .error _ => []
/-- Where `abiOut` returns true, every word it used is in range. -/
def Safe (Ts : List ArgType) : Prop := (∃ xs, abiOut U data Ts = .ok (some xs)) → ∀ use ∈ usedWords U data Ts, InRange data use
end

section
variable {U : Utilities} {data : Bytes}

/-- `abiOut` accepts exactly when the decoder with the words does, with the same arguments. -/
theorem abiOut_iff_memberUses {Ts : List ArgType} {xs : Vals Ts} :
    abiOut U data Ts = .ok (some xs) ↔ ∃ uses, memberUses U data Ts 0 0 = .ok (xs,uses) := by
  rw [abiOut,abiOutAux,← map_fst_members (fun T _ => map_fst_decodeUses T)]
  cases memberUses U data Ts 0 0 with
  | ok out =>
    obtain ⟨ys,uses⟩ := out
    simp [Except.map]
  | error failure => cases failure <;> simp [Except.map]

/-- No word of the data that the types take as an offset, a length or a number of elements wraps, unless something
    else is missing. -/
def Orderly (data : Bytes) (Ts : List ArgType) : Prop :=
  MembersFound data (fun _ => True) Ts 0 0 → MembersFound data (Unwrapped data) Ts 0 0

/-- `abiOut` is safe exactly on orderly data. -/
theorem abiOut_safe_iff (bounded : data.length < 2 ^ 63) (Ts : List ArgType) : Safe U data Ts ↔ Orderly data Ts := by
  have agrees : ∀ P, MembersFound data P Ts 0 0 ↔ ∃ xs uses, memberUses U data Ts 0 0 = .ok (xs,uses) ∧ ∀ use ∈ uses, P use :=
    fun P => membersFound_iff (fun T _ => found_iff T) 0 0
  constructor
  · intro safe found
    obtain ⟨xs,uses,decoded,_⟩ := (agrees _).mp found
    have words : usedWords U data Ts = uses := by rw [usedWords,decoded]
    have inRange := safe ⟨xs,abiOut_iff_memberUses.mpr ⟨uses,decoded⟩⟩
    rw [words] at inRange
    exact (agrees _).mpr ⟨xs,uses,decoded,fun use member => inRange_unwrapped bounded (inRange use member)⟩
  · rintro orderly ⟨xs,accepted⟩
    obtain ⟨uses,decoded⟩ := abiOut_iff_memberUses.mp accepted
    obtain ⟨ys,words,same,unwrapped⟩ := (agrees _).mp (orderly ((agrees _).mpr ⟨xs,uses,decoded,fun _ _ => trivial⟩))
    obtain ⟨rfl,rfl⟩ := Prod.mk.inj (Except.ok.inj (same.symm.trans decoded))
    have used : usedWords U data Ts = words := by rw [usedWords,decoded]
    rw [used]
    exact (members_inRange bounded (fun T _ => sound bounded T) (by decide) decoded unwrapped).1

/-- The arguments `["A"]` and 7. -/
def vectorAndNumber : Bytes := word 64 ++ word 7 ++ (word 1 ++ (word 32 ++ (word 1 ++ padRight [65])))

set_option maxRecDepth 8000 in
theorem abiOut_safe_vector : Safe Utilities.reference vectorAndNumber [.vector .string,.u256] ∧
    Orderly vectorAndNumber [.vector .string,.u256] := by
  have bounded : vectorAndNumber.length < 2 ^ 63 := by decide +kernel
  have orderly : Orderly vectorAndNumber [.vector .string,.u256] := by
    have decoded : memberUses Utilities.reference vectorAndNumber [.vector .string,.u256] 0 0 =
        .ok (([[65]],(7 : U256),()),[.offset 0 64,.count 64 1 .string,.offset 96 32,.length 128 1 [65]]) := by rfl
    exact fun _ => (membersFound_iff (fun T _ => found_iff T) 0 0).mpr ⟨_,_,decoded,by simp [Unwrapped]⟩
  exact ⟨(abiOut_safe_iff bounded _).mpr orderly,orderly⟩

/-- A string whose length is 2^64 is accepted as the empty one. -/
theorem abiOut_wrapped_length : abiOut Utilities.reference (word 32 ++ word (2 ^ 64)) [.string] = .ok (some ([],())) ∧
    ¬ Safe Utilities.reference (word 32 ++ word (2 ^ 64)) [.string] := by
  have decoded : memberUses Utilities.reference (word 32 ++ word (2 ^ 64)) [.string] 0 0 =
      .ok (([],()),[.offset 0 (BitVec.ofNat 256 32),.length 32 (BitVec.ofNat 256 (2 ^ 64)) []]) := rfl
  have words : usedWords Utilities.reference (word 32 ++ word (2 ^ 64)) [.string] =
      [.offset 0 (BitVec.ofNat 256 32),.length 32 (BitVec.ofNat 256 (2 ^ 64)) []] := by rw [usedWords,decoded]
  have accepted := abiOut_iff_memberUses.mpr ⟨_,decoded⟩
  refine ⟨accepted,fun safe => ?_⟩
  have inside := safe ⟨_,accepted⟩ (.length 32 (BitVec.ofNat 256 (2 ^ 64)) []) (by rw [words]; simp)
  simp [InRange] at inside

end

end CppSdk.SoliditySafety

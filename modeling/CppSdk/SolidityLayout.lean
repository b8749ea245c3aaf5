import CppSdk.SolidityAbi
import CppSdk.SolidityCodec

/-!
What the templates encode, as heads and tails. The parts of a value are the encodings of
its components with the flag `ABIDynamicType`; arrays, vectors and `abiIn` emit the layout
of their parts, a tuple emits it only when the first tail starts where it says.
-/
namespace CppSdk.SolidityLayout
open CppSdk.ByteString CppSdk.Runtime CppSdk.SolidityAbi CppSdk.SolidityCodec

/-! ### Traits -/

@[simp] theorem abiDynamicType_array (T : ArgType) (N : ℕ+) : abiDynamicType (.array T N) = abiDynamicType T := rfl
@[simp] theorem abiDynamicType_vector (T : ArgType) : abiDynamicType (.vector T) = true := rfl
@[simp] theorem abiDynamicType_tuple (Ts : List ArgType) : abiDynamicType (.tuple Ts) = true := rfl

theorem lengthOf_dynamic {T : ArgType} (dynamic : abiDynamicType T = true) : lengthOf T = 1 := by
  cases T with
  | array T N => rw [lengthOf,if_pos (by simpa using dynamic)]
  | _ => rfl
theorem lengthOf_positive (T : ArgType) : 0 < lengthOf T := by
  induction T using ArgType.induct with
  | array T N ih =>
    rw [lengthOf]
    split
    · exact Nat.one_pos
    · exact Nat.mul_pos N.pos ih
  | _ => exact Nat.one_pos

theorem length_le_offsetOf (Ts : List ArgType) : Ts.length ≤ offsetOf Ts := by
  induction Ts with
  | nil => exact Nat.le_refl _
  | cons T Ts ih =>
    have := lengthOf_positive T
    rw [offsetOf,List.length_cons]
    omega
/-- The heads are as many words as there are types exactly when each takes one. -/
theorem offsetOf_eq_length {Ts : List ArgType} : offsetOf Ts = Ts.length ↔ ∀ T ∈ Ts, lengthOf T = 1 := by
  induction Ts with
  | nil => simp [offsetOf]
  | cons T Ts ih =>
    have here := lengthOf_positive T
    have later := length_le_offsetOf Ts
    rw [offsetOf,List.length_cons,List.forall_mem_cons,← ih]
    constructor
    · intro same
      exact ⟨by omega,by omega⟩
    · rintro ⟨first,others⟩
      omega

theorem headBytes_small {words : Nat} (small : words * 32 < 2 ^ 31) : headBytes words = .ok (words * 32) := by
  rw [headBytes,if_pos (by omega),if_pos small]

/-! ### Parts -/

/-- A component with its encoding. -/
def part (T : ArgType) (x : T.Val) : Part := ⟨abiDynamicType T,serialise T x⟩
/-- The components of a tuple. -/
def parts : (Ts : List ArgType) → Vals Ts → List Part
  | [], _ => []
  | T :: Ts, (x,xs) => part T x :: parts Ts xs

private theorem parts_uniform {T : ArgType} (xs : List T.Val) : ∀ p ∈ xs.map (part T), p.dynamic = abiDynamicType T := by
  intro p member
  obtain ⟨x,_,rfl⟩ := List.mem_map.mp member
  rfl
theorem parts_static {Ts : List ArgType} (static : ∀ T ∈ Ts, abiDynamicType T = false) (xs : Vals Ts) :
    ∀ p ∈ parts Ts xs, p.dynamic = false := by
  induction Ts with
  | nil => exact fun _ member => (nomatch member)
  | cons T Ts ih =>
    obtain ⟨here,later⟩ := List.forall_mem_cons.mp static
    exact List.forall_mem_cons.mpr ⟨here,ih later xs.2⟩

private theorem serialiseU256_ofNat (n : Nat) : serialiseU256 (BitVec.ofNat 256 n) = word n := by
  rw [serialiseU256,BitVec.toNat_ofNat,word_mod]
theorem serialiseBytes_eq (content : Bytes) : serialiseBytes content = word content.length ++ padRight content := by
  have room : content.length ≤ (content.length + 31) / 32 * 32 := by omega
  rw [serialiseBytes,serialiseU256_ofNat,populate,List.take_of_length_le room,padRight,padded]

/-! ### The loops of the encoder -/

private theorem serialiseElements_dynamic {T : ArgType} (dynamic : abiDynamicType T = true) (xs : List T.Val) :
    ∀ length offsetBytes content, serialiseElements (abiDynamicType T) (serialise T) xs length offsetBytes content =
      offsetBytes ++ heads length (xs.map (part T)) ++ (content ++ tails (xs.map (part T))) := by
  induction xs with
  | nil => simp [serialiseElements,heads,tails]
  | cons x xs ih =>
    intro length offsetBytes content
    simp only [dynamic] at ih
    simp [serialiseElements,dynamic,ih,part,heads,tails,serialiseU256_ofNat]

private theorem serialiseElements_static {T : ArgType} (static : abiDynamicType T = false) (xs : List T.Val) :
    ∀ length offsetBytes content, serialiseElements (abiDynamicType T) (serialise T) xs length offsetBytes content =
      offsetBytes ++ (content ++ heads length (xs.map (part T))) := by
  induction xs with
  | nil => simp [serialiseElements,heads]
  | cons x xs ih =>
    intro length offsetBytes content
    simp only [static] at ih
    simp [serialiseElements,static,ih,part,heads]

/-- The loop emits the layout of the elements. -/
theorem serialiseElements_layout {T : ArgType} (xs : List T.Val) (offsetBytes : Bytes) :
    serialiseElements (abiDynamicType T) (serialise T) xs (xs.length * 32) offsetBytes [] =
      offsetBytes ++ layout (xs.map (part T)) := by
  have uniform := parts_uniform xs
  cases dynamic : abiDynamicType T with
  | true =>
    have looped := serialiseElements_dynamic dynamic xs (xs.length * 32) offsetBytes []
    simp only [dynamic] at uniform looped
    rw [looped,layout,headLength_dynamic uniform,List.length_map]
    simp
  | false =>
    have looped := serialiseElements_static dynamic xs (xs.length * 32) offsetBytes []
    simp only [dynamic] at uniform looped
    rw [looped,layout,tails_static uniform,heads_static uniform,heads_static uniform]
    simp

private theorem serialiseMembers_eq {Ts : List ArgType} (xs : Vals Ts) :
    ∀ offset fixed dynamic, serialiseMembers Ts xs offset fixed dynamic =
      (fixed ++ heads offset (parts Ts xs),dynamic ++ tails (parts Ts xs)) := by
  induction Ts with
  | nil => simp [serialiseMembers,parts,heads,tails]
  | cons T Ts ih =>
    obtain ⟨x,xs⟩ := xs
    intro offset fixed dynamic
    rw [serialiseMembers]
    by_cases isDynamic : abiDynamicType T = true
    · simp [isDynamic,ih,parts,part,heads,tails,serialiseU256_ofNat]
    · simp [isDynamic,ih,parts,part,heads,tails]

/-! ### What the encoder emits -/

theorem serialise_vector {T : ArgType} (xs : List T.Val) :
    serialise (.vector T) xs = word xs.length ++ layout (xs.map (part T)) := by
  show serialiseElements (abiDynamicType T) (serialise T) xs (xs.length * 32)
    (serialiseU256 (BitVec.ofNat 256 xs.length)) [] = _
  rw [serialiseElements_layout,serialiseU256_ofNat]
theorem serialise_array {T : ArgType} {N : ℕ+} (xs : {xs : List T.Val // xs.length = N}) :
    serialise (.array T N) xs = layout (xs.1.map (part T)) := by
  have whole := serialiseElements_layout xs.1 []
  rw [xs.2,List.nil_append] at whole
  exact whole
/-- The first tail of a tuple is announced after one word for each member. -/
theorem serialise_tuple {Ts : List ArgType} (xs : Vals Ts) :
    serialise (.tuple Ts) xs = heads (Ts.length * 32) (parts Ts xs) ++ tails (parts Ts xs) := by
  show (serialiseMembers Ts xs (Ts.length * 32) [] []).1 ++ (serialiseMembers Ts xs (Ts.length * 32) [] []).2 = _
  rw [serialiseMembers_eq]
  rfl
/-- The first tail of the arguments is announced after their heads. -/
theorem abiIn_eq (hash : Bytes → Bytes) {Ts : List ArgType} (xs : Vals Ts) {offset : Nat}
    (first : headBytes (offsetOf Ts) = .ok offset) :
    abiIn hash [] Ts xs = .ok (heads offset (parts Ts xs) ++ tails (parts Ts xs)) := by
  simp [abiIn,first,serialiseMembers_eq]

/-! ### Sizes -/

private theorem headLength_map {T : ArgType} (each : ∀ x : T.Val, (part T x).headSize = lengthOf T * 32) (xs : List T.Val) :
    headLength (xs.map (part T)) = xs.length * lengthOf T * 32 := by
  induction xs with
  | nil => simp [headLength]
  | cons x xs ih =>
    rw [List.map_cons,headLength,each,ih,List.length_cons,← Nat.add_mul,Nat.succ_mul,Nat.add_comm]
/-- A component takes its `Length` in words in a head. -/
theorem part_headSize {T : ArgType} (x : T.Val) : (part T x).headSize = lengthOf T * 32 := by
  induction T using ArgType.induct with
  | array T N ih =>
    by_cases dynamic : abiDynamicType T = true
    · simp [part,Part.headSize,dynamic,lengthOf]
    · have static : abiDynamicType T = false := by simpa using dynamic
      have uniform := parts_uniform x.1
      have sizes := headLength_map ih x.1
      rw [static] at uniform
      show (if abiDynamicType T then 32 else (serialise (.array T N) x).length) = _
      rw [if_neg dynamic,serialise_array x,layout_static_length uniform,sizes,x.2,lengthOf,if_neg dynamic]
  | u256 => simp [part,Part.headSize,abiDynamicType,removeDimension,serialise,serialiseU256,lengthOf]
  | s256 => simp [part,Part.headSize,abiDynamicType,removeDimension,serialise,serialiseS256,lengthOf]
  | bool => simp [part,Part.headSize,abiDynamicType,removeDimension,serialise,serialiseBool,serialiseU256,lengthOf]
  | address =>
    have size := x.2
    simp [part,Part.headSize,abiDynamicType,removeDimension,serialise,serialiseAddress,lengthOf,size]
  | string32 => simp [part,Part.headSize,abiDynamicType,removeDimension,serialise,serialiseString32,lengthOf,populate_length]
  | _ => simp [part,Part.headSize,abiDynamicType,removeDimension,lengthOf]

theorem headLength_elements {T : ArgType} (xs : List T.Val) :
    headLength (xs.map (part T)) = xs.length * lengthOf T * 32 := headLength_map part_headSize xs
theorem headLength_parts {Ts : List ArgType} (xs : Vals Ts) : headLength (parts Ts xs) = offsetOf Ts * 32 := by
  induction Ts with
  | nil => simp [parts,headLength,offsetOf]
  | cons T Ts ih =>
    obtain ⟨x,xs⟩ := xs
    rw [parts,headLength,part_headSize,ih,offsetOf,Nat.add_mul]

end CppSdk.SolidityLayout

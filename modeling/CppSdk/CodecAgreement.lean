import CppSdk.Conformance
import CppSdk.SolidityRoundTrip

/-!
The two Solidity codecs against each other. The templates take every tuple for dynamic
and count one word for each member of a tuple; `ContractABITypeCodecSolImpl` takes a tuple
for dynamic when a member is, and counts the heads. Their bytes are compared part by part:
the templates never write fewer, and more where a tuple without dynamic members occurs.
-/
namespace CppSdk.CodecAgreement
open CppSdk.ByteString CppSdk.Runtime CppSdk.ContractABIType CppSdk.ContractABITypeCodec CppSdk.Conformance
open CppSdk.SolidityCodec
open CppSdk.SolidityLayout CppSdk.SolidityRoundTrip
open CppSdk.SolidityAbi hiding parts headLength_parts

/-! ### Types and values of both codecs -/

mutual
/-- The Solidity type of an argument. -/
def solidity : ArgType → Ty
  | .u256 => .uint 256
  | .s256 => .int 256
  | .bool => .bool
  | .address => .address
  | .string32 => .bytesN 32
  | .string => .string
  | .bytes => .bytes
  | .vector T => .list (solidity T)
  | .array T N => .fixed (solidity T) N
  | .tuple Ts => .tuple (solidities Ts)
/-- The Solidity types of arguments. -/
def solidities : List ArgType → List Ty
  | [] => []
  | T :: Ts => solidity T :: solidities Ts
end

mutual
/-- The value of an argument. -/
def value : (T : ArgType) → T.Val → Value
  | .u256, u => .nat (BitVec.toNat u)
  | .s256, i => .int i.1
  | .bool, b => .bool b
  | .address, account => .bytes account.1
  | .string32, content => .bytes content.1
  | .string, content => .bytes content
  | .bytes, content => .bytes content
  | .vector T, xs => .seq (List.map (value T) xs)
  | .array T _, xs => .seq (List.map (value T) xs.1)
  | .tuple Ts, xs => .seq (values Ts xs)
/-- The values of arguments. -/
def values : (Ts : List ArgType) → Vals Ts → List Value
  | [], _ => []
  | T :: Ts, (x,xs) => value T x :: values Ts xs
end

/-- A tuple without dynamic members, or an array of such tuples. -/
def staticTuple (T : ArgType) : Bool :=
  match removeDimension T with
  | .tuple Ts => !anyDynamic (solidities Ts)
  | _ => false

/-- The codecs differ on which types are dynamic in these tuples only. -/
theorem staticTuple_eq (T : ArgType) : staticTuple T = (abiDynamicType T && !(solidity T).dynamic) := by
  induction T using ArgType.induct with
  | array T N ih => exact ih
  | _ => rfl
private theorem dynamic_of_solidity {T : ArgType} (dynamic : (solidity T).dynamic = true) : abiDynamicType T = true := by
  induction T using ArgType.induct with
  | array T N ih => exact ih dynamic
  | string => rfl
  | bytes => rfl
  | vector T ih => rfl
  | tuple Ts ih => rfl
  | _ => exact absurd dynamic Bool.false_ne_true
private theorem same_dynamic {T : ArgType} (plain : staticTuple T = false) : abiDynamicType T = (solidity T).dynamic := by
  rw [staticTuple_eq] at plain
  cases dynamic : (solidity T).dynamic with
  | true => exact dynamic_of_solidity dynamic
  | false => simpa [dynamic] using plain

mutual
/-- No tuple without dynamic members occurs, and in every tuple with a dynamic member the
    heads, as `offsetAsBytes` counts them, are one word for each member. -/
def Agrees : (T : ArgType) → T.Val → Prop
  | .vector T, xs => Each (fun x => staticTuple T = false ∧ Agrees T x) xs
  | .array T _, xs => Each (fun x => staticTuple T = false ∧ Agrees T x) xs.1
  | .tuple Ts, xs =>
    (anyDynamic (solidities Ts) = true → cutSizes (solidities Ts) = Ts.length * 32) ∧ AllAgree Ts xs
  | _, _ => True
/-- The members agree. -/
def AllAgree : (Ts : List ArgType) → Vals Ts → Prop
  | [], _ => True
  | T :: Ts, (x,xs) => (staticTuple T = false ∧ Agrees T x) ∧ AllAgree Ts xs
end

/-! ### Comparing layouts -/

/-- Parts of which the second are as dynamic and as long, or more. -/
def Dominated (ps qs : List Part) : Prop :=
  List.Forall₂ (fun p q => (p.dynamic = true → q.dynamic = true) ∧ p.body.length ≤ q.body.length) ps qs

/-- The bytes of the heads and the tails. -/
def extent (ps : List Part) : Nat := headLength ps + (tails ps).length

private theorem extent_cons (p : Part) (ps : List Part) :
    extent (p :: ps) = (if p.dynamic then 32 + p.body.length else p.body.length) + extent ps := by
  by_cases dynamic : p.dynamic = true
  · simp [extent,headLength,Part.headSize,tails,dynamic]
    omega
  · simp [extent,headLength,Part.headSize,tails,dynamic]
    omega
private theorem extent_le {ps qs : List Part} (dominated : Dominated ps qs) : extent ps ≤ extent qs := by
  induction dominated with
  | nil => exact Nat.le_refl _
  | @cons p q ps qs here later ih =>
    obtain ⟨flags,lengths⟩ := here
    rw [extent_cons,extent_cons]
    by_cases dynamic : p.dynamic = true
    · rw [if_pos dynamic,if_pos (flags dynamic)]
      omega
    · rw [if_neg dynamic]
      split <;> omega
/-- Dominated parts that take as many bytes have one shape. -/
theorem sameShape_of_extent {ps qs : List Part} (dominated : Dominated ps qs) (same : extent ps = extent qs) :
    SameShape ps qs := by
  induction dominated with
  | nil => exact .nil
  | @cons p q ps qs here later ih =>
    obtain ⟨flags,lengths⟩ := here
    have rest := extent_le later
    rw [extent_cons,extent_cons] at same
    by_cases dynamic : p.dynamic = true
    · rw [if_pos dynamic,if_pos (flags dynamic)] at same
      exact .cons ⟨dynamic.trans (flags dynamic).symm,by omega⟩ (ih (by omega))
    · rw [if_neg dynamic] at same
      by_cases longer : q.dynamic = true
      · rw [if_pos longer] at same
        omega
      · rw [if_neg longer] at same
        have equal : p.dynamic = q.dynamic := by rw [Bool.eq_false_iff.mpr dynamic,Bool.eq_false_iff.mpr longer]
        exact .cons ⟨equal,by omega⟩ (ih (by omega))

/-- Equal bytes come from equal parts and, with a dynamic part, from one first offset. -/
theorem dominated_parts {ps qs : List Part} (dominated : Dominated ps qs) {off off' : Nat}
    (same : heads off ps ++ tails ps = heads off' qs ++ tails qs) :
    ps = qs ∧ ((∃ p ∈ ps, p.dynamic = true) → word off = word off') := by
  have lengths := congrArg List.length same
  simp only [List.length_append,heads_length] at lengths
  have shape := sameShape_of_extent dominated lengths
  obtain ⟨sameHeads,sameTails⟩ := List.append_inj same (by simp [sameShape_headLength shape])
  exact sameShape_layout shape sameHeads sameTails

/-! ### What both codecs emit -/

section
variable {U : Utilities}

/-- What the codec of trees appends, against what the templates emit for the value. -/
structure Meets (U : Utilities) (v : AbstractType) (T : ArgType) (x : T.Val) (out : Bytes) : Prop where
  emits : Emits U v ⟨(solidity T).dynamic,out⟩
  shorter : out.length ≤ (serialise T x).length
  sound : Agrees T x → out = serialise T x
  complete : (serialise T x).length < 2 ^ 64 → out = serialise T x → Agrees T x

/-- The same for the parts of components. -/
structure Compared (U : Utilities) (vs : List AbstractType) (ps qs : List Part) (agree : Prop) : Prop where
  emits : List.Forall₂ (Emits U) vs ps
  dominated : Dominated ps qs
  sound : agree → ps = qs
  complete : (∀ q ∈ qs, q.body.length < 2 ^ 64) → ps = qs → agree

private theorem compared_nil : Compared U [] [] [] True := ⟨.nil,.nil,fun _ => rfl,fun _ _ => trivial⟩
private theorem compared_cons {v : AbstractType} {T : ArgType} {x : T.Val} {out : Bytes} {vs : List AbstractType}
    {ps qs : List Part} {agree : Prop} (here : Meets U v T x out) (later : Compared U vs ps qs agree) :
    Compared U (v :: vs) (⟨(solidity T).dynamic,out⟩ :: ps) (part T x :: qs)
      ((staticTuple T = false ∧ Agrees T x) ∧ agree) := by
  refine ⟨.cons here.emits later.emits,.cons ⟨dynamic_of_solidity,here.shorter⟩ later.dominated,?_,?_⟩
  · rintro ⟨⟨plain,agrees⟩,others⟩
    rw [part,here.sound agrees,same_dynamic plain,later.sound others]
  · intro small equal
    obtain ⟨smallHere,smallLater⟩ := List.forall_mem_cons.mp small
    simp only [part,List.cons.injEq,SolidityAbi.Part.mk.injEq] at equal
    obtain ⟨⟨flags,bodies⟩,rest⟩ := equal
    refine ⟨⟨?_,here.complete smallHere bodies⟩,later.complete smallLater rest⟩
    rw [staticTuple_eq,← flags]
    simp

private theorem compared_elements {T : ArgType} {vs : List AbstractType} {xs : List T.Val}
    (pairs : List.Forall₂ (fun v x => ∃ out, Meets U v T x out) vs xs) :
    ∃ ps, Compared U vs ps (xs.map (part T)) (Each (fun x => staticTuple T = false ∧ Agrees T x) xs) ∧
      ∀ p ∈ ps, p.dynamic = (solidity T).dynamic := by
  induction pairs with
  | nil => exact ⟨[],⟨.nil,.nil,fun _ => rfl,fun _ _ _ member => (nomatch member)⟩,fun _ member => (nomatch member)⟩
  | @cons v x vs xs here later ih =>
    obtain ⟨out,meets⟩ := here
    obtain ⟨ps,compared,uniform⟩ := ih
    obtain ⟨emits,dominated,sound,complete⟩ := compared_cons meets compared
    refine ⟨_,⟨emits,dominated,?_,?_⟩,List.forall_mem_cons.mpr ⟨rfl,uniform⟩⟩
    · exact fun each => sound (List.forall_mem_cons.mp each)
    · exact fun small equal => List.forall_mem_cons.mpr (complete small equal)

private theorem compared_members {limit : Nat} {Ts : List ArgType}
    (meets : ∀ T ∈ Ts, ∀ v (x : T.Val), Denotes limit v (solidity T) (value T x) → ∃ out, Meets U v T x out) :
    ∀ {vs : List AbstractType} {xs : Vals Ts}, Rows (Denotes limit) vs (solidities Ts) (values Ts xs) →
      ∃ ps, Compared U vs ps (parts Ts xs) (AllAgree Ts xs) := by
  induction Ts with
  | nil =>
    rintro vs xs rows
    cases rows with
    | nil => exact ⟨[],compared_nil⟩
  | cons T Ts ih =>
    rintro vs ⟨x,xs⟩ rows
    obtain ⟨first,others⟩ := List.forall_mem_cons.mp meets
    cases rows with
    | cons here later =>
      obtain ⟨out,meets⟩ := first _ x here
      obtain ⟨ps,compared⟩ := ih others later
      exact ⟨_,compared_cons meets compared⟩

private theorem anyDynamic_parts {Ts : List ArgType} : ∀ {xs : Vals Ts}, AllAgree Ts xs →
    (anyDynamic (solidities Ts) = true ↔ ∃ p ∈ parts Ts xs, p.dynamic = true) := by
  induction Ts with
  | nil => simp [solidities,anyDynamic,parts]
  | cons T Ts ih =>
    rintro ⟨x,xs⟩ ⟨⟨plain,_⟩,others⟩
    simp only [solidities,anyDynamic,Bool.or_eq_true,parts,List.exists_mem_cons_iff,ih others,part,same_dynamic plain]

/-- The members of a tuple, or the arguments: the bytes are equal when the members agree
    and so do the first offsets, if any is written. -/
theorem heads_sound {Ts : List ArgType} {vs : List AbstractType} {ps : List Part} {xs : Vals Ts}
    (compared : Compared U vs ps (parts Ts xs) (AllAgree Ts xs)) {off off' : Nat}
    (offsets : anyDynamic (solidities Ts) = true → off = off') (agree : AllAgree Ts xs) :
    heads off ps ++ tails ps = heads off' (parts Ts xs) ++ tails (parts Ts xs) := by
  rw [compared.sound agree]
  by_cases dynamic : anyDynamic (solidities Ts) = true
  · rw [offsets dynamic]
  · have static : ∀ p ∈ parts Ts xs, p.dynamic = false := by
      intro p member
      by_contra isDynamic
      exact dynamic ((anyDynamic_parts agree).mpr ⟨p,member,by simpa using isDynamic⟩)
    rw [heads_static static,heads_static static]
/-- And only then. -/
theorem heads_complete {Ts : List ArgType} {vs : List AbstractType} {ps : List Part} {xs : Vals Ts}
    (compared : Compared U vs ps (parts Ts xs) (AllAgree Ts xs)) {off off' : Nat} (low : off < 2 ^ 256)
    (low' : off' < 2 ^ 256) (small : extent (parts Ts xs) < 2 ^ 64)
    (same : heads off ps ++ tails ps = heads off' (parts Ts xs) ++ tails (parts Ts xs)) :
    (anyDynamic (solidities Ts) = true → off = off') ∧ AllAgree Ts xs := by
  obtain ⟨equal,offsets⟩ := dominated_parts compared.dominated same
  have bodies : ∀ q ∈ parts Ts xs, q.body.length < 2 ^ 64 := by
    intro q member
    have bound := body_length_le member
    rw [layout_length] at bound
    exact Nat.lt_of_le_of_lt bound small
  have agree := compared.complete bodies equal
  refine ⟨fun dynamic => word_injective low low' (offsets ?_),agree⟩
  rw [equal]
  exact (anyDynamic_parts agree).mp dynamic

/-! ### Every value -/

private theorem denotes_list {limit : Nat} {v : AbstractType} {t : Ty} {ws : List Value}
    (denotes : Denotes limit v (.list t) (.seq ws)) :
    ∃ name vs, v = .dynamicList name vs ∧ List.Forall₂ (fun v w => Denotes limit v t w) vs ws := by
  cases denotes with
  | dynamicList name count short each => exact ⟨name,_,rfl,pairwise_of_zip count each⟩
private theorem denotes_fixed {limit : Nat} {v : AbstractType} {t : Ty} {count : Nat} {ws : List Value}
    (denotes : Denotes limit v (.fixed t count) (.seq ws)) :
    ∃ name dimension vs, v = .fixedList name dimension vs ∧ List.Forall₂ (fun v w => Denotes limit v t w) vs ws := by
  cases denotes with
  | fixedList name full nonempty count each => exact ⟨name,_,_,rfl,pairwise_of_zip count each⟩
private theorem denotes_tuple {limit : Nat} {v : AbstractType} {ts : List Ty} {ws : List Value}
    (denotes : Denotes limit v (.tuple ts) (.seq ws)) :
    ∃ name vs, v = .struct name vs ∧ Rows (Denotes limit) vs ts ws := by
  cases denotes with
  | struct name types count each => exact ⟨name,_,rfl,rows_of_zip types count each⟩

private theorem cutSizes_le (ts : List Ty) : cutSizes ts ≤ ts.length * 2 ^ 32 := by
  induction ts with
  | nil => exact Nat.le_refl _
  | cons t ts ih =>
    have cut := Nat.mod_lt t.headSize (show 0 < 2 ^ 32 by decide)
    rw [cutSizes,List.length_cons]
    omega
private theorem solidities_length (Ts : List ArgType) : (solidities Ts).length = Ts.length := by
  induction Ts with
  | nil => rfl
  | cons T Ts ih => simp [solidities,ih]
/-- The first offsets of parts of less than 2^64 bytes fit a word. -/
theorem offsets_small {Ts : List ArgType} {xs : Vals Ts} (small : extent (parts Ts xs) < 2 ^ 64) :
    cutSizes (solidities Ts) < 2 ^ 256 ∧ Ts.length * 32 < 2 ^ 256 := by
  have cut := cutSizes_le (solidities Ts)
  have words := length_le_offsetOf Ts
  rw [solidities_length] at cut
  rw [extent,headLength_parts] at small
  exact ⟨by omega,by omega⟩

/-- A type without components. -/
def Elementary : ArgType → Prop
  | .vector _ => False
  | .array _ _ => False
  | .tuple _ => False
  | _ => True

/-- A value of such a type is encoded as the Solidity ABI says. -/
theorem enc_elementary {T : ArgType} (elementary : Elementary T) (x : T.Val) :
    enc (solidity T) (value T x) = serialise T x := by
  cases T with
  | u256 => simp only [solidity,value,enc,serialise,serialiseU256]
  | s256 => simp only [solidity,value,enc,serialise,serialiseS256,s2u_toNat]
  | bool =>
    simp only [solidity,value,enc,serialise,serialiseBool]
    cases x with
    | true => rfl
    | false => rfl
  | address =>
    obtain ⟨account,size⟩ := x
    simp only [solidity,value,enc,serialise,serialiseAddress]
    rw [word_fromBigEndian (by omega),size]
  | string32 =>
    obtain ⟨content,size⟩ := x
    have whole := populate_exact content
    have room : padded 32 = 32 := rfl
    rw [size] at whole
    simp only [solidity,value,enc,serialise,serialiseString32]
    rw [whole,padRight,size,room,Nat.sub_self,List.replicate_zero,List.append_nil]
  | string =>
    simp only [solidity,value,enc,serialise]
    exact (serialiseBytes_eq x).symm
  | bytes =>
    simp only [solidity,value,enc,serialise]
    exact (serialiseBytes_eq x).symm
  | vector T => exact elementary.elim
  | array T N => exact elementary.elim
  | tuple Ts => exact elementary.elim
private theorem fit_elementary {T : ArgType} (elementary : Elementary T) (x : T.Val) :
    HeadsFit (solidity T) (value T x) ∧ Agrees T x := by
  cases T with
  | vector T => exact elementary.elim
  | array T N => exact elementary.elim
  | tuple Ts => exact elementary.elim
  | _ => simp only [solidity,value,HeadsFit,Agrees,and_self]

private theorem meets_elementary (documented : U.Documented) {limit : Nat} {T : ArgType} (elementary : Elementary T) :
    ∀ v (x : T.Val), Denotes limit v (solidity T) (value T x) → ∃ out, Meets U v T x out := by
  intro v x denotes
  obtain ⟨fits,agrees⟩ := fit_elementary elementary x
  obtain ⟨out,appends⟩ := appends_of_denotes documented denotes
  have same : out = serialise T x := (appends.sound fits).trans (enc_elementary elementary x)
  exact ⟨out,appends.emits,by rw [same],fun _ => same,fun _ _ => agrees⟩

private theorem emits_struct (name : Bytes) {vs : List AbstractType} {ts : List Ty} {ps : List Part}
    (typed : List.Forall₂ HeadType vs ts) (emits : List.Forall₂ (Emits U) vs ps) (buffer : Bytes) :
    serialize U (.struct name vs) buffer = .ok (buffer ++ (heads (cutSizes ts) ps ++ tails ps)) := by
  simp [serialize,initialOffset_eq typed,serializeMembers_eq emits]

private theorem rows_headType {limit : Nat} {vs : List AbstractType} {ts : List Ty} {ws : List Value}
    (rows : Rows (Denotes limit) vs ts ws) : List.Forall₂ HeadType vs ts := by
  induction rows with
  | nil => exact .nil
  | cons here later ih => exact .cons (denotes_headType here) ih

/-- The elements of a list or of an array, against those of a vector or of an array. -/
theorem meets_elements {limit : Nat} {T : ArgType} {vs : List AbstractType} {xs : List T.Val}
    (meets : ∀ v (x : T.Val), Denotes limit v (solidity T) (value T x) → ∃ out, Meets U v T x out)
    (pairs : List.Forall₂ (fun v w => Denotes limit v (solidity T) w) vs (xs.map (value T))) :
    ∃ offsetBuffer valueBuffer, serializeElements U vs (vs.length * 32) [] [] = .ok (offsetBuffer,valueBuffer) ∧
      (offsetBuffer ++ valueBuffer).length ≤ (layout (xs.map (part T))).length ∧
      (Each (fun x => staticTuple T = false ∧ Agrees T x) xs → offsetBuffer ++ valueBuffer = layout (xs.map (part T))) ∧
      ((layout (xs.map (part T))).length < 2 ^ 64 → offsetBuffer ++ valueBuffer = layout (xs.map (part T)) →
        Each (fun x => staticTuple T = false ∧ Agrees T x) xs) := by
  have each : List.Forall₂ (fun v x => ∃ out, Meets U v T x out) vs xs :=
    (List.forall₂_map_right_iff.mp pairs).imp (fun v x denotes => meets v x denotes)
  obtain ⟨ps,compared,uniform⟩ := compared_elements each
  obtain ⟨offsetBuffer,valueBuffer,looped,out⟩ := serializeElements_eq compared.emits uniform
  refine ⟨offsetBuffer,valueBuffer,looped,?_,?_,?_⟩
  · rw [out,layout_length,layout_length]
    exact extent_le compared.dominated
  · intro agree
    rw [out,compared.sound agree]
  · intro small equal
    rw [out] at equal
    refine compared.complete (fun q member => ?_) (dominated_parts compared.dominated equal).1
    exact Nat.lt_of_le_of_lt (body_length_le member) small

/-- What the two codecs emit for every value. -/
theorem meets_of_denotes (documented : U.Documented) {limit : Nat} (T : ArgType) :
    ∀ v (x : T.Val), Denotes limit v (solidity T) (value T x) → ∃ out, Meets U v T x out := by
  induction T using ArgType.induct with
  | u256 => exact meets_elementary documented trivial
  | s256 => exact meets_elementary documented trivial
  | bool => exact meets_elementary documented trivial
  | address => exact meets_elementary documented trivial
  | string32 => exact meets_elementary documented trivial
  | string => exact meets_elementary documented trivial
  | bytes => exact meets_elementary documented trivial
  | vector T ih =>
    intro v (xs : List T.Val) denotes
    obtain ⟨name,vs,rfl,pairs⟩ := denotes_list denotes
    have count : vs.length = xs.length := by simpa using pairs.length_eq
    obtain ⟨offsetBuffer,valueBuffer,looped,shorter,sound,complete⟩ := meets_elements ih pairs
    refine ⟨word xs.length ++ (offsetBuffer ++ valueBuffer),⟨rfl,fun buffer => ?_⟩,?_,?_,?_⟩
    · rw [count] at looped
      simp [serialize,looped,serializeU256_ofNat,count]
    · simp only [serialise_vector,List.length_append] at shorter ⊢
      omega
    · intro agrees
      rw [serialise_vector,sound agrees]
    · intro small equal
      rw [serialise_vector] at small equal
      rw [List.length_append] at small
      exact complete (by omega) (List.append_cancel_left equal)
  | array T N ih =>
    intro v xs denotes
    have dynamics := dynamicType_eq (denotes_headType denotes)
    obtain ⟨name,dimension,vs,rfl,pairs⟩ := denotes_fixed denotes
    obtain ⟨offsetBuffer,valueBuffer,looped,shorter,sound,complete⟩ := meets_elements ih pairs
    refine ⟨offsetBuffer ++ valueBuffer,⟨dynamics,fun buffer => ?_⟩,?_,?_,?_⟩
    · simp [serialize,looped]
    · rw [serialise_array xs]
      exact shorter
    · intro agrees
      rw [serialise_array xs,sound agrees]
    · intro small equal
      rw [serialise_array xs] at small equal
      exact complete small equal
  | tuple Ts ih =>
    intro v (xs : Vals Ts) denotes
    have dynamics := dynamicType_eq (denotes_headType denotes)
    obtain ⟨name,vs,rfl,rows⟩ := denotes_tuple denotes
    obtain ⟨ps,compared⟩ := compared_members ih rows
    have size : (serialise (.tuple Ts) xs).length = extent (parts Ts xs) := by
      rw [serialise_tuple,List.length_append,heads_length]
      rfl
    refine ⟨heads (cutSizes (solidities Ts)) ps ++ tails ps,
      ⟨dynamics,emits_struct name (rows_headType rows) compared.emits⟩,?_,?_,?_⟩
    · rw [size,List.length_append,heads_length]
      exact extent_le compared.dominated
    · rintro ⟨offsets,agree⟩
      rw [serialise_tuple]
      exact heads_sound compared offsets agree
    · intro small equal
      rw [size] at small
      rw [serialise_tuple] at equal
      obtain ⟨low,low'⟩ := offsets_small small
      exact heads_complete compared low low' small equal

end

/-! ### Agreement -/

/-- The arguments agree, and with a dynamic one `abiIn` announces the first tail after
    the heads as `offsetAsBytes` counts them. -/
def ArgumentsAgree (Ts : List ArgType) (xs : Vals Ts) : Prop :=
  (∃ offset, headBytes (offsetOf Ts) = .ok offset ∧
    (anyDynamic (solidities Ts) = true → cutSizes (solidities Ts) = offset)) ∧ AllAgree Ts xs

theorem headBytes_le {words offset : Nat} (product : headBytes words = .ok offset) : offset ≤ words * 32 := by
  have cut := Nat.mod_le (words * 32) (2 ^ 32)
  have cut' := Nat.mod_le (words * 32) (2 ^ 64)
  rw [headBytes] at product
  split_ifs at product <;> simp only [Except.ok.injEq] at product <;> omega

/-- Where no tuple without dynamic members occurs, the codecs count the same heads. -/
theorem headSize_solidity {T : ArgType} (plain : staticTuple T = false) : (solidity T).headSize = lengthOf T * 32 := by
  induction T using ArgType.induct with
  | array T N ih =>
    have element : staticTuple T = false := plain
    rw [solidity,Ty.headSize,lengthOf,same_dynamic element]
    split
    · rfl
    · rw [ih element,Nat.mul_assoc]
  | tuple Ts ih =>
    have dynamic : anyDynamic (solidities Ts) = true := by simpa [staticTuple,removeDimension] using plain
    rw [solidity,Ty.headSize,if_pos dynamic]
    rfl
  | _ => rfl
private theorem cutSizes_offsetOf {Ts : List ArgType} : ∀ {xs : Vals Ts}, AllAgree Ts xs → offsetOf Ts * 32 < 2 ^ 32 →
    cutSizes (solidities Ts) = offsetOf Ts * 32 := by
  induction Ts with
  | nil => exact fun _ _ => rfl
  | cons T Ts ih =>
    rintro ⟨x,xs⟩ ⟨⟨plain,_⟩,others⟩ small
    rw [offsetOf] at small ⊢
    have rest := ih others (by omega)
    rw [solidities,cutSizes,headSize_solidity plain,rest,Nat.mod_eq_of_lt (by omega),Nat.add_mul]

/-- With heads of less than 2^31 bytes the first offset is the same as soon as the
    arguments agree. -/
theorem argumentsAgree_small {Ts : List ArgType} {xs : Vals Ts} (small : offsetOf Ts * 32 < 2 ^ 31) :
    ArgumentsAgree Ts xs ↔ AllAgree Ts xs := by
  constructor
  · exact fun agree => agree.2
  · intro agree
    exact ⟨⟨_,headBytes_small small,fun _ => cutSizes_offsetOf agree (by omega)⟩,agree⟩

/-- `abiIn` and `serialize` of the struct of the same values return the same bytes exactly
    when the arguments agree. -/
theorem abiIn_serialize_iff {U : Utilities} (documented : U.Documented) (hash : Bytes → Bytes) {limit : Nat}
    {v : AbstractType} {Ts : List ArgType} {xs : Vals Ts}
    (denotes : Denotes limit v (.tuple (solidities Ts)) (.seq (values Ts xs)))
    (size : (layout (parts Ts xs)).length < 2 ^ 64) : abiIn hash [] Ts xs = serialize U v [] ↔ ArgumentsAgree Ts xs := by
  obtain ⟨name,vs,rfl,rows⟩ := denotes_tuple denotes
  obtain ⟨ps,compared⟩ := compared_members (fun T _ => meets_of_denotes documented T) rows
  have emitted := emits_struct name (rows_headType rows) compared.emits []
  have small : extent (parts Ts xs) < 2 ^ 64 := by rwa [layout_length] at size
  obtain ⟨low,_⟩ := offsets_small small
  have words : offsetOf Ts < 2 ^ 128 := by
    rw [extent,headLength_parts] at small
    omega
  rw [emitted,List.nil_append]
  constructor
  · intro same
    cases product : headBytes (offsetOf Ts) with
    | error failure => simp [abiIn,product] at same
    | ok offset =>
      rw [abiIn_eq hash xs product,Except.ok.injEq] at same
      obtain ⟨offsets,agree⟩ := heads_complete compared low (by have := headBytes_le product; omega) small same.symm
      exact ⟨⟨offset,product,offsets⟩,agree⟩
  · rintro ⟨⟨offset,product,offsets⟩,agree⟩
    rw [abiIn_eq hash xs product,heads_sound compared offsets agree]

/-- A number and a text. -/
theorem abiIn_serialize_text :
    abiIn id [] [.u256,.string] ((5 : U256),[65],()) =
        serialize Utilities.reference (.struct [] [.uint [] ⟨256,by decide⟩ 5,.string [] [65]]) [] ↔
      ArgumentsAgree [.u256,.string] ((5 : U256),[65],()) :=
  abiIn_serialize_iff reference_documented id
    (show Denotes 1 _ _ _ from .struct [] rfl rfl
      (List.forall_mem_cons.mpr ⟨.uint [] _ 5,List.forall_mem_cons.mpr ⟨.string [] [65],by simp⟩⟩)) (by decide +kernel)

/-- A tuple of one number: the templates write its offset first. -/
theorem abiIn_serialize_staticTuple :
    Denotes 1 (.struct [] [.struct [] [.uint [] ⟨256,by decide⟩ 5]]) (.tuple (solidities [.tuple [.u256]]))
        (.seq (values [.tuple [.u256]] (((5 : U256),()),()))) ∧
      abiIn id [] [.tuple [.u256]] (((5 : U256),()),()) = .ok (word 32 ++ word 5) ∧
      serialize Utilities.reference (.struct [] [.struct [] [.uint [] ⟨256,by decide⟩ 5]]) [] = .ok (word 5) ∧
      word 32 ++ word 5 ≠ word 5 := by
  refine ⟨?_,rfl,rfl,by decide⟩
  refine .struct [] rfl rfl (List.forall_mem_cons.mpr ⟨?_,by simp⟩)
  exact .struct [] rfl rfl (List.forall_mem_cons.mpr ⟨.uint [] _ 5,by simp⟩)

end CppSdk.CodecAgreement

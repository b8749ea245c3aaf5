import CppSdk.SolidityCodec

/-!
The words that the templates take from the data. `decodeUses` decodes as `deserialize` does and
lists the words it takes offsets and lengths from. `Found` goes through the data without decoding
anything: it asks that every word and every range is there, and a predicate of these words. It
holds exactly where the decoder returns with words that satisfy the predicate (`found_iff`).
-/
namespace CppSdk.ArgumentWalk
open CppSdk.ByteString CppSdk.Runtime CppSdk.SolidityCodec

/-! ### The words that are used -/

/-- A word that the decoder used: as the offset of a component from its base, as the
    offset of a tuple without members, which reads nothing there, as the length of a string
    or of bytes at a position, or as the number of elements of a type in a vector. -/
inductive Use where
  | offset (base : UInt64) (w : U256)
  | unread (base : UInt64) (w : U256)
  | length (position : UInt64) (w : U256) (content : Bytes)
  | count (position : UInt64) (w : U256) (T : ArgType)

/-- The type of a tuple without members. -/
def Hollow : ArgType → Bool
  | .tuple [] => true
  | _ => false

section
variable (U : Utilities) (data : Bytes)

/-- `deserializeComponent` with the word of a dynamic component. -/
def componentUses {α : Type} (T : ArgType) (decode : UInt64 → Call (α × List Use)) (base cursor : UInt64) :
    Call (α × List Use) :=
  if abiDynamicType T then do
    let w ← deserializeU256 U data cursor
    let (x,uses) ← decode (base + sizeOfWord w)
    .ok (x,(if Hollow T then .unread base w else .offset base w) :: uses)
  else decode cursor

/-- The values of decoded elements. -/
def valuesOf {α : Type} {count : Nat} (xs : {xs : List (α × List Use) // xs.length = count}) : {xs : List α // xs.length = count} :=
  ⟨xs.1.map Prod.fst,by rw [List.length_map,xs.2]⟩
/-- The words of decoded elements. -/
def usesOf {α : Type} (xs : List (α × List Use)) : List Use := xs.flatMap Prod.snd

mutual
/-- `deserialize` with the words that it uses. -/
def decodeUses : (T : ArgType) → UInt64 → Call (T.Val × List Use)
  | .string, position => do
    let len ← deserializeU256 U data position
    let content ← deserializeBytes U data position
    .ok (content,[.length position len content])
  | .bytes, position => do
    let len ← deserializeU256 U data position
    let content ← deserializeBytes U data position
    .ok (content,[.length position len content])
  | .vector T, position => do
    let length ← deserializeU256 U data position
    let xs ← deserializeElements (fun u =>
      componentUses U data T (fun o => decodeUses T o) (position + 32) (elementCursor T (position + 32) u))
      (sizeOfWord length).toNat 0
    .ok ((valuesOf xs).1,.count position length T :: usesOf xs.1)
  | .array T N, position => do
    let xs ← deserializeElements (fun u =>
      componentUses U data T (fun o => decodeUses T o) position (elementCursor T position u)) N 0
    .ok (valuesOf xs,usesOf xs.1)
  | .tuple Ts, position => memberUses Ts position 0
  | .u256, position => (deserializeU256 U data position).map (fun u => (u,[]))
  | .s256, position => (deserializeS256 U data position).map (fun i => (i,[]))
  | .bool, position => (deserializeBool U data position).map (fun b => (b,[]))
  | .address, position => (deserializeAddress U data position).map (fun account => (account,[]))
  | .string32, position => (deserializeString32 U data position).map (fun content => (content,[]))
/-- `deserializeMembers` with the words that it uses. -/
def memberUses : (Ts : List ArgType) → UInt64 → UInt64 → Call (Vals Ts × List Use)
  | [], _, _ => .ok ((),[])
  | T :: Ts, base, tupleOffset => do
    let (x,first) ← componentUses U data T (fun o => decodeUses T o) base (base + tupleOffset)
    let (xs,rest) ← memberUses Ts base (tupleOffset + UInt64.ofNat (← headBytes (lengthOf T)))
    .ok ((x,xs),first ++ rest)
end

end

/-! ### The values are those of the decoder -/

section
variable {U : Utilities} {data : Bytes}

private theorem map_fst_component {α : Type} {T : ArgType} {decode : UInt64 → Call (α × List Use)} {plain : UInt64 → Call α}
    (same : ∀ o, (decode o).map Prod.fst = plain o) (base cursor : UInt64) :
    (componentUses U data T decode base cursor).map Prod.fst = deserializeComponent U data T plain base cursor := by
  rw [componentUses,deserializeComponent]
  split
  · cases deserializeU256 U data cursor with
    | error failure => rfl
    | ok w =>
      rw [ok_bind,ok_bind,← same]
      cases decode (base + sizeOfWord w) <;> rfl
  · exact same cursor

private theorem map_valuesOf {α : Type} {element : Nat → Call (α × List Use)} {plain : Nat → Call α}
    (same : ∀ u, (element u).map Prod.fst = plain u) (count u : Nat) :
    (deserializeElements element count u).map valuesOf = deserializeElements plain count u := by
  induction count generalizing u with
  | zero => rfl
  | succ count ih =>
    rw [deserializeElements,deserializeElements,← same,← ih]
    cases element u with
    | error failure => rfl
    | ok x =>
      rw [ok_bind]
      cases deserializeElements element count (u + 1) <;> rfl

private theorem map_elements {T : ArgType} (same : ∀ o, (decodeUses U data T o).map Prod.fst = deserialize U data T o) (base : UInt64)
    (count u : Nat) :
    (deserializeElements (fun u => componentUses U data T (fun o => decodeUses U data T o) base (elementCursor T base u)) count u).map
        valuesOf =
      deserializeElements (fun u => deserializeComponent U data T (fun o => deserialize U data T o) base (elementCursor T base u)) count u :=
  map_valuesOf (fun u => map_fst_component same base (elementCursor T base u)) count u

theorem map_fst_members {Ts : List ArgType} (same : ∀ T ∈ Ts, ∀ o, (decodeUses U data T o).map Prod.fst = deserialize U data T o)
    (base tupleOffset : UInt64) : (memberUses U data Ts base tupleOffset).map Prod.fst = deserializeMembers U data Ts base tupleOffset := by
  induction Ts generalizing tupleOffset with
  | nil => rfl
  | cons T Ts ih =>
    obtain ⟨first,others⟩ := List.forall_mem_cons.mp same
    rw [memberUses,deserializeMembers,← map_fst_component first]
    cases componentUses U data T (fun o => decodeUses U data T o) base (base + tupleOffset) with
    | error failure => rfl
    | ok x =>
      rw [ok_bind]
      cases headBytes (lengthOf T) with
      | error failure => rfl
      | ok size =>
        have rest := ih others (tupleOffset + UInt64.ofNat size)
        change Except.map _ (memberUses U data Ts base (tupleOffset + UInt64.ofNat size) >>= _) =
          (deserializeMembers U data Ts base (tupleOffset + UInt64.ofNat size) >>= _)
        rw [← rest]
        cases memberUses U data Ts base (tupleOffset + UInt64.ofNat size) <;> rfl

private theorem map_fst_bytes (position : UInt64) : (do
    let len ← deserializeU256 U data position
    let content ← deserializeBytes U data position
    .ok (content,[Use.length position len content]) : Call (Bytes × List Use)).map Prod.fst = deserializeBytes U data position := by
  cases read : deserializeU256 U data position with
  | error failure =>
    rw [deserializeBytes,read]
    rfl
  | ok len =>
    rw [ok_bind]
    cases deserializeBytes U data position <;> rfl

/-- The values are those that `deserialize` gives, and it fails alike. -/
theorem map_fst_decodeUses (T : ArgType) (position : UInt64) :
    (decodeUses U data T position).map Prod.fst = deserialize U data T position := by
  induction T using ArgType.induct generalizing position with
  | vector T ih =>
    rw [decodeUses,deserialize]
    cases deserializeU256 U data position with
    | error failure => rfl
    | ok length =>
      rw [ok_bind,ok_bind,← map_elements ih]
      generalize deserializeElements _ _ _ = xs
      cases xs <;> rfl
  | array T N ih =>
    rw [decodeUses,deserialize,← map_elements ih]
    generalize deserializeElements _ _ _ = xs
    cases xs <;> rfl
  | tuple Ts ih => exact map_fst_members ih position 0
  | string => exact map_fst_bytes position
  | bytes => exact map_fst_bytes position
  | u256 => rw [decodeUses,deserialize]; cases deserializeU256 U data position <;> rfl
  | s256 => rw [decodeUses,deserialize]; cases deserializeS256 U data position <;> rfl
  | bool => rw [decodeUses,deserialize]; cases deserializeBool U data position <;> rfl
  | address => rw [decodeUses,deserialize]; cases deserializeAddress U data position <;> rfl
  | string32 => rw [decodeUses,deserialize]; cases deserializeString32 U data position <;> rfl

end

/-! ### The walk -/

section
variable (data : Bytes) (P : Use → Prop)

/-- The length of a string or of bytes and the last byte behind it are there. -/
def BytesFound (position : UInt64) : Prop :=
  let len := wordAt data position
  WordInside data position ∧ WordInside data (position + sizeOfWord len) ∧
    P (.length position len (getCroppedData data (position + 32).toNat (sizeOfWord len).toNat))
/-- A dynamic component is looked for where the word at the cursor says, a static one at the cursor. -/
def ComponentFound (T : ArgType) (found : UInt64 → Prop) (base cursor : UInt64) : Prop :=
  let w := wordAt data cursor
  if abiDynamicType T then
    WordInside data cursor ∧ P (if Hollow T then .unread base w else .offset base w) ∧ found (base + sizeOfWord w)
  else found cursor

mutual
/-- What the decoder takes for the type at the position is there, and the words satisfy the predicate. -/
def Found : ArgType → UInt64 → Prop
  | .string, position => BytesFound data P position
  | .bytes, position => BytesFound data P position
  | .vector T, position =>
    let length := wordAt data position
    WordInside data position ∧ P (.count position length T) ∧ ∀ u < (sizeOfWord length).toNat,
      ComponentFound data P T (fun o => Found T o) (position + 32) (elementCursor T (position + 32) u)
  | .array T N, position => ∀ u < (N : Nat), ComponentFound data P T (fun o => Found T o) position (elementCursor T position u)
  | .tuple Ts, position => MembersFound Ts position 0
  | _, position => WordInside data position
/-- The same for the members of a tuple at the base, or for the arguments. -/
def MembersFound : List ArgType → UInt64 → UInt64 → Prop
  | [], _, _ => True
  | T :: Ts, base, tupleOffset => ComponentFound data P T (fun o => Found T o) base (base + tupleOffset) ∧
      ∃ size, headBytes (lengthOf T) = .ok size ∧ MembersFound Ts base (tupleOffset + UInt64.ofNat size)
end

end

section
variable {U : Utilities} {data : Bytes} {P : Use → Prop}

theorem validOffset_iff {offset : UInt64} : validOffset U data offset = .ok () ↔ offset.toNat < data.length := by
  by_cases outside : data.length ≤ offset.toNat
  · rw [validOffset,if_pos outside]
    exact iff_of_false (fun failed => by cases failed) (by omega)
  · rw [validOffset,if_neg outside]
    exact iff_of_true rfl (by omega)
theorem deserializeU256_iff {offset : UInt64} {w : U256} :
    deserializeU256 U data offset = .ok w ↔ WordInside data offset ∧ w = wordAt data offset := by
  rw [deserializeU256,bind_ok,last_word]
  constructor
  · rintro ⟨⟨⟩,valid,⟨⟩⟩
    exact ⟨validOffset_iff.mp valid,rfl⟩
  · rintro ⟨inside,rfl⟩
    exact ⟨(),validOffset_iff.mpr inside,rfl⟩

/-- A type is found exactly where it is decoded with words that satisfy the predicate. -/
def Agrees (U : Utilities) (data : Bytes) (P : Use → Prop) (T : ArgType) : Prop :=
  ∀ position, Found data P T position ↔ ∃ x uses, decodeUses U data T position = .ok (x,uses) ∧ ∀ use ∈ uses, P use

/-- A type of one word that is read without using any. -/
theorem agrees_word {T : ArgType} (read : UInt64 → Call T.Val) (looks : ∀ position, Found data P T position = WordInside data position)
    (decodes : ∀ position, decodeUses U data T position = (read position).map (fun x => (x,[])))
    (reads : ∀ position, (∃ x, read position = .ok x) ↔ WordInside data position) : Agrees U data P T := by
  intro position
  rw [looks,← reads,decodes]
  constructor
  · rintro ⟨x,here⟩
    exact ⟨x,[],by rw [here]; rfl,by simp⟩
  · rintro ⟨x,uses,decoded,_⟩
    cases here : read position with
    | ok x => exact ⟨x,rfl⟩
    | error failure =>
      rw [here] at decoded
      cases decoded
/-- A string or bytes. -/
theorem bytesFound_iff (position : UInt64) : BytesFound data P position ↔ ∃ content uses, (do
    let len ← deserializeU256 U data position
    let content ← deserializeBytes U data position
    .ok (content,[.length position len content]) : Call (Bytes × List Use)) = .ok (content,uses) ∧ ∀ use ∈ uses, P use := by
  have last : position + 32 + sizeOfWord (wordAt data position) - 1 = position + sizeOfWord (wordAt data position) + 31 := by grind
  constructor
  · rintro ⟨inside,behind,holds⟩
    have header : deserializeU256 U data position = .ok (wordAt data position) := deserializeU256_iff.mpr ⟨inside,rfl⟩
    refine ⟨getCroppedData data (position + 32).toNat (sizeOfWord (wordAt data position)).toNat,_,?_,List.forall_mem_singleton.mpr holds⟩
    rw [deserializeBytes,header,ok_bind,ok_bind,last,validOffset_iff.mpr behind]
    rfl
  · rintro ⟨content,uses,decoded,all⟩
    obtain ⟨len,header,more⟩ := bind_ok.mp decoded
    obtain ⟨content,read,⟨⟩⟩ := bind_ok.mp more
    obtain ⟨inside,rfl⟩ := deserializeU256_iff.mp header
    rw [deserializeBytes,header,ok_bind] at read
    obtain ⟨⟨⟩,valid,⟨⟩⟩ := bind_ok.mp read
    rw [last] at valid
    exact ⟨inside,validOffset_iff.mp valid,List.forall_mem_singleton.mp all⟩

theorem componentFound_iff {T : ArgType} (agrees : Agrees U data P T) (base cursor : UInt64) :
    ComponentFound data P T (fun o => Found data P T o) base cursor ↔
      ∃ x uses, componentUses U data T (fun o => decodeUses U data T o) base cursor = .ok (x,uses) ∧ ∀ use ∈ uses, P use := by
  unfold ComponentFound componentUses
  by_cases dynamic : abiDynamicType T = true
  · rw [if_pos dynamic,if_pos dynamic]
    constructor
    · rintro ⟨inside,here,found⟩
      obtain ⟨x,uses,decoded,all⟩ := (agrees _).mp found
      refine ⟨x,_ :: uses,?_,List.forall_mem_cons.mpr ⟨here,all⟩⟩
      simp only [deserializeU256_iff.mpr ⟨inside,rfl⟩,ok_bind,decoded]
    · rintro ⟨x,uses,decoded,all⟩
      obtain ⟨w,read,more⟩ := bind_ok.mp decoded
      obtain ⟨⟨y,inner⟩,target,⟨⟩⟩ := bind_ok.mp more
      obtain ⟨inside,rfl⟩ := deserializeU256_iff.mp read
      obtain ⟨here,later⟩ := List.forall_mem_cons.mp all
      exact ⟨inside,here,(agrees _).mpr ⟨x,inner,target,later⟩⟩
  · rw [if_neg dynamic,if_neg dynamic]
    exact agrees cursor

/-- The loop over elements decodes what is found. -/
theorem elementsFound_iff {α : Type} {found : Nat → Prop} {element : Nat → Call (α × List Use)}
    (agrees : ∀ u, found u ↔ ∃ x uses, element u = .ok (x,uses) ∧ ∀ use ∈ uses, P use) (count u : Nat) :
    (∀ v, u ≤ v → v < u + count → found v) ↔
      ∃ xs, deserializeElements element count u = .ok xs ∧ ∀ use ∈ usesOf xs.1, P use := by
  induction count generalizing u with
  | zero => exact iff_of_true (fun v low high => by omega) ⟨⟨[],rfl⟩,rfl,by simp [usesOf]⟩
  | succ count ih =>
    constructor
    · intro all
      obtain ⟨x,uses,one,here⟩ := (agrees u).mp (all u (Nat.le_refl u) (by omega))
      obtain ⟨xs,looped,later⟩ := (ih (u + 1)).mp (fun v low high => all v (by omega) (by omega))
      refine ⟨⟨(x,uses) :: xs.1,length_cons _ xs⟩,by rw [deserializeElements,one,ok_bind,looped]; rfl,?_⟩
      exact List.forall_mem_append.mpr ⟨here,later⟩
    · rintro ⟨xs,decoded,all⟩
      obtain ⟨⟨x,uses⟩,one,more⟩ := bind_ok.mp decoded
      obtain ⟨rest,looped,⟨⟩⟩ := bind_ok.mp more
      obtain ⟨here,later⟩ := List.forall_mem_append.mp (show ∀ use ∈ uses ++ usesOf rest.1, P use from all)
      intro v low high
      rcases Nat.eq_or_lt_of_le low with rfl | above
      · exact (agrees u).mpr ⟨x,uses,one,here⟩
      · exact (ih (u + 1)).mpr ⟨rest,looped,later⟩ v above (by omega)

theorem membersFound_iff {Ts : List ArgType} (agrees : ∀ T ∈ Ts, Agrees U data P T) (base tupleOffset : UInt64) :
    MembersFound data P Ts base tupleOffset ↔
      ∃ xs uses, memberUses U data Ts base tupleOffset = .ok (xs,uses) ∧ ∀ use ∈ uses, P use := by
  induction Ts generalizing tupleOffset with
  | nil => exact iff_of_true trivial ⟨(),[],rfl,by simp⟩
  | cons T Ts ih =>
    obtain ⟨first,others⟩ := List.forall_mem_cons.mp agrees
    rw [MembersFound,componentFound_iff first]
    constructor
    · rintro ⟨⟨x,uses,one,here⟩,size,counted,found⟩
      obtain ⟨xs,more,looped,later⟩ := (ih others _).mp found
      refine ⟨(x,xs),uses ++ more,?_,List.forall_mem_append.mpr ⟨here,later⟩⟩
      rw [memberUses,one,ok_bind,counted]
      simp only [ok_bind,looped]
    · rintro ⟨xs,uses,decoded,all⟩
      rw [memberUses] at decoded
      obtain ⟨⟨x,head⟩,one,more⟩ := bind_ok.mp decoded
      obtain ⟨size,counted,rest⟩ := bind_ok.mp more
      obtain ⟨⟨ys,tail⟩,looped,⟨⟩⟩ := bind_ok.mp rest
      obtain ⟨here,later⟩ := List.forall_mem_append.mp all
      exact ⟨⟨x,head,one,here⟩,size,counted,(ih others _).mpr ⟨ys,tail,looped,later⟩⟩

theorem deserializeU256_reads (position : UInt64) : (∃ w, deserializeU256 U data position = .ok w) ↔ WordInside data position :=
  ⟨fun ⟨_,read⟩ => (deserializeU256_iff.mp read).1,fun inside => ⟨_,deserializeU256_iff.mpr ⟨inside,rfl⟩⟩⟩
/-- What is made of a word is read where the word is. -/
theorem converted_reads {α : Type} {convert : U256 → Call α} (converts : ∀ w, ∃ x, convert w = .ok x) (position : UInt64) :
    (∃ x, (deserializeU256 U data position >>= convert) = .ok x) ↔ WordInside data position := by
  rw [← deserializeU256_reads (U := U)]
  constructor
  · rintro ⟨x,read⟩
    obtain ⟨w,word,_⟩ := bind_ok.mp read
    exact ⟨w,word⟩
  · rintro ⟨w,word⟩
    obtain ⟨x,converted⟩ := converts w
    exact ⟨x,by rw [word,ok_bind,converted]⟩
/-- The same of the bytes of a word. -/
theorem verified_reads {α : Type} (x : UInt64 → α) (position : UInt64) :
    (∃ y, (do
      validOffset U data (position + 32 - 1)
      .ok (x position) : Call α) = .ok y) ↔ WordInside data position := by
  rw [last_word]
  constructor
  · rintro ⟨y,read⟩
    obtain ⟨⟨⟩,valid,_⟩ := bind_ok.mp read
    exact validOffset_iff.mp valid
  · intro inside
    exact ⟨x position,by rw [validOffset_iff.mpr inside]; rfl⟩

/-- What is found of a type is what the decoder decodes. -/
theorem found_iff (T : ArgType) : Agrees U data P T := by
  induction T using ArgType.induct with
  | u256 => exact agrees_word (deserializeU256 U data) (fun _ => rfl) (fun _ => rfl) deserializeU256_reads
  | s256 =>
    refine agrees_word (deserializeS256 U data) (fun _ => rfl) (fun _ => rfl) (converted_reads (fun w => ?_))
    split
    · exact ⟨_,rfl⟩
    · exact ⟨_,rfl⟩
  | bool => exact agrees_word (deserializeBool U data) (fun _ => rfl) (fun _ => rfl) (converted_reads (fun w => ⟨_,rfl⟩))
  | address => exact agrees_word (deserializeAddress U data) (fun _ => rfl) (fun _ => rfl) (verified_reads _)
  | string32 => exact agrees_word (deserializeString32 U data) (fun _ => rfl) (fun _ => rfl) (verified_reads _)
  | string => exact bytesFound_iff
  | bytes => exact bytesFound_iff
  | vector T ih =>
    intro position
    have loop := elementsFound_iff (fun u => componentFound_iff ih (position + 32) (elementCursor T (position + 32) u))
      (sizeOfWord (wordAt data position)).toNat 0
    simp only [Nat.zero_le,Nat.zero_add,true_imp_iff] at loop
    rw [Found,loop]
    constructor
    · rintro ⟨inside,here,xs,looped,all⟩
      refine ⟨(valuesOf xs).1,_ :: usesOf xs.1,?_,List.forall_mem_cons.mpr ⟨here,all⟩⟩
      rw [decodeUses,deserializeU256_iff.mpr ⟨inside,rfl⟩,ok_bind,looped]
      rfl
    · rintro ⟨x,uses,decoded,all⟩
      rw [decodeUses] at decoded
      obtain ⟨length,header,more⟩ := bind_ok.mp decoded
      obtain ⟨inside,rfl⟩ := deserializeU256_iff.mp header
      obtain ⟨xs,looped,⟨⟩⟩ := bind_ok.mp more
      obtain ⟨here,later⟩ := List.forall_mem_cons.mp all
      exact ⟨inside,here,xs,looped,later⟩
  | array T N ih =>
    intro position
    have loop := elementsFound_iff (fun u => componentFound_iff ih position (elementCursor T position u)) N 0
    simp only [Nat.zero_le,Nat.zero_add,true_imp_iff] at loop
    rw [Found,loop]
    constructor
    · rintro ⟨xs,looped,all⟩
      exact ⟨valuesOf xs,usesOf xs.1,by rw [decodeUses,looped]; rfl,all⟩
    · rintro ⟨x,uses,decoded,all⟩
      rw [decodeUses] at decoded
      obtain ⟨xs,looped,⟨⟩⟩ := bind_ok.mp decoded
      exact ⟨xs,looped,all⟩
  | tuple Ts ih =>
    intro position
    exact membersFound_iff ih position 0

end

end CppSdk.ArgumentWalk

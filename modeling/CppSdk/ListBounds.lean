import CppSdk.BufferWalk
import CppSdk.ListFills
import CppSdk.TypeBuilder

/-!
How long the lists get that the decoder fills. The loop of `T[]` runs to a number that the buffer
gives, and only a read beyond the buffer stops it. Where every element takes up a part of the heads
it stops after as many elements as the buffer has words; an element without a head never stops it.
The lists stay short exactly where the loops that the decoder comes to stop (`holds_iff_allStop`).
-/
namespace CppSdk.ListBounds
open CppSdk.ByteString CppSdk.Runtime CppSdk.SolidityAbi CppSdk.ContractABIType CppSdk.ContractABITypeCodec
open CppSdk.ContractABIDefinitionFactory CppSdk.TypeBuilder CppSdk.TreeHeads CppSdk.BufferWalk CppSdk.ListFills

section
variable {U : Utilities} {ndebug : Bool} {buffer : Bytes}

/-! ### The loop of a list -/

/-- An element takes up a part of the heads: it is dynamic, or its head has a word and is
    that of a type, or moves an `int` forward. -/
def Advances (t : AbstractType) : Prop :=
  dynamicType t = .ok false → 0 < headBytes t ∧
    ((∃ ty, HeadType t ty) ∨ (0 < headBytes t % 2 ^ 32 ∧ headBytes t % 2 ^ 32 < 2 ^ 31))

/-- The cursor stands beyond every buffer. -/
def Beyond (cursor : Cursor) : Prop := 2 ^ 31 ≤ bits cursor ∧ bits cursor + 31 < 2 ^ 32

/-- A component with a word is inside the buffer. -/
theorem component_inside {t : AbstractType} (advances : Advances t) {check : OffsetCheck} {base : UInt64}
    {cursor next : Cursor} {out : AbstractType} {uses : List Use}
    (decoded : deserializeComponent U buffer (fun o => deserializeUses U ndebug buffer t o) (dynamicType t) check base
      cursor = .ok (out,uses,next)) (unwrapped : cursor.position.toNat + 31 < 2 ^ 64) :
    cursor.position.toNat + 32 ≤ buffer.length := by
  obtain ⟨dynamic,dynamics,component⟩ := bind_ok.mp decoded
  cases dynamic with
  | true =>
    simp only [if_true] at component
    obtain ⟨w,read,_⟩ := bind_ok.mp component
    exact deserializeU256_inside read unwrapped
  | false => exact readsFirst t dynamics (advances dynamics).1 _ _ _ (component_static dynamics decoded).1 unwrapped

/-- Where the cursor stands after an element. -/
theorem component_next (bounded : buffer.length < 2 ^ 31) {t : AbstractType} (advances : Advances t) {check : OffsetCheck}
    {base : UInt64} {cursor next : Cursor} {out : AbstractType} {uses : List Use} (small : bits cursor < 2 ^ 31)
    (decoded : deserializeComponent U buffer (fun o => deserializeUses U ndebug buffer t o) (dynamicType t) check base
      cursor = .ok (out,uses,next)) :
    bits cursor + 32 ≤ buffer.length ∧ ((bits cursor + 32 ≤ bits next ∧ bits next < 2 ^ 31) ∨ Beyond next) := by
  have inside := component_inside advances decoded
  rw [position_of_small small] at inside
  have first := inside (by omega)
  refine ⟨first,?_⟩
  obtain ⟨dynamic,dynamics,_⟩ := bind_ok.mp decoded
  cases dynamic with
  | true =>
    obtain ⟨_,size,measured,moved⟩ := component_sameHead (keepsHead t) decoded
    rw [offsetAsBytes_dynamic dynamics,Except.ok.injEq] at measured
    have place : bits next = bits cursor + 32 := by
      rw [moved,← measured,bits_advance]
      show (bits cursor + 32) % 2 ^ 32 = bits cursor + 32
      omega
    exact .inl ⟨by omega,by omega⟩
  | false =>
    obtain ⟨decodedTree,moved⟩ := component_static dynamics decoded
    obtain ⟨word,size⟩ := advances dynamics
    obtain ⟨words,whole⟩ := headBytes_words t
    have forward : 0 < headBytes t % 2 ^ 32 ∧ headBytes t % 2 ^ 32 < 2 ^ 31 := by
      rcases size with ⟨ty,typed⟩ | below
      · have := readsAll bounded typed dynamics cursor _ _ small decodedTree
        omega
      · exact below
    have place : bits next = bits cursor + headBytes t % 2 ^ 32 := by
      rw [moved,bits_advance,UInt32.toNat_ofNat']
      omega
    unfold Beyond
    omega

/-- The loop decodes no more elements than there are words after the cursor. -/
theorem elements_bounded (bounded : buffer.length < 2 ^ 31) {t : AbstractType} (advances : Advances t)
    {check : OffsetCheck} {base : UInt64} {count : Nat} {cursor : Cursor} {outs : List AbstractType} {uses : List Use}
    (small : bits cursor < 2 ^ 31)
    (decoded : deserializeElements (fun cursor => do
        let _ ← clone t
        deserializeComponent U buffer (fun o => deserializeUses U ndebug buffer t o) (dynamicType t) check base cursor)
      count cursor = .ok (outs,uses)) : count = 0 ∨ bits cursor + 32 * count ≤ buffer.length := by
  induction count generalizing cursor outs uses with
  | zero => exact .inl rfl
  | succ count ih =>
    obtain ⟨⟨out,first,next⟩,one,more⟩ := bind_ok.mp decoded
    obtain ⟨⟨rest,others⟩,looped,_⟩ := bind_ok.mp more
    obtain ⟨copy,_,component⟩ := bind_ok.mp one
    obtain ⟨inside,⟨after,below⟩ | beyond⟩ := component_next bounded advances small component
    · have rest : count = 0 ∨ bits next + 32 * count ≤ buffer.length := ih below looped
      omega
    · cases count with
      | zero => omega
      | succ count =>
        -- an element beyond the buffer cannot be decoded
        obtain ⟨⟨out,second,last⟩,two,_⟩ := bind_ok.mp looped
        obtain ⟨copy,_,component⟩ := bind_ok.mp two
        have outside := component_inside advances component
        rw [position_toNat,if_pos beyond.1] at outside
        have := beyond.2
        have := outside (by omega)
        have := beyond.1
        omega

/-- A loop appends as many elements as there can be decoded one after the other. -/
theorem le_listFills {template : AbstractType} {base : UInt64} {count k : Nat} {cursor : Cursor} :
    k ≤ (listFills U buffer template base count cursor).1 ↔ k ≤ count ∧
      ∃ outs uses, deserializeElements (decodeElement U buffer template base) k cursor = .ok (outs,uses) := by
  induction count generalizing k cursor with
  | zero =>
    constructor
    · intro few
      obtain rfl : k = 0 := Nat.le_zero.mp few
      exact ⟨le_rfl,[],[],rfl⟩
    · exact fun found => found.1
  | succ count ih =>
    cases k with
    | zero => exact iff_of_true (Nat.zero_le _) ⟨Nat.zero_le _,[],[],rfl⟩
    | succ k =>
      cases one : decodeElement U buffer template base cursor with
      | error failure =>
        rw [listFills_stop one]
        refine iff_of_false (Nat.not_succ_le_zero k) ?_
        rintro ⟨_,outs,uses,decoded⟩
        rw [deserializeElements,one] at decoded
        cases decoded
      | ok tv =>
        obtain ⟨out,first,next⟩ := tv
        rw [listFills_next one,Nat.succ_le_succ_iff,ih,Nat.succ_le_succ_iff]
        refine and_congr_right (fun _ => ⟨?_,?_⟩)
        · rintro ⟨outs,uses,looped⟩
          refine ⟨out :: outs,first ++ uses,?_⟩
          simp only [deserializeElements,one,ok_bind,looped]
        · rintro ⟨outs,uses,decoded⟩
          rw [deserializeElements,one,ok_bind] at decoded
          obtain ⟨⟨rest,others⟩,looped,_⟩ := bind_ok.mp decoded
          exact ⟨rest,others,looped⟩

/-- A list whose elements advance is filled with few of them. -/
theorem listFills_bounded (bounded : buffer.length < 2 ^ 31) {template : AbstractType} (advances : Advances template)
    {offset : UInt64} {listSize : U256} (header : deserializeU256 U buffer offset = .ok listSize) :
    (listFills U buffer template (offset + 32) listSize.toNat (cursorAt (offset + 32))).1 ≤ buffer.length / 32 := by
  obtain ⟨claimed,elements,uses,looped⟩ := le_listFills.mp
    (le_refl (listFills U buffer template (offset + 32) listSize.toNat (cursorAt (offset + 32))).1)
  by_cases wrapped : 2 ^ 64 ≤ offset.toNat + 31
  · -- the view of a header that wraps around is empty
    obtain ⟨_,rfl⟩ := deserializeU256_iff.mp header
    have empty : getCroppedData buffer offset.toNat 32 = [] := by
      rw [getCroppedData,if_neg (by omega)]
    have none : (wordAt buffer offset).toNat = 0 := by
      rw [wordAt,empty]
      rfl
    omega
  · have inside := deserializeU256_inside header (by omega)
    have start : bits (cursorAt (offset + 32)) = offset.toNat + 32 := by
      rw [bits_cursorAt,UInt64.toNat_add]
      show (offset.toNat + 32) % 2 ^ 64 % 2 ^ 32 = offset.toNat + 32
      omega
    have few := elements_bounded bounded advances (show bits (cursorAt (offset + 32)) < 2 ^ 31 by omega) looped
    omega

end

/-! ### Loops that stop -/

section
variable (buffer : Bytes)

/-- An element of the list at the base can be decoded into a clone of the template. -/
def ElementFound (template : AbstractType) (base : UInt64) (cursor : Cursor) : Prop :=
  Exact template ∧ ComponentFound buffer (fun _ => True) (fun o => Found buffer (fun _ => True) template o) (dynamicType template) base cursor
/-- The loop of the list at the position stops: the elements advance, or the buffer asks for no more of them than it
    has words. If the template is the tree of no type, one of so many elements and one more may be missing instead. -/
def Stops (template : AbstractType) (position : UInt64) : Prop :=
  Advances template ∨ (wordAt buffer position).toNat ≤ buffer.length / 32 ∨
    (¬ ∃ ty, HeadType template ty) ∧
      ¬ ElementsFound (ElementFound buffer template (position + 32)) (behind template) (buffer.length / 32 + 1) (cursorAt (position + 32))

/-- The loops of a component stop. -/
def ComponentStops (stops : UInt64 → Prop) (dynamic : Call Bool) (base : UInt64) (cursor : Cursor) : Prop :=
  (dynamic = .ok true → WordInside buffer cursor.position → stops (base + sizeOfWord (wordAt buffer cursor.position))) ∧
    (dynamic = .ok false → stops cursor.position)
/-- The loops of elements stop, as far as one element after the other is found. -/
def ElementsStop (stops found : Cursor → Prop) (next : Cursor → Cursor) : Nat → Cursor → Prop
  | 0, _ => True
  | count + 1, cursor => stops cursor ∧ (found cursor → ElementsStop stops found next count (next cursor))

mutual
/-- The loops stop that the decoder comes to in the tree at the position. It comes to none in elements that cannot be
    cloned, as those with a `bytesN` that has no value. -/
def AllStop : AbstractType → UInt64 → Prop
  | .dynamicList _ value, position =>
    match value with
    | [] => True
    | template :: _ => WordInside buffer position → Exact template → Stops buffer template position ∧
        ElementsStop (ComponentStops buffer (fun o => AllStop template o) (dynamicType template) (position + 32))
          (ElementFound buffer template (position + 32)) (behind template) (wordAt buffer position).toNat (cursorAt (position + 32))
  | .fixedList _ dimension value, position => MembersStop position value dimension.toNat (cursorAt position)
  | .struct _ value, position => MembersStop position value value.length (cursorAt position)
  | _, _ => True
/-- The same for the first members of a fixed list or of a struct at the base. -/
def MembersStop (base : UInt64) : List AbstractType → Nat → Cursor → Prop
  | t :: ts, count + 1, cursor => ComponentStops buffer (fun o => AllStop t o) (dynamicType t) base cursor ∧
      (ComponentFound buffer (fun _ => True) (fun o => Found buffer (fun _ => True) t o) (dynamicType t) base cursor →
        MembersStop base ts count (behind t cursor))
  | _, _, _ => True
end

mutual
/-- The elements of every list in the tree take up a part of the heads, if they can be cloned. -/
def Advancing : AbstractType → Prop
  | .dynamicList _ value =>
    match value with
    | [] => True
    | template :: _ => Exact template → Advances template ∧ Advancing template
  | .fixedList _ _ value => AdvancingAmong value
  | .struct _ value => AdvancingAmong value
  | _ => True
/-- The same for every member. -/
def AdvancingAmong : List AbstractType → Prop
  | [] => True
  | t :: ts => Advancing t ∧ AdvancingAmong ts
end

/-- The lists have at most as many elements as the buffer has words. -/
def Short (sizes : List Nat) : Prop := ∀ size ∈ sizes, size ≤ buffer.length / 32

end

section
variable {U : Utilities} {buffer : Bytes}

/-! ### Elements without a head -/

/-- A static tree without a head is exact and found anywhere. -/
def Anywhere (buffer : Bytes) (t : AbstractType) : Prop :=
  dynamicType t = .ok false → headBytes t = 0 → Exact t ∧ ∀ position, Found buffer (fun _ => True) t position

/-- The cursor stays where there is no head. -/
theorem behind_wordless {t : AbstractType} (static : dynamicType t = .ok false) (wordless : headBytes t = 0) (cursor : Cursor) :
    behind t cursor = cursor := by
  rw [behind,offsetAsBytes_static static,wordless]
  exact advance_zero cursor
private theorem members_anywhere {ts : List AbstractType} (static : ∀ t ∈ ts, dynamicType t = .ok false)
    (wordless : ∀ t ∈ ts, headBytes t = 0) (anywhere : ∀ t ∈ ts, Anywhere buffer t) (base : UInt64) (cursor : Cursor) :
    MembersFound buffer (fun _ => True) base ts ts.length cursor := by
  induction ts with
  | nil => trivial
  | cons t ts ih =>
    obtain ⟨flat,flats⟩ := List.forall_mem_cons.mp static
    obtain ⟨empty,empties⟩ := List.forall_mem_cons.mp wordless
    obtain ⟨here,later⟩ := List.forall_mem_cons.mp anywhere
    refine ⟨.inr ⟨flat,(here flat empty).2 _⟩,?_⟩
    rw [behind_wordless flat empty]
    exact ih flats empties later

private theorem allExact_of {ts : List AbstractType} (each : ∀ t ∈ ts, Exact t) : AllExact ts := by
  induction ts with
  | nil => trivial
  | cons t ts ih =>
    obtain ⟨here,later⟩ := List.forall_mem_cons.mp each
    exact ⟨here,ih later⟩
private theorem sumHeads_zero {ts : List AbstractType} (wordless : sumHeads ts = 0) : ∀ t ∈ ts, headBytes t = 0 := by
  induction ts with
  | nil => simp
  | cons t ts ih =>
    rw [sumHeads] at wordless
    exact List.forall_mem_cons.mpr ⟨by omega,ih (by omega)⟩

/-- A tree of a type without a head is found anywhere. -/
theorem anywhere {t : AbstractType} {ty : Ty} (typed : HeadType t ty) : Anywhere buffer t := by
  induction typed with
  | @fixedList name dimension vs ty full nonempty each ih =>
    intro static wordless
    have flat : ty.dynamic = false := by
      have whole := dynamicType_eq (HeadType.fixedList name full nonempty each)
      rw [static] at whole
      exact (Except.ok.inj whole).symm
    have statics : ∀ v ∈ vs, dynamicType v = .ok false := fun v member => by rw [dynamicType_eq (each v member),flat]
    have empty : ty.headSize = 0 := by
      rw [headBytes_eq (HeadType.fixedList name full nonempty each) flat,Ty.headSize,flat] at wordless
      exact (Nat.mul_eq_zero.mp wordless).resolve_left (by omega)
    have wordlesses : ∀ v ∈ vs, headBytes v = 0 := fun v member => (headBytes_eq (each v member) flat).trans empty
    refine ⟨allExact_of (fun v member => (ih v member (statics v member) (wordlesses v member)).1),fun position => ?_⟩
    rw [Found,← full]
    exact members_anywhere statics wordlesses ih position _
  | @struct name vs ts count each ih =>
    intro static wordless
    have statics := anyDynamicType_false (by simpa only [dynamicType] using static)
    have wordlesses := sumHeads_zero (by simpa only [headBytes] using wordless)
    have each := zip_left count ih
    exact ⟨allExact_of (fun v member => (each v member (statics v member) (wordlesses v member)).1),
      fun position => members_anywhere statics wordlesses each position _⟩
  | string name content | dynamicBytes name content | dynamicList name vs t => intro static; cases static
  | _ => intro _ wordless; cases wordless

/-- Elements of a type of which some are missing advance. -/
private theorem advances_of_missing {template : AbstractType} {ty : Ty} (typed : HeadType template ty) {base : UInt64} {count : Nat}
    {cursor : Cursor} (missing : ¬ ElementsFound (ElementFound buffer template base) (behind template) count cursor) :
    Advances template := by
  intro static
  have here : Anywhere buffer template := anywhere typed
  refine ⟨Nat.pos_of_ne_zero (fun wordless => missing ?_),.inl ⟨ty,typed⟩⟩
  obtain ⟨exact',found⟩ := here static wordless
  have all : ∀ count cursor, ElementsFound (ElementFound buffer template base) (behind template) count cursor := by
    intro count
    induction count with
    | zero => exact fun _ => trivial
    | succ count ih => exact fun cursor => ⟨⟨exact',.inr ⟨static,found _⟩⟩,ih _⟩
  exact all count cursor

/-! ### Lists that stay short -/

private theorem short_nil : Short buffer [] := fun _ member => absurd member List.not_mem_nil
private theorem short_append {sizes more : List Nat} : Short buffer (sizes ++ more) ↔ Short buffer sizes ∧ Short buffer more :=
  List.forall_mem_append

/-- A word that is not inside cannot be read. -/
private theorem outside_fails {position : UInt64} (outside : ¬ WordInside buffer position) :
    ∃ failure, deserializeU256 U buffer position = .error failure := by
  cases read : deserializeU256 U buffer position with
  | ok w => exact absurd (deserializeU256_iff.mp read).1 outside
  | error failure => exact ⟨failure,rfl⟩

/-- The lists of a tree stay short exactly where the loops stop. -/
def ShortIff (U : Utilities) (buffer : Bytes) (t : AbstractType) : Prop :=
  ∀ position, Short buffer (fills U buffer t position) ↔ AllStop buffer t position

private theorem component_shortIff {t : AbstractType} (shortIff : ShortIff U buffer t) (base : UInt64) (cursor : Cursor) :
    Short buffer (componentFills U buffer (fun o => fills U buffer t o) (dynamicType t) base cursor) ↔
      ComponentStops buffer (fun o => AllStop buffer t o) (dynamicType t) base cursor := by
  unfold ComponentStops
  cases dynamicType t with
  | error failure =>
    exact iff_of_true short_nil
      ⟨fun answered => absurd answered (by simp),fun answered => absurd answered (by simp)⟩
  | ok dynamic =>
    cases dynamic with
    | false => simp only [componentFills,shortIff cursor.position,Except.ok.injEq,Bool.false_eq_true,false_imp_iff,true_imp_iff,true_and]
    | true =>
      simp only [Except.ok.injEq,Bool.true_eq_false,false_imp_iff,true_imp_iff,and_true]
      by_cases inside : WordInside buffer cursor.position
      · simp only [componentFills,deserializeU256_iff.mpr ⟨inside,rfl⟩,shortIff _,inside,true_imp_iff]
      · obtain ⟨failure,read⟩ := outside_fails (U := U) inside
        simp only [componentFills,read]
        exact iff_of_true short_nil (fun found => absurd found inside)

/-- An element is found where it can be decoded, and the next one stands behind it. -/
theorem elementFound_iff {template : AbstractType} (base : UInt64) (cursor : Cursor) : ElementFound buffer template base cursor ↔
    ∃ out uses, decodeElement U buffer template base cursor = .ok (out,uses,behind template cursor) := by
  rw [ElementFound,componentFound_iff (found_iff (U := U) template) (fun _ => .ok ()) (fun _ => rfl)]
  constructor
  · rintro ⟨exact',out,uses,component,_⟩
    exact ⟨out,uses,by rw [decodeElement,clone_eq exact']; exact component⟩
  · rintro ⟨out,uses,decoded⟩
    obtain ⟨copy,cloned,component⟩ := bind_ok.mp decoded
    exact ⟨exact_of_clone cloned,out,uses,component,fun _ _ => trivial⟩

private theorem elements_shortIff {template : AbstractType} (shortIff : ShortIff U buffer template) (exact' : Exact template) (base : UInt64)
    (count : Nat) (cursor : Cursor) : Short buffer (listFills U buffer template base count cursor).2 ↔
      ElementsStop (ComponentStops buffer (fun o => AllStop buffer template o) (dynamicType template) base)
        (ElementFound buffer template base) (behind template) count cursor := by
  induction count generalizing cursor with
  | zero => exact iff_of_true short_nil trivial
  | succ count ih =>
    have here : Short buffer (templateFills U buffer template base cursor) ↔
        ComponentStops buffer (fun o => AllStop buffer template o) (dynamicType template) base cursor := by
      rw [templateFills,clone_eq exact']
      exact component_shortIff shortIff base cursor
    rw [ElementsStop,elementFound_iff (U := U)]
    cases one : decodeElement U buffer template base cursor with
    | error failure =>
      rw [listFills_stop one,here]
      refine (and_iff_left ?_).symm
      rintro ⟨out,uses,decoded⟩
      cases decoded
    | ok tv =>
      obtain ⟨out,uses,next⟩ := tv
      obtain ⟨copy,cloned,component⟩ := bind_ok.mp one
      obtain rfl := component_behind component
      rw [listFills_next one,short_append,here,ih]
      exact and_congr_right (fun _ => ⟨fun later _ => later,fun later => later ⟨out,uses,rfl⟩⟩)

private theorem members_shortIff {ts : List AbstractType} (shortIff : ∀ t ∈ ts, ShortIff U buffer t) (base : UInt64) (count : Nat)
    (cursor : Cursor) : Short buffer (memberFills U buffer base ts count cursor) ↔ MembersStop buffer base ts count cursor := by
  induction ts generalizing count cursor with
  | nil => exact iff_of_true short_nil (by cases count <;> trivial)
  | cons t ts ih =>
    cases count with
    | zero => exact iff_of_true short_nil trivial
    | succ count =>
      obtain ⟨here,later⟩ := List.forall_mem_cons.mp shortIff
      rw [memberFills,MembersStop,short_append,component_shortIff here,
        componentFound_iff (found_iff (U := U) t) (fun _ => .ok ()) (fun _ => rfl)]
      refine and_congr_right (fun _ => ?_)
      cases one : decodeComponent U buffer t base cursor with
      | error failure =>
        refine iff_of_true short_nil ?_
        rintro ⟨out,uses,decoded,_⟩
        cases one.symm.trans decoded
      | ok tv =>
        obtain ⟨out,uses,next⟩ := tv
        obtain rfl := component_behind one
        rw [ih later]
        exact ⟨fun rest _ => rest,fun rest => rest ⟨out,uses,one,fun _ _ => trivial⟩⟩

variable (buffer) in
/-- Elements are found where they can be decoded one after the other. -/
private theorem elementsFound_decodes (template : AbstractType) (base : UInt64) (count : Nat) (cursor : Cursor) :
    ElementsFound (ElementFound buffer template base) (behind template) count cursor ↔
      ∃ outs uses, deserializeElements (decodeElement U buffer template base) count cursor = .ok (outs,uses) := by
  refine (elementsFound_iff (found_iff (U := U) template) (fun _ => .ok ()) (fun _ => rfl) base count cursor).trans ?_
  constructor
  · rintro ⟨outs,uses,decoded,_⟩
    exact ⟨outs,uses,decoded⟩
  · rintro ⟨outs,uses,decoded⟩
    exact ⟨outs,uses,decoded,fun _ _ => trivial⟩

/-- A template that cannot be cloned gives no elements. -/
theorem listFills_inexact {template : AbstractType} (inexact : ¬ Exact template) (base : UInt64) (count : Nat) (cursor : Cursor) :
    listFills U buffer template base count cursor = (0,[]) := by
  cases cloned : clone template with
  | ok copy => exact absurd (exact_of_clone cloned) inexact
  | error failure =>
    cases count with
    | zero => rfl
    | succ count => rw [listFills_stop (by rw [decodeElement,cloned]; rfl),templateFills,cloned]

/-- The loop of a list appends few elements exactly where it stops. -/
theorem size_short_iff (bounded : buffer.length < 2 ^ 31) {template : AbstractType} {position : UInt64}
    (inside : WordInside buffer position) :
    (listFills U buffer template (position + 32) (wordAt buffer position).toNat (cursorAt (position + 32))).1 ≤ buffer.length / 32 ↔
      Stops buffer template position := by
  have header : deserializeU256 U buffer position = .ok (wordAt buffer position) := deserializeU256_iff.mpr ⟨inside,rfl⟩
  have found := elementsFound_decodes (U := U) buffer template (position + 32) (buffer.length / 32 + 1) (cursorAt (position + 32))
  rw [Stops,← Nat.not_lt,← Nat.succ_le_iff,Nat.succ_eq_add_one,le_listFills]
  constructor
  · intro few
    by_cases claimed : (wordAt buffer position).toNat ≤ buffer.length / 32
    · exact .inr (.inl claimed)
    · have missing := fun there => few ⟨by omega,found.mp there⟩
      by_cases typed : ∃ ty, HeadType template ty
      · obtain ⟨ty,typed⟩ := typed
        exact .inl (advances_of_missing typed missing)
      · exact .inr (.inr ⟨typed,missing⟩)
  · rintro (advances | claimed | ⟨_,missing⟩)
    · exact fun many => absurd (listFills_bounded bounded advances header) (by have := le_listFills.mpr many; omega)
    · exact fun many => by omega
    · exact fun many => missing (found.mpr many.2)

/-- The lists that the decoder fills stay short exactly where the loops stop. -/
theorem shortIff (bounded : buffer.length < 2 ^ 31) (t : AbstractType) : ShortIff U buffer t := by
  induction t using AbstractType.induct with
  | dynamicList name value ih =>
    intro position
    cases value with
    | nil =>
      refine iff_of_true ?_ trivial
      cases read : deserializeU256 U buffer position with
      | ok w => simpa [fills,read] using short_nil
      | error failure => simpa [fills,read] using short_nil
    | cons template others =>
      rw [AllStop]
      by_cases inside : WordInside buffer position
      · rw [fills_list (deserializeU256_iff.mpr ⟨inside,rfl⟩)]
        by_cases exact' : Exact template
        · simp only [inside,exact',true_imp_iff]
          exact List.forall_mem_cons.trans (and_congr (size_short_iff bounded inside)
            (elements_shortIff (ih template List.mem_cons_self) exact' _ _ _))
        · rw [listFills_inexact exact']
          exact iff_of_true (List.forall_mem_cons.mpr ⟨Nat.zero_le _,short_nil⟩) (fun _ exact'' => absurd exact'' exact')
      · refine iff_of_true ?_ (fun read => absurd read inside)
        obtain ⟨failure,read⟩ := outside_fails (U := U) inside
        simpa [fills,read] using short_nil
  | fixedList name dimension value ih => exact fun position => members_shortIff ih position dimension.toNat (cursorAt position)
  | struct name value ih => exact fun position => members_shortIff ih position value.length (cursorAt position)
  | _ => exact fun position => iff_of_true short_nil trivial

/-! ### Where all loops stop -/

/-- Loops over elements stop that stop wherever an element is. -/
theorem elementsStop_of {stops found : Cursor → Prop} {next : Cursor → Cursor} (all : ∀ cursor, stops cursor) (count : Nat)
    (cursor : Cursor) : ElementsStop stops found next count cursor := by
  induction count generalizing cursor with
  | zero => trivial
  | succ count ih => exact ⟨all cursor,fun _ => ih (next cursor)⟩
private theorem componentStops_of {stops : UInt64 → Prop} (all : ∀ position, stops position) (dynamic : Call Bool) (base : UInt64)
    (cursor : Cursor) : ComponentStops buffer stops dynamic base cursor :=
  ⟨fun _ _ => all _,fun _ => all _⟩
private theorem membersStop_of {ts : List AbstractType} (all : ∀ t ∈ ts, ∀ position, AllStop buffer t position) (base : UInt64) (count : Nat)
    (cursor : Cursor) : MembersStop buffer base ts count cursor := by
  induction ts generalizing count cursor with
  | nil => cases count <;> trivial
  | cons t ts ih =>
    cases count with
    | zero => trivial
    | succ count =>
      obtain ⟨here,later⟩ := List.forall_mem_cons.mp all
      exact ⟨componentStops_of here _ _ _,fun _ => ih later _ _⟩

/-- In every buffer the loops stop of a tree whose lists advance. -/
theorem allStop_of_advancing (v : AbstractType) (advancing : Advancing v) (position : UInt64) : AllStop buffer v position := by
  have among : ∀ ts, AdvancingAmong ts → ∀ t ∈ ts, Advancing t := by
    intro ts
    induction ts with
    | nil => simp
    | cons t ts ih => exact fun each => List.forall_mem_cons.mpr ⟨each.1,ih each.2⟩
  induction v using AbstractType.induct generalizing position with
  | dynamicList name value ih =>
    cases value with
    | nil => trivial
    | cons template others =>
      intro _ exact'
      obtain ⟨advances,inner⟩ := advancing exact'
      exact ⟨.inl advances,elementsStop_of (componentStops_of (ih template List.mem_cons_self inner) _ _) _ _⟩
  | fixedList name dimension value ih => exact membersStop_of (fun t member => ih t member (among value advancing t member)) _ _ _
  | struct name value ih => exact membersStop_of (fun t member => ih t member (among value advancing t member)) _ _ _
  | _ => trivial

end

/-! ### The bound -/

section
variable (U : Utilities) (buffer : Bytes)

/-- The decoder, without its assertions, on a tree: it ends, no list that it fills gets more elements than the buffer
    has words, and so it is with every list in the tree it returns that is not as it was. -/
structure Holds (v : AbstractType) (offset : UInt64) : Prop where
  ends : Ends (deserialize U true buffer v offset)
  filled : ∀ size ∈ fills U buffer v offset, size ≤ buffer.length / 32
  returned : ∀ out, deserialize U true buffer v offset = .ok out →
    ∀ value ∈ listsIn out, value ∈ listsIn v ∨ value.length ≤ buffer.length / 32

end

/-- The decoder ends with short lists exactly where the loops stop that it comes to. -/
theorem holds_iff_allStop (U : Utilities) {buffer : Bytes} (bounded : buffer.length < 2 ^ 31) (v : AbstractType) (offset : UInt64) :
    Holds U buffer v offset ↔ AllStop buffer v offset := by
  rw [← shortIff (U := U) bounded v offset]
  constructor
  · exact fun holds => holds.filled
  · intro short
    have sized : Sized (fills U buffer v offset) := fun size member => by have := short size member; omega
    refine ⟨ends_bind (deserializeUses_ends v offset sized) (fun _ _ => ends_ok _),short,fun out decoded value inside => ?_⟩
    obtain ⟨⟨tree,uses⟩,decodedTree,⟨⟩⟩ := bind_ok.mp decoded
    exact (returned_fills v offset tree uses decodedTree value inside).imp_right (short value.length)

set_option maxRecDepth 4000 in
/-- A `string[]` that asks for more than there is, and as many tuples without components as there are words. -/
theorem holds_iff_allStop_lists :
    Holds Utilities.reference (word 32 ++ word 7 ++ word 32 ++ word 0) (.struct [] [(Param.list .string).tree false []]) 0 ∧
      Holds Utilities.reference (word 32 ++ word 2) (.struct [] [.dynamicList [] [.struct [] []]]) 0 := by
  have strings : Advancing (.struct [] [(Param.list .string).tree false []]) :=
    ⟨fun _ => ⟨fun static => (by cases static),trivial⟩,trivial⟩
  have tuples : AllStop (word 32 ++ word 2) (.struct [] [.dynamicList [] [.struct [] []]]) 0 := by
    refine ⟨⟨fun _ _ _ _ => ⟨.inr (.inl (by decide)),?_⟩,fun static => (by cases static)⟩,fun _ => trivial⟩
    exact elementsStop_of (componentStops_of (fun _ => trivial) _ _) _ _
  exact ⟨(holds_iff_allStop _ (by decide) _ _).mpr (allStop_of_advancing _ strings _),(holds_iff_allStop _ (by decide) _ _).mpr tuples⟩

/-- A list of tuples without components: two words give three elements. -/
theorem deserialize_empty_tuples :
    let v : AbstractType := .struct [] [.dynamicList [] [.struct [] []]]
    buildInput false [.mk [] (lit "tuple[]") false []] = .ok v ∧
      deserialize Utilities.reference true (word 32 ++ word 3) v 0 =
        .ok (.struct [] [.dynamicList [] [.struct [] [],.struct [] [],.struct [] []]]) ∧
      ¬ Holds Utilities.reference (word 32 ++ word 3) v 0 := by
  have decoded : deserialize Utilities.reference true (word 32 ++ word 3) (.struct [] [.dynamicList [] [.struct [] []]]) 0 =
      .ok (.struct [] [.dynamicList [] [.struct [] [],.struct [] [],.struct [] []]]) := rfl
  refine ⟨rfl,decoded,fun holds => ?_⟩
  rcases holds.returned _ decoded _ List.mem_cons_self with same | short
  · simp [listsIn,listsAmong] at same
  · revert short
    decide

end CppSdk.ListBounds

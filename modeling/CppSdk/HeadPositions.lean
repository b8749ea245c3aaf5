import CppSdk.Conformance

/-!
Where the decoder reads. Its cursor in the heads is an `int`, so it comes to the right
place only below 2^31 (`Near`). This holds of every encoding that ends below 2^31, and
where it holds the sizes in the encoder fit 32 bits.
-/
namespace CppSdk.HeadPositions
open CppSdk.ByteString CppSdk.Runtime CppSdk.SolidityAbi CppSdk.Conformance

mutual
/-- Every head in the encoding of the value at the position starts below 2^31. -/
def Near : Ty → Value → (position : Nat) → Prop
  | .list t, .seq xs, position =>
    NearParts (position + 32) (List.replicate xs.length t) xs (position + 32)
      (headLength (parts (List.replicate xs.length t) xs))
  | .fixed t count, .seq xs, position =>
    NearParts position (List.replicate count t) xs position (headLength (parts (List.replicate count t) xs))
  | .tuple ts, .seq xs, position => NearParts position ts xs position (headLength (parts ts xs))
  | _, _, _ => True
/-- So do the heads of the components from the cursor on, and those in their encodings,
    the next tail being at `offset` from `base`. -/
def NearParts (base : Nat) : List Ty → List Value → (cursor offset : Nat) → Prop
  | t :: ts, x :: xs, cursor, offset =>
    cursor < 2 ^ 31 ∧
      if t.dynamic then Near t x (base + offset) ∧ NearParts base ts xs (cursor + 32) (offset + (enc t x).length)
      else Near t x cursor ∧ NearParts base ts xs (cursor + (enc t x).length) offset
  | _, _, _, _ => True
end

theorem nearParts_dynamic {base : Nat} {t : Ty} {x : Value} {ts : List Ty} {xs : List Value} {cursor offset : Nat}
    (dynamic : t.dynamic = true) (near : NearParts base (t :: ts) (x :: xs) cursor offset) :
    cursor < 2 ^ 31 ∧ Near t x (base + offset) ∧ NearParts base ts xs (cursor + 32) (offset + (enc t x).length) := by
  rw [NearParts,if_pos dynamic] at near
  exact near
theorem nearParts_static {base : Nat} {t : Ty} {x : Value} {ts : List Ty} {xs : List Value} {cursor offset : Nat}
    (static : t.dynamic = false) (near : NearParts base (t :: ts) (x :: xs) cursor offset) :
    cursor < 2 ^ 31 ∧ Near t x cursor ∧ NearParts base ts xs (cursor + (enc t x).length) offset := by
  rw [NearParts,static,if_neg (by decide)] at near
  exact near

/-! ### Encodings that end below 2^31 -/

/-- Ending below 2^31 makes the heads near. -/
def NearIfSmall (t : Ty) (x : Value) : Prop := ∀ position, position + (enc t x).length < 2 ^ 31 → Near t x position

private theorem nearParts_of_small {base : Nat} {ts : List Ty} {xs : List Value} (count : ts.length = xs.length)
    (each : ∀ p ∈ ts.zip xs, NearIfSmall p.1 p.2) :
    ∀ {cursor offset : Nat}, cursor + headLength (parts ts xs) < 2 ^ 31 →
      base + offset + (tails (parts ts xs)).length < 2 ^ 31 → NearParts base ts xs cursor offset := by
  have pairs := pairwise_of_zip (R := NearIfSmall) count each
  clear count each
  induction pairs with
  | nil =>
    intro cursor offset _ _
    unfold NearParts
    trivial
  | @cons t x ts xs here later ih =>
    intro cursor offset front back
    by_cases dynamic : t.dynamic = true
    · simp only [parts,headLength,Part.headSize,tails,dynamic,if_true,List.length_append] at front back
      rw [NearParts,if_pos dynamic]
      exact ⟨by omega,here _ (by omega),ih (by omega) (by omega)⟩
    · simp only [parts,headLength,Part.headSize,tails,dynamic,Bool.false_eq_true,if_false] at front back
      rw [NearParts,if_neg dynamic]
      exact ⟨by omega,here _ (by omega),ih (by omega) (by omega)⟩

private theorem nearParts_layout {ts : List Ty} {xs : List Value} (count : ts.length = xs.length)
    (each : ∀ p ∈ ts.zip xs, NearIfSmall p.1 p.2)
    {position : Nat} (small : position + (layout (parts ts xs)).length < 2 ^ 31) :
    NearParts position ts xs position (headLength (parts ts xs)) := by
  rw [layout_length] at small
  apply nearParts_of_small count each
  · omega
  · omega

/-- In an encoding that ends below 2^31 every head starts below it. -/
theorem near_of_small {t : Ty} {x : Value} (typed : Typed t x) : NearIfSmall t x := by
  induction typed with
  | @list element xs each ih =>
    intro position small
    rw [enc,List.length_append,word_length] at small
    exact nearParts_layout (by simp) (each_replicate (P := NearIfSmall) ih) (by omega)
  | @fixed element count xs full each ih =>
    intro position small
    rw [enc] at small
    exact nearParts_layout (by simp [full]) (each_replicate (P := NearIfSmall) ih) small
  | @tuple ts xs count each ih =>
    intro position small
    rw [enc] at small
    exact nearParts_layout count ih small
  | _ =>
    intro position _
    unfold Near
    trivial

/-! ### Static components -/

/-- A static component whose heads start below 2^31 ends within the word that is there. -/
def EndsNear (t : Ty) (x : Value) : Prop :=
  t.dynamic = false → ∀ position, Near t x position → position < 2 ^ 31 → position + (enc t x).length < 2 ^ 31 + 32

private theorem nearParts_end {base : Nat} {ts : List Ty} {xs : List Value} (count : ts.length = xs.length)
    (each : ∀ p ∈ ts.zip xs, EndsNear p.1 p.2) (static : ∀ t ∈ ts, t.dynamic = false) :
    ∀ {cursor offset : Nat}, NearParts base ts xs cursor offset → cursor < 2 ^ 31 + 32 →
      cursor + headLength (parts ts xs) < 2 ^ 31 + 32 := by
  have pairs := pairwise_of_zip (R := EndsNear) count each
  clear count each
  induction pairs with
  | nil =>
    intro cursor offset _ low
    exact low
  | @cons t x ts xs here later ih =>
    intro cursor offset near low
    obtain ⟨flat,others⟩ := List.forall_mem_cons.mp static
    obtain ⟨below,inside,rest⟩ := nearParts_static flat near
    have total := ih others rest (here flat cursor inside below)
    simp only [parts,headLength,Part.headSize,flat,Bool.false_eq_true,if_false]
    omega

private theorem endsNear_parts {base : Nat} {ts : List Ty} {xs : List Value} (count : ts.length = xs.length)
    (each : ∀ p ∈ ts.zip xs, EndsNear p.1 p.2) (static : ∀ t ∈ ts, t.dynamic = false) {position offset : Nat}
    (near : NearParts base ts xs position offset) (low : position < 2 ^ 31) :
    position + (layout (parts ts xs)).length < 2 ^ 31 + 32 := by
  rw [layout_static_length (parts_dynamic static)]
  exact nearParts_end count each static near (by omega)
private theorem endsNear_word {t : Ty} {x : Value} (typed : Typed t x) (size : t.headSize = 32) : EndsNear t x := by
  intro static position _ low
  rw [enc_length_static typed static,size]
  omega

theorem endsNear_of_typed {t : Ty} {x : Value} (typed : Typed t x) : EndsNear t x := by
  induction typed with
  | @fixed element count xs full each ih =>
    intro static position near low
    rw [enc]
    refine endsNear_parts (by simp [full]) (each_replicate (P := EndsNear) ih) (fun t member => ?_) near low
    rw [List.eq_of_mem_replicate member]
    exact static
  | @tuple ts xs count each ih =>
    intro static position near low
    rw [enc]
    exact endsNear_parts count ih (anyDynamic_eq_false.mp static) near low
  | bool b => exact endsNear_word (.bool b) rfl
  | uint range => exact endsNear_word (.uint range) rfl
  | int low high => exact endsNear_word (.int low high) rfl
  | bytesN exact positive small => exact endsNear_word (.bytesN exact positive small) rfl
  | address exact => exact endsNear_word (.address exact) rfl
  | _ =>
    intro static
    cases static

/-! ### Components -/

/-- Each component is near somewhere. -/
theorem nearParts_each {base : Nat} {ts : List Ty} {xs : List Value} (count : ts.length = xs.length) :
    ∀ {cursor offset : Nat}, NearParts base ts xs cursor offset →
      ∀ p ∈ ts.zip xs, ∃ position, Near p.1 p.2 position ∧ (p.1.dynamic = false → position < 2 ^ 31) := by
  induction ts generalizing xs with
  | nil => simp
  | cons t ts ih =>
    cases xs with
    | nil => simp
    | cons x xs =>
      intro cursor offset near
      rw [List.zip_cons_cons,List.forall_mem_cons]
      by_cases dynamic : t.dynamic = true
      · obtain ⟨_,here,later⟩ := nearParts_dynamic dynamic near
        exact ⟨⟨_,here,by simp [dynamic]⟩,ih (by simpa using count) later⟩
      · obtain ⟨below,here,later⟩ := nearParts_static (by simpa using dynamic) near
        exact ⟨⟨_,here,fun _ => below⟩,ih (by simpa using count) later⟩

/-- Heads of a word each leave room for few components. -/
theorem nearParts_count {base : Nat} {ts : List Ty} {xs : List Value} (count : ts.length = xs.length)
    (wide : ∀ p ∈ parts ts xs, 32 ≤ p.headSize) :
    ∀ {cursor offset : Nat}, NearParts base ts xs cursor offset → xs ≠ [] →
      cursor + 32 * xs.length < 2 ^ 31 + 32 := by
  induction ts generalizing xs with
  | nil =>
    intro cursor offset _ nonempty
    exact absurd (List.length_eq_zero_iff.mp count.symm) nonempty
  | cons t ts ih =>
    cases xs with
    | nil => simp
    | cons x xs =>
      intro cursor offset near _
      rw [parts,List.forall_mem_cons,Part.headSize] at wide
      have next : cursor < 2 ^ 31 ∧ ∃ cursor' ≥ cursor + 32, ∃ offset', NearParts base ts xs cursor' offset' := by
        by_cases dynamic : t.dynamic = true
        · obtain ⟨below,_,later⟩ := nearParts_dynamic dynamic near
          exact ⟨below,_,Nat.le_refl _,_,later⟩
        · obtain ⟨below,_,later⟩ := nearParts_static (by simpa using dynamic) near
          have size := wide.1
          simp only [dynamic,Bool.false_eq_true,if_false] at size
          exact ⟨below,_,by omega,_,later⟩
      obtain ⟨below,cursor',room,offset',later⟩ := next
      by_cases last : xs = []
      · subst last
        simp
        omega
      · have rest := ih (by simpa using count) wide.2 later last
        simp only [List.length_cons]
        omega

/-- Near heads fit 32 bits. -/
def FitsIfNear (t : Ty) (x : Value) : Prop := ∀ position, Near t x position → HeadsFit t x

private theorem allFit_of_near {base : Nat} {ts : List Ty} {xs : List Value} (count : ts.length = xs.length)
    (each : ∀ p ∈ ts.zip xs, FitsIfNear p.1 p.2) {cursor offset : Nat}
    (near : NearParts base ts xs cursor offset) : AllFit ts xs := by
  have fit : ∀ p ∈ ts.zip xs, HeadsFit p.1 p.2 := by
    intro p member
    obtain ⟨position,inside,_⟩ := nearParts_each count near p member
    exact each p member position inside
  have pairs := pairwise_of_zip count fit
  clear count each near fit
  induction pairs with
  | nil => simp [AllFit]
  | cons here later ih => exact ⟨here,ih⟩

/-- Where every head starts below 2^31, every head fits 32 bits. -/
theorem headsFit_of_near {t : Ty} {x : Value} (typed : Typed t x) : FitsIfNear t x := by
  induction typed with
  | @list element xs each ih =>
    intro position near
    exact allFit_of_near (by simp) (each_replicate (P := FitsIfNear) ih) near
  | @fixed element count xs full each ih =>
    intro position near
    exact allFit_of_near (by simp [full]) (each_replicate (P := FitsIfNear) ih) near
  | @tuple ts xs count each ih =>
    intro position near
    constructor
    · intro _ t member static
      have sizes : ∀ p ∈ ts.zip xs, p.1.dynamic = false → p.1.headSize < 2 ^ 32 := by
        intro p pair flat
        obtain ⟨start,here,below⟩ := nearParts_each count near p pair
        have size := endsNear_of_typed (each p pair) flat start here (below flat)
        rw [enc_length_static (each p pair) flat] at size
        omega
      exact zip_left count (P := fun t => t.dynamic = false → t.headSize < 2 ^ 32) sizes t member static
    · exact allFit_of_near count ih near
  | _ =>
    intro position _
    unfold HeadsFit
    trivial

end CppSdk.HeadPositions

import CppSdk.ByteString
import Mathlib.Data.List.Forall2

/-!
The Solidity contract ABI: types, values and the encoding of a value. A tuple is
laid out as the heads of its components, then the tails of the dynamic ones; a
dynamic component is represented in the head by the offset of its tail from the
start of the tuple. A list is its length followed by the layout of its elements, an
array is laid out as the tuple of its elements.
-/
namespace CppSdk.SolidityAbi
open CppSdk.ByteString

/-! ### Types and values -/

/-- A Solidity type; `fixed` is `T[k]` and `list` is `T[]`. -/
inductive Ty where
  | bool
  | uint (bits : Nat)
  | int (bits : Nat)
  | bytesN (size : Nat)
  | address
  | string
  | bytes
  | list (element : Ty)
  | fixed (element : Ty) (count : Nat)
  | tuple (components : List Ty)

/-- A value: `bytes` for `bytesN`, `address`, `string` and `bytes`, `seq` for lists,
    arrays and tuples. -/
inductive Value where
  | bool (b : Bool)
  | nat (n : Nat)
  | int (i : Int)
  | bytes (content : Bytes)
  | seq (members : List Value)

mutual
/-- `string`, `bytes` and lists are dynamic, arrays of dynamic elements, and tuples
    with a dynamic component. -/
def Ty.dynamic : Ty → Bool
  | .string => true
  | .bytes => true
  | .list _ => true
  | .fixed element _ => element.dynamic
  | .tuple components => anyDynamic components
  | _ => false
/-- One of the types is dynamic. -/
def anyDynamic : List Ty → Bool
  | [] => false
  | t :: ts => t.dynamic || anyDynamic ts
end

mutual
/-- The bytes a component takes in the head: one offset word when dynamic, its
    whole encoding otherwise. -/
def Ty.headSize : Ty → Nat
  | .fixed element count => if element.dynamic then 32 else count * element.headSize
  | .tuple components => if anyDynamic components then 32 else headSizes components
  | _ => 32
/-- The bytes of all heads. -/
def headSizes : List Ty → Nat
  | [] => 0
  | t :: ts => t.headSize + headSizes ts
end

theorem anyDynamic_eq_false {ts : List Ty} : anyDynamic ts = false ↔ ∀ t ∈ ts, t.dynamic = false := by
  induction ts with
  | nil => simp [anyDynamic]
  | cons t ts ih => simp [anyDynamic,ih]

theorem headSize_of_dynamic {t : Ty} (dynamic : t.dynamic = true) : t.headSize = 32 := by
  cases t with
  | fixed element count => simp only [Ty.dynamic] at dynamic; simp [Ty.headSize,dynamic]
  | tuple components => simp only [Ty.dynamic] at dynamic; simp [Ty.headSize,dynamic]
  | _ => simp [Ty.headSize]

theorem headSize_le {t : Ty} {ts : List Ty} (member : t ∈ ts) : t.headSize ≤ headSizes ts := by
  induction ts with
  | nil => simp at member
  | cons u ts ih =>
    rw [headSizes]
    rcases List.mem_cons.mp member with rfl | later
    · omega
    · have := ih later
      omega

theorem headSizes_replicate (count : Nat) (t : Ty) : headSizes (List.replicate count t) = count * t.headSize := by
  induction count with
  | zero => simp [headSizes]
  | succ count ih => rw [List.replicate_succ,headSizes,ih,Nat.succ_mul,Nat.add_comm]

/-- `x` is a value of the type; numbers are bounded by the 256-bit word only. -/
inductive Typed : Ty → Value → Prop where
  | bool (b : Bool) : Typed .bool (.bool b)
  | uint {bits n : Nat} (range : n < 2 ^ 256) : Typed (.uint bits) (.nat n)
  | int {bits : Nat} {i : Int} (low : -2 ^ 255 ≤ i) (high : i < 2 ^ 255) : Typed (.int bits) (.int i)
  | bytesN {size : Nat} {content : Bytes} (exact : content.length = size)
      (positive : 0 < size) (small : size ≤ 32) : Typed (.bytesN size) (.bytes content)
  | address {content : Bytes} (exact : content.length = 20) : Typed .address (.bytes content)
  | string (content : Bytes) : Typed .string (.bytes content)
  | bytes (content : Bytes) : Typed .bytes (.bytes content)
  | list {element : Ty} {xs : List Value} (each : ∀ x ∈ xs, Typed element x) : Typed (.list element) (.seq xs)
  | fixed {element : Ty} {count : Nat} {xs : List Value} (full : xs.length = count)
      (each : ∀ x ∈ xs, Typed element x) : Typed (.fixed element count) (.seq xs)
  | tuple {ts : List Ty} {xs : List Value} (count : ts.length = xs.length)
      (each : ∀ p ∈ ts.zip xs, Typed p.1 p.2) : Typed (.tuple ts) (.seq xs)

/-- Lists of one length whose zipped pairs are related are related pointwise. -/
theorem pairwise_of_zip {α β : Type} {R : α → β → Prop} {as : List α} {bs : List β} (count : as.length = bs.length)
    (each : ∀ p ∈ as.zip bs, R p.1 p.2) : List.Forall₂ R as bs :=
  List.forall₂_iff_zip.mpr ⟨count,fun member => each (_,_) member⟩

theorem zip_of_pairwise {α β : Type} {R : α → β → Prop} {as : List α} {bs : List β} (pairs : List.Forall₂ R as bs) :
    ∀ p ∈ as.zip bs, R p.1 p.2 := fun _ member => (List.forall₂_iff_zip.mp pairs).2 member

/-- Three lists of one length with related entries. -/
inductive Rows {α β γ : Type} (R : α → β → γ → Prop) : List α → List β → List γ → Prop where
  | nil : Rows R [] [] []
  | cons {a : α} {b : β} {c : γ} {as : List α} {bs : List β} {cs : List γ} (here : R a b c) (later : Rows R as bs cs) :
      Rows R (a :: as) (b :: bs) (c :: cs)

theorem rows_of_zip {α β γ : Type} {R : α → β → γ → Prop} {as : List α} {bs : List β} {cs : List γ}
    (front : as.length = bs.length) (back : bs.length = cs.length)
    (each : ∀ p ∈ as.zip (bs.zip cs), R p.1 p.2.1 p.2.2) : Rows R as bs cs := by
  induction as generalizing bs cs with
  | nil =>
    obtain rfl := List.length_eq_zero_iff.mp front.symm
    obtain rfl := List.length_eq_zero_iff.mp back.symm
    exact .nil
  | cons a as ih =>
    match bs, cs, front, back with
    | b :: bs, c :: cs, front, back =>
      simp only [List.zip_cons_cons,List.forall_mem_cons] at each
      exact .cons each.1 (ih (by simpa using front) (by simpa using back) each.2)
theorem zip_of_rows {α β γ : Type} {R : α → β → γ → Prop} {as : List α} {bs : List β} {cs : List γ}
    (rows : Rows R as bs cs) : ∀ p ∈ as.zip (bs.zip cs), R p.1 p.2.1 p.2.2 := by
  induction rows with
  | nil => simp
  | cons here later ih => exact List.forall_mem_cons.mpr ⟨here,ih⟩
theorem rows_of_pairs {α β γ : Type} {R : α → β → Prop} {S : β → γ → Prop} {as : List α} {bs : List β} {cs : List γ}
    (left : List.Forall₂ R as bs) (right : List.Forall₂ S bs cs) : Rows (fun a b c => R a b ∧ S b c) as bs cs := by
  induction left generalizing cs with
  | nil => cases right; exact .nil
  | cons here later ih =>
    cases right with
    | cons here' later' => exact .cons ⟨here,here'⟩ (ih later')
theorem rows_replicate {α β γ : Type} {R : α → β → γ → Prop} {as : List α} {cs : List γ} {b : β}
    (count : as.length = cs.length) (each : ∀ p ∈ as.zip cs, R p.1 b p.2) :
    Rows R as (List.replicate cs.length b) cs := by
  have pairs := pairwise_of_zip (R := fun a c => R a b c) count each
  clear each count
  induction pairs with
  | nil => exact .nil
  | cons here later ih => exact .cons here ih
theorem pairwise_of_rows {α β γ : Type} {R : α → β → γ → Prop} {as : List α} {bs : List β} {cs : List γ} {b : β}
    (rows : Rows R as bs cs) (same : ∀ b' ∈ bs, b' = b) : List.Forall₂ (fun a c => R a b c) as cs := by
  induction rows with
  | nil => exact .nil
  | cons here later ih =>
    obtain ⟨rfl,others⟩ := List.forall_mem_cons.mp same
    exact .cons here (ih others)
theorem Rows.imp {α β γ : Type} {R S : α → β → γ → Prop} {as : List α} {bs : List β} {cs : List γ}
    (rows : Rows R as bs cs) (weaker : ∀ a b c, R a b c → S a b c) : Rows S as bs cs := by
  induction rows with
  | nil => exact .nil
  | cons here later ih => exact .cons (weaker _ _ _ here) ih
theorem Rows.lengths {α β γ : Type} {R : α → β → γ → Prop} {as : List α} {bs : List β} {cs : List γ}
    (rows : Rows R as bs cs) : as.length = bs.length ∧ bs.length = cs.length := by
  induction rows with
  | nil => simp
  | cons here later ih => simp [ih]
theorem Rows.zip_left {α β γ : Type} {R : α → β → Prop} {as : List α} {bs : List β} {cs : List γ}
    (rows : Rows (fun a b _ => R a b) as bs cs) : ∀ p ∈ as.zip bs, R p.1 p.2 := by
  induction rows with
  | nil => simp
  | cons here later ih => exact List.forall_mem_cons.mpr ⟨here,ih⟩
theorem Rows.zip_right {α β γ : Type} {R : β → γ → Prop} {as : List α} {bs : List β} {cs : List γ}
    (rows : Rows (fun _ b c => R b c) as bs cs) : ∀ p ∈ bs.zip cs, R p.1 p.2 := by
  induction rows with
  | nil => simp
  | cons here later ih => exact List.forall_mem_cons.mpr ⟨here,ih⟩

theorem zip_left {α β : Type} {P : α → Prop} {as : List α} {bs : List β} (count : as.length = bs.length)
    (each : ∀ p ∈ as.zip bs, P p.1) : ∀ a ∈ as, P a := by
  have pairs := pairwise_of_zip (R := fun a _ => P a) count each
  clear each count
  induction pairs with
  | nil => simp
  | cons here later ih => exact List.forall_mem_cons.mpr ⟨here,ih⟩
theorem zip_right {α β : Type} {P : β → Prop} {as : List α} {bs : List β} (count : as.length = bs.length)
    (each : ∀ p ∈ as.zip bs, P p.2) : ∀ b ∈ bs, P b := by
  have pairs := pairwise_of_zip (R := fun _ b => P b) count each
  clear each count
  induction pairs with
  | nil => simp
  | cons here later ih => exact List.forall_mem_cons.mpr ⟨here,ih⟩

/-! ### Heads and tails -/

/-- A component of a layout: whether it is dynamic, and its encoding. -/
structure Part where
  dynamic : Bool
  body : Bytes

/-- The bytes a part takes in the head. -/
def Part.headSize (p : Part) : Nat := if p.dynamic then 32 else p.body.length
/-- The bytes of all heads. -/
def headLength : List Part → Nat
  | [] => 0
  | p :: ps => p.headSize + headLength ps
/-- The heads, when the next tail starts at `offset`. -/
def heads : Nat → List Part → Bytes
  | _, [] => []
  | offset, p :: ps =>
    if p.dynamic then word offset ++ heads (offset + p.body.length) ps else p.body ++ heads offset ps
/-- The encodings of the dynamic parts, in order. -/
def tails : List Part → Bytes
  | [] => []
  | p :: ps => if p.dynamic then p.body ++ tails ps else tails ps
/-- All heads, then all tails. -/
def layout (ps : List Part) : Bytes := heads (headLength ps) ps ++ tails ps

@[simp] theorem heads_length (offset : Nat) (ps : List Part) : (heads offset ps).length = headLength ps := by
  induction ps generalizing offset with
  | nil => rfl
  | cons p ps ih =>
    by_cases dynamic : p.dynamic = true
    · simp [heads,headLength,Part.headSize,dynamic,ih]
    · simp [heads,headLength,Part.headSize,dynamic,ih]
theorem layout_length (ps : List Part) : (layout ps).length = headLength ps + (tails ps).length := by
  simp [layout]

/-- Without dynamic parts the heads are the parts in order, and there are no tails. -/
theorem heads_static {ps : List Part} (static : ∀ p ∈ ps, p.dynamic = false) (offset : Nat) :
    heads offset ps = ps.flatMap Part.body := by
  induction ps with
  | nil => rfl
  | cons p ps ih =>
    obtain ⟨here,later⟩ := List.forall_mem_cons.mp static
    simp [heads,here,ih later]
theorem tails_static {ps : List Part} (static : ∀ p ∈ ps, p.dynamic = false) : tails ps = [] := by
  induction ps with
  | nil => rfl
  | cons p ps ih =>
    obtain ⟨here,later⟩ := List.forall_mem_cons.mp static
    simp [tails,here,ih later]

/-- With dynamic parts only, each head is one word. -/
theorem headLength_dynamic {ps : List Part} (dynamic : ∀ p ∈ ps, p.dynamic = true) :
    headLength ps = ps.length * 32 := by
  induction ps with
  | nil => rfl
  | cons p ps ih =>
    obtain ⟨here,later⟩ := List.forall_mem_cons.mp dynamic
    simp [headLength,Part.headSize,here,ih later]
    omega

theorem headLength_positive {ps : List Part} (dynamic : ∃ p ∈ ps, p.dynamic = true) : 0 < headLength ps := by
  obtain ⟨p,member,isDynamic⟩ := dynamic
  induction ps with
  | nil => simp at member
  | cons q ps ih =>
    rcases List.mem_cons.mp member with rfl | later
    · simp [headLength,Part.headSize,isDynamic]
    · have := ih later
      rw [headLength]
      omega

theorem body_length_le {p : Part} {ps : List Part} (member : p ∈ ps) : p.body.length ≤ (layout ps).length := by
  rw [layout_length]
  induction ps with
  | nil => simp at member
  | cons q ps ih =>
    rcases List.mem_cons.mp member with rfl | later
    · by_cases dynamic : p.dynamic = true
      · simp [tails,dynamic]; omega
      · simp [headLength,Part.headSize,dynamic]; omega
    · have rest := ih later
      by_cases dynamic : q.dynamic = true
      · simp [tails,headLength,Part.headSize,dynamic]; omega
      · simp [tails,headLength,Part.headSize,dynamic]; omega

/-! ### Encoding -/

mutual
/-- The encoding of a value of a type. -/
def enc : Ty → Value → Bytes
  | .bool, .bool b => word (if b then 1 else 0)
  | .uint _, .nat n => word n
  | .int _, .int i => word (i % 2 ^ 256).toNat
  | .bytesN _, .bytes content => padRight content
  | .address, .bytes content => word (fromBigEndian content)
  | .string, .bytes content => word content.length ++ padRight content
  | .bytes, .bytes content => word content.length ++ padRight content
  | .list t, .seq xs => word xs.length ++ layout (parts (List.replicate xs.length t) xs)
  | .fixed t count, .seq xs => layout (parts (List.replicate count t) xs)
  | .tuple ts, .seq xs => layout (parts ts xs)
  | _, _ => []
/-- The components of a tuple, each with its encoding. -/
def parts : List Ty → List Value → List Part
  | t :: ts, x :: xs => ⟨t.dynamic,enc t x⟩ :: parts ts xs
  | _, _ => []
end

theorem parts_eq (ts : List Ty) (xs : List Value) :
    parts ts xs = (ts.zip xs).map (fun p => ⟨p.1.dynamic,enc p.1 p.2⟩) := by
  induction ts generalizing xs with
  | nil => simp [parts]
  | cons t ts ih =>
    cases xs with
    | nil => simp [parts]
    | cons x xs => simp [parts,ih]

theorem parts_dynamic {ts : List Ty} {xs : List Value} {d : Bool} (uniform : ∀ t ∈ ts, t.dynamic = d) :
    ∀ p ∈ parts ts xs, p.dynamic = d := by
  intro p member
  rw [parts_eq] at member
  obtain ⟨pair,inZip,rfl⟩ := List.mem_map.mp member
  exact uniform pair.1 (List.of_mem_zip inZip).1

theorem parts_anyDynamic {ts : List Ty} {xs : List Value} (count : ts.length = xs.length)
    (dynamic : anyDynamic ts = true) : ∃ p ∈ parts ts xs, p.dynamic = true := by
  induction ts generalizing xs with
  | nil => simp [anyDynamic] at dynamic
  | cons t ts ih =>
    cases xs with
    | nil => simp at count
    | cons x xs =>
      by_cases first : t.dynamic = true
      · exact ⟨_,List.mem_cons_self,first⟩
      · obtain ⟨p,member,isDynamic⟩ := ih (by simpa using count) (by simpa [anyDynamic,first] using dynamic)
        exact ⟨p,List.mem_cons_of_mem _ member,isDynamic⟩

@[simp] theorem parts_length {ts : List Ty} {xs : List Value} (count : ts.length = xs.length) :
    (parts ts xs).length = xs.length := by
  simp [parts_eq,count]

/-- What holds of every element of an array holds of the zipped components. -/
theorem each_replicate {P : Ty → Value → Prop} {t : Ty} {xs : List Value} {count : Nat}
    (each : ∀ x ∈ xs, P t x) : ∀ p ∈ (List.replicate count t).zip xs, P p.1 p.2 := by
  intro p member
  obtain ⟨inTypes,inValues⟩ := List.of_mem_zip member
  rw [List.eq_of_mem_replicate inTypes]
  exact each p.2 inValues

/-! ### Sizes -/

/-- The heads take what the types say, when every static component does. -/
theorem headLength_parts {ts : List Ty} {xs : List Value} (count : ts.length = xs.length)
    (sizes : ∀ p ∈ ts.zip xs, p.1.dynamic = false → (enc p.1 p.2).length = p.1.headSize) :
    headLength (parts ts xs) = headSizes ts := by
  have pairs : List.Forall₂ (fun t x => t.dynamic = false → (enc t x).length = t.headSize) ts xs :=
    pairwise_of_zip count sizes
  clear count sizes
  induction pairs with
  | nil => rfl
  | @cons t x ts xs size rest ih =>
    simp only [parts,headLength,headSizes,ih]
    by_cases dynamic : t.dynamic = true
    · simp [Part.headSize,dynamic,headSize_of_dynamic dynamic]
    · simp [Part.headSize,dynamic,size (by simpa using dynamic)]

theorem headLength_dvd {ps : List Part} (words : ∀ p ∈ ps, 32 ∣ p.body.length) : 32 ∣ headLength ps := by
  induction ps with
  | nil => simp [headLength]
  | cons p ps ih =>
    obtain ⟨here,later⟩ := List.forall_mem_cons.mp words
    refine Nat.dvd_add ?_ (ih later)
    by_cases dynamic : p.dynamic = true
    · simp [Part.headSize,dynamic]
    · simpa [Part.headSize,dynamic] using here
theorem tails_dvd {ps : List Part} (words : ∀ p ∈ ps, 32 ∣ p.body.length) : 32 ∣ (tails ps).length := by
  induction ps with
  | nil => simp [tails]
  | cons p ps ih =>
    obtain ⟨here,later⟩ := List.forall_mem_cons.mp words
    by_cases dynamic : p.dynamic = true
    · simpa [tails,dynamic] using Nat.dvd_add here (ih later)
    · simpa [tails,dynamic] using ih later
theorem layout_dvd {ps : List Part} (words : ∀ p ∈ ps, 32 ∣ p.body.length) : 32 ∣ (layout ps).length := by
  rw [layout_length]
  exact Nat.dvd_add (headLength_dvd words) (tails_dvd words)

theorem parts_words {ts : List Ty} {xs : List Value} (each : ∀ p ∈ ts.zip xs, 32 ∣ (enc p.1 p.2).length) :
    ∀ p ∈ parts ts xs, 32 ∣ p.body.length := by
  rw [parts_eq]
  intro p member
  obtain ⟨pair,inZip,rfl⟩ := List.mem_map.mp member
  exact each pair inZip

/-- Every encoding is a whole number of words. -/
theorem enc_dvd {t : Ty} {x : Value} (typed : Typed t x) : 32 ∣ (enc t x).length := by
  induction typed with
  | bool b => simp [enc]
  | uint range => simp [enc]
  | int low high => simp [enc]
  | bytesN exact positive small => simpa [enc,padRight_length] using dvd_padded _
  | address exact => simp [enc]
  | string content => simpa [enc,padRight_length] using dvd_padded _
  | bytes content => simpa [enc,padRight_length] using dvd_padded _
  | @list element xs each ih =>
    have words : ∀ p ∈ parts (List.replicate xs.length element) xs, 32 ∣ p.body.length :=
      parts_words (each_replicate (P := fun t x => 32 ∣ (enc t x).length) ih)
    simpa [enc] using layout_dvd words
  | @fixed element count xs full each ih =>
    have words : ∀ p ∈ parts (List.replicate count element) xs, 32 ∣ p.body.length :=
      parts_words (each_replicate (P := fun t x => 32 ∣ (enc t x).length) ih)
    simpa [enc] using layout_dvd words
  | tuple count each ih => simpa [enc] using layout_dvd (parts_words ih)

theorem layout_static_length {ps : List Part} (static : ∀ p ∈ ps, p.dynamic = false) :
    (layout ps).length = headLength ps := by
  rw [layout_length,tails_static static]
  rfl

/-- The encoding of a static type takes what the type takes in a head. -/
theorem enc_length_static {t : Ty} {x : Value} (typed : Typed t x) (static : t.dynamic = false) :
    (enc t x).length = t.headSize := by
  induction typed with
  | bool b => simp [enc,Ty.headSize]
  | uint range => simp [enc,Ty.headSize]
  | int low high => simp [enc,Ty.headSize]
  | bytesN exact positive small =>
    rw [enc,padRight_length,padded,Ty.headSize]
    · omega
    all_goals simp
  | address exact => simp [enc,Ty.headSize]
  | string content => simp [Ty.dynamic] at static
  | bytes content => simp [Ty.dynamic] at static
  | list each ih => simp [Ty.dynamic] at static
  | @fixed element count xs full each ih =>
    simp only [Ty.dynamic] at static
    have flat : ∀ p ∈ parts (List.replicate count element) xs, p.dynamic = false :=
      parts_dynamic (fun t member => by rw [List.eq_of_mem_replicate member]; exact static)
    have sizes : ∀ p ∈ (List.replicate count element).zip xs, p.1.dynamic = false →
        (enc p.1 p.2).length = p.1.headSize := 
      each_replicate (P := fun t x => t.dynamic = false → (enc t x).length = t.headSize) ih
    rw [enc,layout_static_length flat,headLength_parts (by simpa using full.symm) sizes,headSizes_replicate]
    simp [Ty.headSize,static]
  | @tuple ts xs count each ih =>
    simp only [Ty.dynamic] at static
    have flat : ∀ p ∈ parts ts xs, p.dynamic = false := parts_dynamic (anyDynamic_eq_false.mp static)
    rw [enc,layout_static_length flat,headLength_parts count ih]
    simp [Ty.headSize,static]

/-! ### Positions -/

/-- The heads of the parts are at `cursor`, their tails at `offset` from `base`, where
    the next tail starts. -/
def Located (whole : Bytes) (base cursor offset : Nat) (ps : List Part) : Prop :=
  Occurs whole cursor (heads offset ps) ∧ Occurs whole (base + offset) (tails ps)

theorem located_layout {whole : Bytes} {start : Nat} {ps : List Part} (found : Occurs whole start (layout ps)) :
    Located whole start start (headLength ps) ps := by
  simpa [layout,occurs_append,Located] using found

/-- A dynamic part: its offset is at the cursor and its encoding at that offset. -/
theorem located_dynamic {whole : Bytes} {base cursor offset : Nat} {p : Part} {ps : List Part}
    (dynamic : p.dynamic = true) (found : Located whole base cursor offset (p :: ps)) :
    Occurs whole cursor (word offset) ∧ Occurs whole (base + offset) p.body ∧
      Located whole base (cursor + 32) (offset + p.body.length) ps := by
  simp only [Located,heads,tails,dynamic,if_true,occurs_append,word_length] at found
  obtain ⟨⟨head,restHeads⟩,body,restTails⟩ := found
  exact ⟨head,body,restHeads,by rwa [← Nat.add_assoc]⟩
/-- A static part: its encoding is at the cursor. -/
theorem located_static {whole : Bytes} {base cursor offset : Nat} {p : Part} {ps : List Part}
    (static : p.dynamic = false) (found : Located whole base cursor offset (p :: ps)) :
    Occurs whole cursor p.body ∧ Located whole base (cursor + p.body.length) offset ps := by
  simp only [Located,heads,tails,static,Bool.false_eq_true,if_false,occurs_append] at found
  obtain ⟨⟨body,restHeads⟩,restTails⟩ := found
  exact ⟨body,restHeads,restTails⟩

end CppSdk.SolidityAbi

import CppSdk.ScaleReads

/-!
The decoder on what the encoder wrote. It reads a value back, and nothing behind it,
exactly when the value holds no least number of a signed type of four or eight bytes
(`roundTrips_iff`): the decoder negates the absolute value, which the type does not have.
-/
namespace CppSdk.ScaleRoundTrip
open CppSdk.ByteString CppSdk.Runtime CppSdk.ScaleStreams CppSdk.ScaleReads

/-! ### Collections -/

/-- What is written for a value is read back when it is defined. -/
def Writes {α : Type} (write : α → Call Bytes) (read : Stream → Read (α × Stream)) (defined : α → Bool) (a : α) : Prop :=
  ∃ bytes, write a = .ok bytes ∧ Reads (defined a) read bytes a

section
variable {α β : Type} {write : α → Call Bytes} {read : Stream → Read (α × Stream)} {defined : α → Bool}

private theorem each_writes {xs : List α} (each : ∀ x ∈ xs, Writes write read defined x) :
    Writes (encodeEach write) (decodeEach read xs.length) (fun xs => xs.all defined) xs := by
  induction xs with
  | nil => exact ⟨[],rfl,reads_pure []⟩
  | cons x xs ih =>
    obtain ⟨here,later⟩ := List.forall_mem_cons.mp each
    obtain ⟨bytes,written,first⟩ := here
    obtain ⟨more,others,rest⟩ := ih later
    refine ⟨bytes ++ more,by simp [encodeEach,written,others],?_⟩
    exact reads_then (fun x => andReturn (decodeEach read _) (fun xs => x :: xs)) first (reads_map rest (fun xs => x :: xs))

private theorem itemCount_eq {n : Nat} (small : n < 2 ^ 64) : itemCount n = n := Nat.mod_eq_of_lt small

/-- A collection: its size, then what reads as many elements. -/
theorem collection_writes (readAll : Nat → Stream → Read (β × Stream)) {xs : List α} {p : Bool} {b : β}
    (size : xs.length < 2 ^ 64)
    (elements : ∃ bytes, encodeEach write xs = .ok bytes ∧ Reads p (readAll xs.length) bytes b) :
    ∃ bytes, encodeCollection write xs = .ok bytes ∧ Reads p (andThen decodeCompactInteger readAll) bytes b := by
  have below : (2 : Nat) ^ 64 ≤ 2 ^ 536 := pow_le_pow_right₀ (by decide) (by decide)
  obtain ⟨count,counted,first⟩ := compactInteger_reads (size.trans_le below)
  obtain ⟨bytes,written,rest⟩ := elements
  refine ⟨count ++ bytes,by simp [encodeCollection,counted,written],?_⟩
  have whole := reads_then readAll first rest
  rwa [Bool.true_and] at whole

end

/-- A string, or a vector of single bytes. -/
theorem bytes_written {α : Type} {L : Library} {t : Ty} {content : Bytes} (resized : L.resize t content.length = .done)
    (size : content.length < 2 ^ 64) {write : α → Call Bytes} {xs : List α} (count : xs.length = content.length)
    (written : encodeEach write xs = .ok content) :
    ∃ bytes, encodeCollection write xs = .ok bytes ∧ Reads true (decodeBytes L t) bytes content := by
  have taken : Reads true (fun s => do
      resizeVector L t (itemCount xs.length)
      takeBytes (itemCount xs.length) s) content content := by
    intro front rest
    rw [itemCount_eq (count ▸ size),count]
    simp only [resizeVector,resized,read_ok]
    exact reads_takeBytes content front rest
  exact collection_writes (fun size s => do
    resizeVector L t (itemCount size)
    takeBytes (itemCount size) s) (count ▸ size) ⟨content,written,taken⟩

private theorem encodeEach_bytes (content : Bytes) : encodeEach (fun c => .ok [c]) content = .ok content := by
  induction content with
  | nil => rfl
  | cons c content ih => simp [encodeEach,ih]

/-! ### Values -/

mutual
/-- No number in the value is the least of its type, for the types whose negation the
    decoder makes. -/
def negatable : Ty → Data → Bool
  | .integral signed width, .int i => negatableInteger signed width.size i
  | .pair first second, .seq [x,y] => negatable first x && negatable second y
  | .tuple elements, .seq xs => negatableElements elements xs
  | .array element _, .seq xs => xs.all (fun x => negatable element x)
  | .vector element, .seq xs => xs.all (fun x => negatable element x)
  | .map key value, .map entries => entries.all (fun p => negatable key p.1 && negatable value p.2)
  | .optional value, .optional (some x) => negatable value x
  | .variant alternatives, .variant index x => negatableAlternative alternatives index x
  | _, _ => true
/-- The elements of a tuple. -/
def negatableElements : List Ty → List Data → Bool
  | t :: ts, x :: xs => negatable t x && negatableElements ts xs
  | _, _ => true
/-- The alternative of a variant. -/
def negatableAlternative : List Ty → Nat → Data → Bool
  | [], _, _ => true
  | t :: _, 0, x => negatable t x
  | _ :: ts, index + 1, x => negatableAlternative ts index x
end

section
variable {L : Library}

/-- The encoder and the decoder agree on the type. -/
def Agrees (L : Library) (t : Ty) : Prop := ∀ v, Typed L t v → Writes (encode t) (decode L t) (negatable t) v

private theorem typed_range {signed : Bool} {width : Width} {v : Data} (typed : Typed L (.integral signed width) v) :
    ∃ i, v = .int i ∧ InRange signed width i := by
  cases typed with
  | unsigned low high => exact ⟨_,rfl,low,high⟩
  | signed low high => exact ⟨_,rfl,low,high⟩

private theorem integral_agrees (signed : Bool) (width : Width) : Agrees L (.integral signed width) := by
  intro v typed
  obtain ⟨i,rfl,range⟩ := typed_range typed
  exact ⟨_,rfl,reads_map (reads_decodeIntegral range) Data.int⟩

private theorem bool_reads (b : Bool) : Reads true decodeBool [if b then 1 else 0] b := by
  cases b with
  | true => exact reads_check (reads_nextByte 1) rfl
  | false => exact reads_check (reads_nextByte 0) rfl

private theorem word_agrees : Agrees L .u256 ∧ Agrees L .s256 := by
  constructor
  · intro v typed
    cases typed with
    | @u256 i low high =>
      have read := reads_takeBytes (word i.toNat)
      have value : ((fromBigEndian (word i.toNat) : Nat) : Int) = i := by
        rw [fromBigEndian_word (by omega)]
        omega
      rw [word_length] at read
      have whole := reads_map read (fun view => Data.int (fromBigEndian view))
      rw [value] at whole
      exact ⟨_,rfl,whole⟩
  · intro v typed
    cases typed with
    | @s256 i low high =>
      have read := reads_takeBytes (word (s2u i).toNat)
      have value : u2s (BitVec.ofNat 256 (fromBigEndian (word (s2u i).toNat))) = i := by
        rw [fromBigEndian_word (s2u i).isLt,BitVec.ofNat_toNat,BitVec.setWidth_eq,u2s_s2u low high]
      rw [word_length] at read
      have whole := reads_map read (fun view => Data.int (u2s (BitVec.ofNat 256 (fromBigEndian view))))
      rw [value] at whole
      exact ⟨_,rfl,whole⟩

private theorem elements_agree {ts : List Ty} {xs : List Data} (typed : List.Forall₂ (Typed L) ts xs)
    (agrees : ∀ t ∈ ts, Agrees L t) :
    ∃ bytes, encodeElements ts xs = .ok bytes ∧ Reads (negatableElements ts xs) (decodeElements L ts) bytes xs := by
  induction typed with
  | nil => exact ⟨[],rfl,reads_pure []⟩
  | @cons t x ts xs here later ih =>
    obtain ⟨agree,others⟩ := List.forall_mem_cons.mp agrees
    obtain ⟨bytes,written,first⟩ := agree x here
    obtain ⟨more,rest,second⟩ := ih others
    refine ⟨bytes ++ more,by simp [encodeElements,written,rest],?_⟩
    exact reads_then (fun x => andReturn (decodeElements L ts) (fun xs => x :: xs)) first
      (reads_map second (fun xs => x :: xs))

private theorem alternative_same {ts : List Ty} {index : Nat} {t : Ty} (found : ts[index]? = some t) (x : Data) :
    encodeAlternative ts index x = encode t x ∧ decodeAlternative L ts index = decode L t ∧
      negatableAlternative ts index x = negatable t x := by
  induction ts generalizing index with
  | nil => cases found
  | cons u ts ih =>
    cases index with
    | zero =>
      cases found
      exact ⟨rfl,rfl,rfl⟩
    | succ index =>
      obtain ⟨written,read,defined⟩ := ih found
      exact ⟨written,read,defined⟩

/-- A value of a type that is made from a byte is written as that byte. -/
theorem fromByte_writes {t : Ty} : ∀ {ofByte : UInt8 → Data}, fromByte t = some ofByte → ∀ {x}, Typed L t x →
    ∃ b, encode t x = .ok [b] ∧ ofByte b = x ∧ negatable t x = true := by
  induction t using Ty.induct with
  | integral signed width =>
    intro ofByte made x typed
    obtain ⟨i,rfl,range⟩ := typed_range typed
    cases width with
    | one =>
      cases made
      obtain ⟨bytes,value⟩ := byteValue_encode range
      exact ⟨_,congrArg _ bytes,congrArg _ value,by simp [negatable,negatableInteger,Width.size]⟩
    | _ => cases made
  | bool =>
    intro ofByte made x typed
    cases made
    cases typed with
    | bool b => cases b <;> exact ⟨_,rfl,rfl,rfl⟩
  | fixedBytes size =>
    intro ofByte made x typed
    cases typed with
    | @fixedBytes _ content exact' =>
      by_cases one : size = 1
      · subst one
        cases made
        obtain ⟨b,rfl⟩ := List.length_eq_one_iff.mp exact'
        exact ⟨b,rfl,rfl,rfl⟩
      · simp [fromByte,one] at made
  | tuple elements ih =>
    intro ofByte made x typed
    cases typed with
    | @tuple _ xs each =>
      cases each with
      | nil => cases made
      | @cons t x ts xs here others =>
        cases others with
        | nil =>
          obtain ⟨element,inner,rfl⟩ := Option.map_eq_some_iff.mp (by simpa only [fromByte] using made)
          obtain ⟨b,written,value,defined⟩ := ih t List.mem_cons_self inner here
          exact ⟨b,by simp [encode,encodeElements,written],congrArg (fun e => Data.seq [e]) value,
            by simp [negatable,negatableElements,defined]⟩
        | cons next later => cases made
  | _ => intro ofByte made; cases made

private theorem fromByte_each {element : Ty} {ofByte : UInt8 → Data} (made : fromByte element = some ofByte) {xs : List Data}
    (each : ∀ x ∈ xs, Typed L element x) :
    ∃ content, encodeEach (fun x => encode element x) xs = .ok content ∧ content.map ofByte = xs ∧
      xs.all (fun x => negatable element x) = true := by
  induction xs with
  | nil => exact ⟨[],rfl,rfl,rfl⟩
  | cons x xs ih =>
    obtain ⟨here,later⟩ := List.forall_mem_cons.mp each
    obtain ⟨b,written,value,defined⟩ := fromByte_writes made here
    obtain ⟨content,others,values,all⟩ := ih later
    exact ⟨b :: content,by simp [encodeEach,written,others],by simp [value,values],by simp [defined,all]⟩

private theorem emplace_last {key : Ty} {entries : List (Data × Data)} {p : Data × Data}
    (greater : ∀ q ∈ entries, L.less key q.1 p.1 = true) : emplace L key entries p = entries ++ [p] := by
  induction entries with
  | nil => rfl
  | cons q entries ih =>
    obtain ⟨here,later⟩ := List.forall_mem_cons.mp greater
    simp [emplace,here,ih later]

/-- Ascending entries are emplaced in their order. -/
theorem emplace_ascending {key : Ty} {front entries : List (Data × Data)}
    (ascending : (front ++ entries).Pairwise (fun p q => L.less key p.1 q.1 = true)) :
    entries.foldl (emplace L key) front = front ++ entries := by
  induction entries generalizing front with
  | nil => simp
  | cons p entries ih =>
    have greater : ∀ q ∈ front, L.less key q.1 p.1 = true := fun q member =>
      (List.pairwise_append.mp ascending).2.2 q member p List.mem_cons_self
    rw [List.foldl_cons,emplace_last greater,ih (by simpa using ascending)]
    simp

private theorem vector_agrees {element : Ty} (agrees : Agrees L element) : Agrees L (.vector element) := by
  intro v typed
  cases typed with
  | @vector _ xs resized size each =>
    cases made : fromByte element with
    | some ofByte =>
      obtain ⟨content,written,values,all⟩ := fromByte_each made each
      have count : xs.length = content.length := by rw [← values,List.length_map]
      obtain ⟨bytes,whole,read⟩ := bytes_written (count ▸ resized) (count ▸ size) count written
      have mapped := reads_map read (fun content => Data.seq (content.map ofByte))
      rw [values] at mapped
      refine ⟨bytes,whole,fun front rest => ?_⟩
      simp only [decode,made,negatable,all]
      exact mapped front rest
    | none =>
      obtain ⟨bytes,whole,read⟩ := collection_writes (fun size s => do
        resizeVector L element (itemCount size)
        andReturn (decodeEach (decode L element) (itemCount size)) Data.seq s) size (by
          obtain ⟨bytes,written,elements⟩ := each_writes (fun x member => agrees x (each x member))
          refine ⟨bytes,written,?_⟩
          rw [itemCount_eq size]
          simp only [resizeVector,resized,read_ok]
          exact reads_map elements Data.seq)
      refine ⟨bytes,whole,fun front rest => ?_⟩
      simp only [decode,made]
      exact read front rest

private theorem map_agrees {key value : Ty} (keys : Agrees L key) (values : Agrees L value) : Agrees L (.map key value) := by
  intro v typed
  cases typed with
  | @map _ _ entries size ascending each others =>
    have pairs : ∀ p ∈ entries, Writes (fun p : Data × Data => do .ok ((← encode key p.1) ++ (← encode value p.2)))
        (andThen (decode L key) (fun x => andReturn (decode L value) (fun y => (x,y)))) (fun p => negatable key p.1 && negatable value p.2) p := by
      intro p member
      obtain ⟨bytes,written,first⟩ := keys p.1 (each p member)
      obtain ⟨more,rest,second⟩ := values p.2 (others p member)
      refine ⟨bytes ++ more,by simp [written,rest],?_⟩
      exact reads_then (fun x => andReturn (decode L value) (fun y => (x,y))) first (reads_map second (fun y => (p.1,y)))
    obtain ⟨bytes,written,elements⟩ := each_writes pairs
    have mapped := reads_map elements (fun entries => Data.map (entries.foldl (emplace L key) []))
    rw [emplace_ascending (by simpa using ascending),List.nil_append,← itemCount_eq size] at mapped
    exact collection_writes (fun size => andReturn
      (decodeEach (andThen (decode L key) (fun x => andReturn (decode L value) (fun y => (x,y)))) (itemCount size))
      (fun entries => Data.map (entries.foldl (emplace L key) []))) size ⟨bytes,written,mapped⟩

/-- An optional boolean takes one byte. -/
theorem optionalBool_reads {held : Option Data} (typed : Typed L (.optional .bool) (.optional held)) :
    Reads true decodeOptionalBool (encodeOptionalBool held) held := by
  cases typed with
  | none => exact reads_check (reads_nextByte 0) rfl
  | some typed =>
    cases typed with
    | bool b =>
      cases b with
      | true => exact reads_check (reads_nextByte 1) rfl
      | false => exact reads_check (reads_nextByte 2) rfl

private theorem optional_agrees {value : Ty} (agrees : Agrees L value) : Agrees L (.optional value) := by
  intro v typed
  by_cases bool : value = .bool
  · subst bool
    cases typed with
    | none value => exact ⟨[0],rfl,reads_map (optionalBool_reads (Typed.none (L := L) .bool)) Data.optional⟩
    | @some _ x held =>
      have read := reads_map (optionalBool_reads (.some held)) Data.optional
      cases held with
      | bool b => exact ⟨_,rfl,read⟩
  · obtain ⟨writtenNone,writtenSome,reads⟩ := optional_eq (L := L) bool
    cases typed with
    | none value =>
      refine ⟨[0],writtenNone,?_⟩
      rw [reads]
      exact reads_then (fun hasValue s => if hasValue then andReturn (decode L value) (fun x => Data.optional (some x)) s
        else .ok (Data.optional none,s)) (bool_reads false) (reads_pure _)
    | @some _ x held =>
      obtain ⟨bytes,written,read⟩ := agrees x held
      refine ⟨1 :: bytes,by simp [writtenSome,written],?_⟩
      rw [reads]
      exact reads_then (fun hasValue s => if hasValue then andReturn (decode L value) (fun x => Data.optional (some x)) s
        else .ok (Data.optional none,s)) (bool_reads true) (reads_map read (fun x => Data.optional (some x)))

private theorem variant_agrees {alternatives : List Ty} (agrees : ∀ t ∈ alternatives, Agrees L t) :
    Agrees L (.variant alternatives) := by
  intro v typed
  cases typed with
  | @variant _ index t x few found held =>
    obtain ⟨bytes,written,read⟩ := agrees t (List.mem_of_getElem? found) x held
    obtain ⟨sameEncode,sameDecode,sameDefined⟩ := alternative_same (L := L) found x
    have byte : (UInt8.ofNat index).toNat = index := by
      rw [UInt8.toNat_ofNat']
      omega
    have inside : ¬ alternatives.length ≤ index := by
      have := (List.getElem?_eq_some_iff.mp found).1
      omega
    refine ⟨UInt8.ofNat index :: bytes,by simp [encode,sameEncode,written],?_⟩
    have rest : Reads (negatable t x) (fun s => if alternatives.length ≤ (UInt8.ofNat index).toNat then
        scaleThrows "exception for WRONG_TYPE_INDEX"
      else andReturn (decodeAlternative L alternatives (UInt8.ofNat index).toNat)
        (Data.variant (UInt8.ofNat index).toNat) s) bytes (Data.variant index x) := by
      simp only [byte,inside,if_false,sameDecode]
      exact reads_map read (Data.variant index)
    rw [negatable,sameDefined]
    exact reads_then (fun index s => if alternatives.length ≤ index.toNat then
        scaleThrows "exception for WRONG_TYPE_INDEX"
      else andReturn (decodeAlternative L alternatives index.toNat) (Data.variant index.toNat) s) (reads_nextByte (UInt8.ofNat index)) rest

/-- The encoder and the decoder agree on every type. -/
theorem agrees (t : Ty) : Agrees L t := by
  induction t using Ty.induct with
  | integral signed width => exact integral_agrees signed width
  | bool =>
    intro v typed
    cases typed with
    | bool b => exact ⟨_,rfl,reads_map (bool_reads b) Data.bool⟩
  | string =>
    intro v typed
    cases typed with
    | @string content resized size =>
      obtain ⟨bytes,written,read⟩ := bytes_written resized size rfl (encodeEach_bytes content)
      exact ⟨bytes,written,reads_map read Data.bytes⟩
  | u256 => exact word_agrees.1
  | s256 => exact word_agrees.2
  | fixedBytes size =>
    intro v typed
    cases typed with
    | @fixedBytes _ content full =>
      have bytes : ∀ c ∈ content, Writes (fun c => .ok [c]) nextByte (fun _ => true) c :=
        fun c _ => ⟨[c],rfl,reads_nextByte c⟩
      obtain ⟨written,encoded,read⟩ := each_writes bytes
      rw [encodeEach_bytes] at encoded
      cases encoded
      have all : content.all (fun _ => true) = true := by simp
      simp only [all] at read
      rw [full] at read
      exact ⟨_,rfl,reads_map read Data.bytes⟩
  | compactInteger =>
    intro v typed
    cases typed with
    | @compactInteger i low high =>
      obtain ⟨n,rfl⟩ := Int.eq_ofNat_of_zero_le low
      obtain ⟨bytes,written,read⟩ := compactInteger_reads (n := n) (by exact_mod_cast high)
      exact ⟨bytes,written,reads_map read (fun value => Data.int value)⟩
  | pair first second ihFirst ihSecond =>
    intro v typed
    cases typed with
    | @pair _ _ x y left right =>
      obtain ⟨bytes,written,one⟩ := ihFirst x left
      obtain ⟨more,rest,two⟩ := ihSecond y right
      refine ⟨bytes ++ more,by simp [encode,written,rest],?_⟩
      exact reads_then (fun x => andReturn (decode L second) (fun y => Data.seq [x,y])) one
        (reads_map two (fun y => Data.seq [x,y]))
  | tuple elements ih =>
    intro v typed
    cases typed with
    | tuple each =>
      obtain ⟨bytes,written,read⟩ := elements_agree each ih
      exact ⟨bytes,written,reads_map read Data.seq⟩
  | array element size ih =>
    intro v typed
    cases typed with
    | @array _ _ xs full each =>
      obtain ⟨bytes,written,read⟩ := each_writes (fun x member => ih x (each x member))
      rw [full] at read
      exact ⟨bytes,written,reads_map read Data.seq⟩
  | vector element ih => exact vector_agrees ih
  | map key value ihKey ihValue => exact map_agrees ihKey ihValue
  | optional value ih => exact optional_agrees ih
  | variant alternatives ih => exact variant_agrees ih

/-! ### Round trips -/

/-- Wherever the bytes that are written for the value lie in a span, the decoder returns the
    value and stops behind them: values that were written one after the other are read in
    their order. -/
def RoundTrips (L : Library) (t : Ty) (v : Data) : Prop :=
  ∃ bytes, encode t v = .ok bytes ∧ ∀ front rest,
    decode L t ⟨front ++ (bytes ++ rest),front.length⟩ = .ok (v,⟨front ++ (bytes ++ rest),front.length + bytes.length⟩)

/-- A value is read back exactly when the decoder negates none of the least numbers. -/
theorem roundTrips_iff {t : Ty} {v : Data} (typed : Typed L t v) : RoundTrips L t v ↔ negatable t v = true := by
  obtain ⟨bytes,written,read⟩ := agrees t v typed
  have place : ∀ front rest : Bytes, between (front ++ bytes) rest =
      ⟨front ++ (bytes ++ rest),front.length + bytes.length⟩ := fun front rest => by simp [between]
  constructor
  · rintro ⟨others,same,back⟩
    rw [written] at same
    cases same
    by_contra least
    have failed := read [] []
    rw [if_neg least] at failed
    have returned := back [] []
    rw [show (⟨[] ++ (bytes ++ []),([] : Bytes).length⟩ : Stream) = between [] (bytes ++ []) from rfl,failed] at returned
    cases returned
  · intro defined
    refine ⟨bytes,written,fun front rest => ?_⟩
    have back := read front rest
    rw [if_pos defined,place] at back
    exact back

end

/-- A standard library that allocates everything and orders numbers. -/
def numbersLibrary : Library where
  resize _ _ := .done
  less
    | _, .int i, .int j => decide (i < j)
    | _, _, _ => false

/-- A map from a number to a list of optional booleans. -/
theorem roundTrips_iff_map :
    let t : Ty := .map (.integral true .four) (.vector (.optional .bool))
    let v : Data := .map [(.int (-5),.seq [.optional none]),(.int 7,.seq [])]
    RoundTrips numbersLibrary t v ↔ negatable t v = true := by
  refine roundTrips_iff (.map (by decide) (by decide) ?_ ?_)
  · intro p member
    rcases List.mem_cons.mp member with rfl | later
    · exact .signed (by decide) (by decide)
    · rw [List.mem_singleton.mp later]
      exact .signed (by decide) (by decide)
  · intro p member
    rcases List.mem_cons.mp member with rfl | later
    · refine .vector rfl (by decide) (fun x inside => ?_)
      rw [List.mem_singleton.mp inside]
      exact .none .bool
    · rw [List.mem_singleton.mp later]
      exact .vector rfl (by decide) (by simp)

/-- The least `int32_t` is written in four bytes that the decoder does not read back. -/
theorem decode_least :
    encode (.integral true .four) (.int (-2 ^ 31)) = .ok [0,0,0,128] ∧
      decode numbersLibrary (.integral true .four) ⟨[0,0,0,128],0⟩ = .error .undefined ∧
      ¬ RoundTrips numbersLibrary (.integral true .four) (.int (-2 ^ 31)) := by
  have same : encode (.integral true .four) (.int (-2 ^ 31)) = .ok [0,0,0,128] := rfl
  have failed : decode numbersLibrary (.integral true .four) ⟨[0,0,0,128],0⟩ = .error .undefined := by
    obtain ⟨bytes,written,read⟩ := agrees (L := numbersLibrary) (.integral true .four) (.int (-2 ^ 31))
      (.signed (by decide) (by decide))
    cases same.symm.trans written
    exact read [] []
  refine ⟨same,failed,?_⟩
  rintro ⟨bytes,written,back⟩
  cases same.symm.trans written
  cases failed.symm.trans (back [] [])

end CppSdk.ScaleRoundTrip

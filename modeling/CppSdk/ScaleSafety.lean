import CppSdk.ScaleReads

/-!
The decoder on arbitrary bytes. `Orderly` says what the decoder leaves to its input: the
bytes of a `u256`, of a string and of a vector of single bytes have to be there, no size may
be one that `resize` rejects with a `std::length_error`, and no number may be the least of a
signed type. The decoder is safe exactly on the bytes that are orderly (`safe_iff`).
-/
namespace CppSdk.ScaleSafety
open CppSdk.ByteString CppSdk.Runtime CppSdk.ScaleStreams CppSdk.ScaleReads

/-! ### Orderly bytes -/

/-- The bytes go on after one byte, if there is one. -/
def AfterByte (rest : Bytes) (Q : UInt8 → Bytes → Prop) : Prop := ∀ b more, rest = b :: more → Q b more

/-- The number that a compact integer spells after its first byte, with what is behind it. -/
def flaggedAt (first : UInt8) (rest : Bytes) : Option (Nat × Bytes) :=
  if first.toNat % 4 = 0 then some (first.toNat / 4,rest)
  else if first.toNat % 4 = 1 then
    match rest with
    | [] => none
    | second :: rest => some ((first.toNat / 4 * 4 + second.toNat * 256) / 4,rest)
  else if first.toNat % 4 = 2 then
    if 3 ≤ rest.length then some ((first.toNat + 256 * fromLittleEndian (rest.take 3)) / 4,rest.drop 3)
    else none
  else if first.toNat / 4 + 4 ≤ rest.length then
    some (fromLittleEndian (rest.take (first.toNat / 4 + 4)),rest.drop (first.toNat / 4 + 4))
  else none
/-- The number that a compact integer at the front of the bytes spells. -/
def compactAt : Bytes → Option (Nat × Bytes)
  | [] => none
  | first :: rest => flaggedAt first rest
/-- The bytes go on after a compact integer, if there is one. -/
def AfterCompact (rest : Bytes) (Q : Nat → Bytes → Prop) : Prop := ∀ n more, compactAt rest = some (n,more) → Q n more

/-- The bytes go on after so many, which have to be there. -/
def Present (count : Nat) (rest : Bytes) (Q : Bytes → Prop) : Prop := count ≤ rest.length ∧ Q (rest.drop count)

/-- One part of the bytes after the other. -/
def Repeated (part : Bytes → (Bytes → Prop) → Prop) : Nat → Bytes → (Bytes → Prop) → Prop
  | 0, rest, Q => Q rest
  | count + 1, rest, Q => part rest (fun rest => Repeated part count rest Q)

section
variable (L : Library)

/-- A vector takes the size, and the bytes go on; or the memory does not suffice. -/
def Allocated (t : Ty) (count : Nat) (next : Prop) : Prop :=
  match L.resize t count with
  | .done => next
  | .badAlloc => True
  | .lengthError => False

/-- A size, and as many bytes. -/
def BytesOrderly (t : Ty) (rest : Bytes) (Q : Bytes → Prop) : Prop :=
  AfterCompact rest (fun size more => Allocated L t (itemCount size) (Present (itemCount size) more Q))

mutual
/-- The bytes do not lead the decoder of the type astray, and go on after what it takes. -/
def Orderly : Ty → Bytes → (Bytes → Prop) → Prop
  | .integral signed width, rest, Q => width.size ≤ rest.length →
    ¬ (signed = true ∧ 4 ≤ width.size ∧ fromLittleEndian (rest.take width.size) = width.signBit) ∧
      Q (rest.drop width.size)
  | .bool, rest, Q => AfterByte rest (fun b more => b = 0 ∨ b = 1 → Q more)
  | .string, rest, Q => BytesOrderly L (.integral false .one) rest Q
  | .u256, rest, Q => Present 32 rest Q
  | .s256, rest, Q => Present 32 rest Q
  | .fixedBytes size, rest, Q => size ≤ rest.length → Q (rest.drop size)
  | .compactInteger, rest, Q => AfterCompact rest (fun _ more => Q more)
  | .pair first second, rest, Q => Orderly first rest (fun more => Orderly second more Q)
  | .tuple elements, rest, Q => ElementsOrderly elements rest Q
  | .array element size, rest, Q => Repeated (fun rest Q => Orderly element rest Q) size rest Q
  | .vector element, rest, Q =>
    match fromByte element with
    | some _ => BytesOrderly L element rest Q
    | none => AfterCompact rest (fun size more => Allocated L element (itemCount size)
        (Repeated (fun rest Q => Orderly element rest Q) (itemCount size) more Q))
  | .map key value, rest, Q => AfterCompact rest (fun size more =>
      Repeated (fun rest Q => Orderly key rest (fun rest => Orderly value rest Q)) (itemCount size) more Q)
  | .optional .bool, rest, Q => AfterByte rest (fun b more => b = 0 ∨ b = 1 ∨ b = 2 → Q more)
  | .optional value, rest, Q => AfterByte rest (fun b more => (b = 0 → Q more) ∧ (b = 1 → Orderly value more Q))
  | .variant alternatives, rest, Q => AfterByte rest (fun index more =>
      AlternativeOrderly alternatives index.toNat more Q)
/-- The elements of a tuple. -/
def ElementsOrderly : List Ty → Bytes → (Bytes → Prop) → Prop
  | [], rest, Q => Q rest
  | t :: ts, rest, Q => Orderly t rest (fun more => ElementsOrderly ts more Q)
/-- The alternative of a variant, if there is one. -/
def AlternativeOrderly : List Ty → Nat → Bytes → (Bytes → Prop) → Prop
  | [], _, _, _ => True
  | t :: _, 0, rest, Q => Orderly t rest Q
  | _ :: ts, index + 1, rest, Q => AlternativeOrderly ts index rest Q
end

end

/-! ### Sound reads -/

/-- The read returns and the condition holds, or it throws a `ScaleDecodeException`. -/
def Sound {α : Type} (result : Read (α × Stream)) (K : α → Stream → Prop) : Prop :=
  match result with
  | .ok (a,s) => K a s
  | .error (.scaleDecodeException _) => True
  | .error _ => False

private theorem sound_ok {α : Type} (a : α) (s : Stream) (K : α → Stream → Prop) : Sound (.ok (a,s)) K ↔ K a s := Iff.rfl

private theorem sound_then {α β : Type} (read : Stream → Read (α × Stream)) (next : α → Stream → Read (β × Stream)) (s : Stream)
    {K : β → Stream → Prop} : Sound (andThen read next s) K ↔ Sound (read s) (fun a s => Sound (next a s) K) := by
  unfold andThen
  rcases read s with failure | ⟨a,s⟩
  · cases failure <;> exact Iff.rfl
  · exact Iff.rfl

/-- What a read has to be given: it is sound on the bytes behind the iterator when the
    predicate transformer says so, for whatever is to hold after it. -/
def Follows {α : Type} (read : Stream → Read (α × Stream)) (P : Bytes → (α → Bytes → Prop) → Prop) : Prop :=
  ∀ (front rest : Bytes) (K : α → Stream → Prop) (Q : α → Bytes → Prop),
    (∀ a front' rest', front' ++ rest' = front ++ rest → (K a (between front' rest') ↔ Q a rest')) →
      (Sound (read (between front rest)) K ↔ P rest Q)
/-- The same, for reads after which the value does not matter. -/
def Takes {α : Type} (read : Stream → Read (α × Stream)) (P : Bytes → (Bytes → Prop) → Prop) : Prop :=
  ∀ (front rest : Bytes) (K : α → Stream → Prop) (Q : Bytes → Prop),
    (∀ a front' rest', front' ++ rest' = front ++ rest → (K a (between front' rest') ↔ Q rest')) →
      (Sound (read (between front rest)) K ↔ P rest Q)

section
variable {α β : Type} {read : Stream → Read (α × Stream)}

private theorem follows_bind {P : Bytes → (α → Bytes → Prop) → Prop} (next : α → Stream → Read (β × Stream))
    {R : α → Bytes → (β → Bytes → Prop) → Prop} (first : Follows read P) (second : ∀ a, Follows (next a) (R a)) :
    Follows (andThen read next) (fun rest Q => P rest (fun a more => R a more Q)) := by
  intro front rest K Q agree
  rw [sound_then]
  exact first front rest _ _ (fun a front' rest' same => second a front' rest' K Q (fun b front'' rest'' same' =>
    agree b front'' rest'' (same'.trans same)))

private theorem follows_map {P : Bytes → (α → Bytes → Prop) → Prop} (first : Follows read P) (f : α → β) :
    Follows (andReturn read f) (fun rest Q => P rest (fun a more => Q (f a) more)) :=
  follows_bind (fun a s => .ok (f a,s)) first (fun a front rest _ _ agree => agree (f a) front rest rfl)

private theorem follows_then {P : Bytes → (α → Bytes → Prop) → Prop} (next : α → Stream → Read (β × Stream))
    {R : α → Bytes → (Bytes → Prop) → Prop} (first : Follows read P) (second : ∀ a, Takes (next a) (R a)) :
    Takes (andThen read next) (fun rest Q => P rest (fun a more => R a more Q)) := by
  intro front rest K Q agree
  rw [sound_then]
  exact first front rest _ _ (fun a front' rest' same => second a front' rest' K Q (fun b front'' rest'' same' =>
    agree b front'' rest'' (same'.trans same)))

theorem takes_then {P R : Bytes → (Bytes → Prop) → Prop} (next : α → Stream → Read (β × Stream)) (first : Takes read P)
    (second : ∀ a, Takes (next a) R) :
    Takes (andThen read next) (fun rest Q => P rest (fun more => R more Q)) := by
  intro front rest K Q agree
  rw [sound_then]
  exact first front rest _ _ (fun a front' rest' same => second a front' rest' K Q (fun b front'' rest'' same' =>
    agree b front'' rest'' (same'.trans same)))

theorem takes_pure (b : β) : Takes (fun s => .ok (b,s)) (fun rest Q => Q rest) :=
  fun front rest _ _ agree => agree b front rest rfl

/-- A read whose result is changed. -/
theorem takes_map {P : Bytes → (Bytes → Prop) → Prop} (first : Takes read P) (f : α → β) :
    Takes (andReturn read f) P :=
  takes_then (fun a s => .ok (f a,s)) first (fun a => takes_pure (f a))

end

/-! ### Bytes and numbers -/

private theorem hasMore_eq (front rest : Bytes) (n : Nat) : (between front rest).hasMore n = decide (n ≤ rest.length) := by
  simp [between,Stream.hasMore]

/-- A read of bytes that are there goes on behind them. -/
theorem sound_reads {α : Type} {read : Stream → Read (α × Stream)} {count : Nat} {front rest : Bytes} {a : α}
    (reads : Reads true read (rest.take count) a) {K : α → Stream → Prop} {Q : Bytes → Prop}
    (agree : ∀ front' rest', front' ++ rest' = front ++ rest → (K a (between front' rest') ↔ Q rest')) :
    Sound (read (between front rest)) K ↔ Q (rest.drop count) := by
  have whole : rest.take count ++ rest.drop count = rest := List.take_append_drop count rest
  have read' := reads front (rest.drop count)
  rw [whole,if_pos rfl] at read'
  rw [read']
  exact agree _ _ (by rw [List.append_assoc,whole])

private theorem follows_nextByte : Follows nextByte AfterByte := by
  intro front rest K Q agree
  cases rest with
  | nil =>
    have none : (between front []).hasMore 1 = false := by rw [hasMore_eq]; rfl
    rw [nextByte,none]
    exact iff_of_true trivial (fun b more same => by cases same)
  | cons b more =>
    have reads : Reads true nextByte ((b :: more).take 1) b := reads_nextByte b
    rw [sound_reads reads (agree b)]
    constructor
    · rintro next c others same
      cases same
      exact next
    · exact fun next => next b more rfl

private theorem takes_nextByte : Takes nextByte (fun rest Q => AfterByte rest (fun _ more => Q more)) :=
  fun front rest K Q agree => follows_nextByte front rest K (fun _ => Q) agree

private theorem follows_takeBytes (count : Nat) : Takes (takeBytes count) (Present count) := by
  intro front rest K Q agree
  by_cases present : count ≤ rest.length
  · have size : (rest.take count).length = count := by rw [List.length_take]; omega
    have reads := reads_takeBytes (rest.take count)
    rw [size] at reads
    rw [sound_reads reads (agree _)]
    exact (and_iff_right present).symm
  · have outside : ¬ (between front rest).currentIndex + count ≤ (between front rest).span.length := by
      simp [between]
      omega
    rw [takeBytes,if_neg outside]
    exact iff_of_false id (fun both => present both.1)

/-- What `hasMore` guards. -/
theorem takes_guarded {α : Type} (read : Stream → Read (α × Stream)) {count : Nat} {comment : String} {front rest : Bytes}
    {K : α → Stream → Prop} {Q : Prop} (guarded : count ≤ rest.length → (Sound (read (between front rest)) K ↔ Q)) :
    Sound (if !(between front rest).hasMore count then scaleThrows comment else read (between front rest)) K ↔
      (count ≤ rest.length → Q) := by
  rw [hasMore_eq]
  by_cases present : count ≤ rest.length
  · simp only [present,decide_true,Bool.not_true,Bool.false_eq_true,if_false,true_imp_iff]
    exact guarded present
  · simp only [present,decide_false,Bool.not_false,if_true,false_imp_iff]
    exact iff_of_true trivial trivial

theorem takes_digits {count : Nat} {rest : Bytes} (present : count ≤ rest.length) (multiplier v : Nat) :
    Reads true (addBytes count multiplier v) (rest.take count) (v + multiplier * fromLittleEndian (rest.take count)) := by
  have reads := reads_addBytes (rest.take count) multiplier v
  rwa [List.length_take,Nat.min_eq_left present] at reads

private theorem all_some {m : Nat} {rest : Bytes} {Q : Nat → Bytes → Prop} :
    (∀ n more, some (m,rest) = some (n,more) → Q n more) ↔ Q m rest := by
  constructor
  · exact fun all => all m rest rfl
  · rintro here n more same
    cases same
    exact here

/-- A number that is there when there are so many bytes. -/
theorem all_guarded {p : Prop} [Decidable p] {m : Nat} {rest : Bytes} {Q : Nat → Bytes → Prop} :
    (∀ n more, (if p then some (m,rest) else none) = some (n,more) → Q n more) ↔ (p → Q m rest) := by
  by_cases holds : p
  · rw [if_pos holds,all_some]
    exact ⟨fun here _ => here,fun here => here holds⟩
  · rw [if_neg holds]
    exact iff_of_true (fun n more same => by cases same) (fun here => absurd here holds)

private theorem follows_flagged (first : UInt8) :
    Follows (decodeFlagged first) (fun rest Q => ∀ n more, flaggedAt first rest = some (n,more) → Q n more) := by
  intro front rest K Q agree
  unfold decodeFlagged flaggedAt
  dsimp only
  split
  · rw [all_some]
    exact agree _ front rest rfl
  · split
    · have value := follows_map follows_nextByte (fun second => (first.toNat / 4 * 4 + second.toNat * 256) / 4)
      refine (value front rest K Q agree).trans ?_
      cases rest with
      | nil => exact iff_of_true (fun b more same => by cases same) (fun n more same => by cases same)
      | cons second more =>
        rw [all_some]
        exact ⟨fun all => all second more rfl,fun here b others same => by cases same; exact here⟩
    · split
      · rw [all_guarded]
        refine takes_guarded (andReturn (addBytes 3 256 first.toNat) (fun number => number / 4)) (fun present => ?_)
        exact sound_reads (reads_map (takes_digits present 256 first.toNat) (fun v => v / 4)) (agree _)
      · rw [all_guarded]
        refine takes_guarded (addBytes (first.toNat / 4 + 4) 1 0) (fun present => ?_)
        have digits := takes_digits present 1 0
        rw [Nat.zero_add,Nat.one_mul] at digits
        exact sound_reads digits (agree _)

private theorem follows_compactInteger : Follows decodeCompactInteger AfterCompact := by
  intro front rest K Q agree
  refine (follows_bind decodeFlagged follows_nextByte follows_flagged front rest K Q agree).trans ?_
  cases rest with
  | nil => exact iff_of_true (fun b more same => by cases same) (fun n more same => by cases same)
  | cons first more => exact ⟨fun all => all first more rfl,fun all b others same => by cases same; exact all⟩

/-- The decoder's number is defined, or it is the least of its type. -/
theorem signedValue_cases {width : Width} (signed : Bool) {v : Nat} (bound : v < 2 ^ (8 * width.size)) :
    (∃ i, signedValue signed width.size v = .ok i ∧ ¬ (signed = true ∧ 4 ≤ width.size ∧ v = width.signBit)) ∨
      (signedValue signed width.size v = .error .undefined ∧ signed = true ∧ 4 ≤ width.size ∧ v = width.signBit) := by
  have even : 2 ^ (8 * width.size) = 2 * width.signBit := by cases width <;> rfl
  have whole : (2 : Int) ^ (8 * width.size) = 2 * width.signBit := by exact_mod_cast even
  have half : (2 : Int) ^ (8 * width.size - 1) = width.signBit := by norm_num [Width.signBit]
  -- the number of the type with these bytes
  obtain ⟨i,range,digits,least⟩ : ∃ i : Int, InRange signed width i ∧ (i % 2 ^ (8 * width.size)).toNat = v ∧
      (signed = true → (i = -width.signBit ↔ v = width.signBit)) := by
    cases signed with
    | false =>
      refine ⟨v,⟨by omega,by omega⟩,?_,by simp⟩
      rw [whole,Int.emod_eq_of_lt (by omega) (by omega)]
      omega
    | true =>
      by_cases negative : width.signBit ≤ v
      · refine ⟨v - 2 * width.signBit,⟨by omega,by omega⟩,?_,fun _ => by omega⟩
        rw [whole,Int.sub_emod_right,Int.emod_eq_of_lt (by omega) (by omega)]
        omega
      · refine ⟨v,⟨by omega,by omega⟩,?_,fun _ => by omega⟩
        rw [whole,Int.emod_eq_of_lt (by omega) (by omega)]
        omega
  have value := signedValue_eq range
  rw [digits] at value
  by_cases negated : signed = true ∧ 4 ≤ width.size ∧ v = width.signBit
  · right
    have missing : negatableInteger signed width.size i = false := by
      simp [negatableInteger,half,negated.1,negated.2.1,(least negated.1).mpr negated.2.2]
    rw [missing] at value
    exact ⟨value,negated⟩
  · left
    have defined : negatableInteger signed width.size i = true := by
      cases signed with
      | false => rfl
      | true =>
        have := least rfl
        simp only [negatableInteger,half,Bool.true_and,Bool.not_eq_true',Bool.and_eq_false_iff,decide_eq_false_iff_not,
          beq_eq_false_iff_ne]
        tauto
    rw [defined] at value
    exact ⟨i,value,negated⟩

/-! ### Parts -/

private theorem takes_integral (signed : Bool) (width : Width) : Takes (decodeIntegral signed width) (fun rest Q =>
    width.size ≤ rest.length →
      ¬ (signed = true ∧ 4 ≤ width.size ∧ fromLittleEndian (rest.take width.size) = width.signBit) ∧
        Q (rest.drop width.size)) := by
  intro front rest K Q agree
  unfold decodeIntegral
  by_cases byte : width = .one
  · subst byte
    rw [if_pos rfl]
    refine (follows_map follows_nextByte (byteValue signed) front rest K (fun _ => Q) agree).trans ?_
    cases rest with
    | nil => exact iff_of_true (fun b more same => by cases same) (fun present => by cases present)
    | cons b more =>
      constructor
      · exact fun all _ => ⟨fun least => by cases least.2.1; contradiction,all b more rfl⟩
      · rintro all c others same
        cases same
        exact (all (Nat.succ_le_succ (Nat.zero_le _))).2
  · rw [if_neg byte]
    unfold decodeInteger
    refine takes_guarded (andThen (addBytes width.size 1 0) (fun v s => do .ok (← signedValue signed width.size v,s)))
      (fun present => ?_)
    have digits := takes_digits present 1 0
    rw [Nat.zero_add,Nat.one_mul] at digits
    have size : (rest.take width.size).length = width.size := by rw [List.length_take]; omega
    have bound : fromLittleEndian (rest.take width.size) < 2 ^ (8 * width.size) := by
      have digitsBound := fromLittleEndian_lt (rest.take width.size)
      rwa [size,show (256 : Nat) = 2 ^ 8 from rfl,← Nat.pow_mul] at digitsBound
    refine (sound_then _ _ _).trans ?_
    rcases signedValue_cases signed bound with ⟨i,value,other⟩ | ⟨missing,least⟩
    · rw [and_iff_right other]
      refine sound_reads digits (fun front' rest' same => ?_)
      rw [value]
      exact agree i front' rest' same
    · refine (sound_reads (Q := fun _ => False) digits (fun front' rest' same => ?_)).trans ?_
      · rw [missing]
        exact Iff.rfl
      · exact iff_of_false id (fun both => both.1 least)

private theorem takes_each {α : Type} {read : Stream → Read (α × Stream)} {P : Bytes → (Bytes → Prop) → Prop} (takes : Takes read P)
    (count : Nat) : Takes (decodeEach read count) (Repeated P count) := by
  induction count with
  | zero => exact takes_pure []
  | succ count ih =>
    have whole := takes_then (fun x => andReturn (decodeEach read count) (fun xs => x :: xs)) takes
      (fun x => takes_map ih (fun xs => x :: xs))
    exact whole

private theorem repeated_bytes (size : Nat) (rest : Bytes) (Q : Bytes → Prop) :
    Repeated (fun rest Q => AfterByte rest (fun _ more => Q more)) size rest Q ↔ (size ≤ rest.length → Q (rest.drop size)) := by
  induction size generalizing rest with
  | zero => simp [Repeated]
  | succ size ih =>
    cases rest with
    | nil => exact iff_of_true (fun b more same => by cases same) (fun present => by cases present)
    | cons b more =>
      rw [Repeated,List.length_cons,List.drop_succ_cons,Nat.succ_le_succ_iff,← ih more]
      exact ⟨fun all => all b more rfl,fun here c others same => by cases same; exact here⟩

section
variable {L : Library}

private theorem resizeVector_then {α : Type} {t : Ty} {count : Nat} {next : Read (α × Stream)} {K : α → Stream → Prop} {Q : Prop}
    (later : Sound next K ↔ Q) :
    Sound (do
      resizeVector L t count
      next) K ↔ Allocated L t count Q := by
  unfold resizeVector Allocated
  cases L.resize t count with
  | done => exact later
  | badAlloc => exact Iff.rfl
  | lengthError => exact Iff.rfl

private theorem takes_decodeBytes (t : Ty) : Takes (decodeBytes L t) (BytesOrderly L t) :=
  follows_then (fun size s => do
    resizeVector L t (itemCount size)
    takeBytes (itemCount size) s) follows_compactInteger (fun size front rest K Q agree =>
      resizeVector_then (follows_takeBytes (itemCount size) front rest K Q agree))

/-- Whether the bytes are orderly decides whether the decoder is sound on them. -/
def Decides (L : Library) (t : Ty) : Prop := Takes (decode L t) (Orderly L t)

private theorem follows_bool : Follows decodeBool (fun rest Q =>
    AfterByte rest (fun b more => (b = 0 → Q false more) ∧ (b = 1 → Q true more))) := by
  refine follows_bind (fun b s => do .ok (← boolOf b,s)) follows_nextByte (fun b front rest K Q agree => ?_)
  unfold boolOf
  by_cases zero : b = 0
  · subst zero
    simpa [sound_ok] using agree false front rest rfl
  · by_cases one : b = 1
    · subst one
      simpa [sound_ok] using agree true front rest rfl
    · rw [if_neg zero,if_neg one]
      exact iff_of_true trivial ⟨fun same => absurd same zero,fun same => absurd same one⟩

private theorem takes_optionalBool : Takes decodeOptionalBool (fun rest Q =>
    AfterByte rest (fun b more => b = 0 ∨ b = 1 ∨ b = 2 → Q more)) := by
  refine follows_then (fun b s => do .ok (← optionalBoolOf b,s)) follows_nextByte (fun b front rest K Q agree => ?_)
  unfold optionalBoolOf
  by_cases zero : b = 0
  · subst zero
    simpa [sound_ok] using agree none front rest rfl
  · by_cases two : b = 2
    · subst two
      simpa [sound_ok] using agree (some (.bool false)) front rest rfl
    · by_cases one : b = 1
      · subst one
        simpa [sound_ok] using agree (some (.bool true)) front rest rfl
      · rw [if_neg zero,if_neg two,if_neg one]
        exact iff_of_true trivial (fun any => by tauto)

private theorem bool_decides : Decides L .bool := by
  intro front rest K Q agree
  refine (follows_map follows_bool Data.bool front rest K (fun _ => Q) agree).trans ?_
  unfold Orderly AfterByte
  constructor
  · rintro all b more same (rfl | rfl)
    · exact (all 0 more same).1 rfl
    · exact (all 1 more same).2 rfl
  · exact fun all b more same => ⟨fun zero => all b more same (.inl zero),fun one => all b more same (.inr one)⟩

private theorem orderly_optional {value : Ty} (other : value ≠ .bool) (rest : Bytes) (Q : Bytes → Prop) :
    Orderly L (.optional value) rest Q =
      AfterByte rest (fun b more => (b = 0 → Q more) ∧ (b = 1 → Orderly L value more Q)) := by
  cases value with
  | bool => exact absurd rfl other
  | _ => rfl

private theorem optional_decides {value : Ty} (decides : Decides L value) : Decides L (.optional value) := by
  by_cases bool : value = .bool
  · subst bool
    exact takes_map takes_optionalBool Data.optional
  · obtain ⟨_,_,reads⟩ := optional_eq (L := L) bool
    intro front rest K Q agree
    rw [reads,orderly_optional bool]
    have held : ∀ hasValue, Takes (fun s => if hasValue = true then
          andReturn (decode L value) (fun x => Data.optional (some x)) s
        else .ok (Data.optional none,s)) (fun rest Q => if hasValue = true then Orderly L value rest Q else Q rest) := by
      intro hasValue
      cases hasValue with
      | true => exact takes_map decides (fun x => Data.optional (some x))
      | false => exact takes_pure (Data.optional none)
    have whole := follows_then (fun hasValue s => if hasValue = true then
          andReturn (decode L value) (fun x => Data.optional (some x)) s
        else .ok (Data.optional none,s)) follows_bool held front rest K Q agree
    exact whole

private theorem vector_decides {element : Ty} (decides : Decides L element) : Decides L (.vector element) := by
  intro front rest K Q agree
  unfold Orderly decode
  cases fromByte element with
  | some ofByte => exact takes_map (takes_decodeBytes element) (fun content => Data.seq (content.map ofByte)) front rest K Q agree
  | none =>
    have whole := follows_then (fun size s => do
      resizeVector L element (itemCount size)
      andReturn (decodeEach (decode L element) (itemCount size)) Data.seq s) follows_compactInteger (fun size front rest K Q agree =>
        resizeVector_then (takes_map (takes_each decides (itemCount size)) Data.seq front rest K Q agree))
    exact whole front rest K Q agree

private theorem map_decides {key value : Ty} (keys : Decides L key) (values : Decides L value) : Decides L (.map key value) := by
  have pairs := takes_then (fun x => andReturn (decode L value) (fun y => (x,y))) keys
    (fun x => takes_map values (fun y => (x,y)))
  have whole := follows_then (fun size => andReturn
      (decodeEach (andThen (decode L key) (fun x => andReturn (decode L value) (fun y => (x,y)))) (itemCount size))
      (fun entries => Data.map (entries.foldl (emplace L key) []))) follows_compactInteger
    (fun size => takes_map (takes_each pairs (itemCount size)) (fun entries => Data.map (entries.foldl (emplace L key) [])))
  exact whole

private theorem elements_decide {ts : List Ty} (decides : ∀ t ∈ ts, Decides L t) :
    Takes (decodeElements L ts) (ElementsOrderly L ts) := by
  induction ts with
  | nil => exact takes_pure []
  | cons t ts ih =>
    obtain ⟨here,later⟩ := List.forall_mem_cons.mp decides
    have whole := takes_then (fun x => andReturn (decodeElements L ts) (fun xs => x :: xs)) here
      (fun x => takes_map (ih later) (fun xs => x :: xs))
    exact whole

private theorem alternative_decides {ts : List Ty} (decides : ∀ t ∈ ts, Decides L t) {index : Nat} (inside : index < ts.length) :
    Takes (decodeAlternative L ts index) (AlternativeOrderly L ts index) := by
  induction ts generalizing index with
  | nil => cases inside
  | cons t ts ih =>
    obtain ⟨here,later⟩ := List.forall_mem_cons.mp decides
    cases index with
    | zero => exact here
    | succ index => exact ih later (Nat.lt_of_succ_lt_succ inside)

/-- No alternative is orderly on any bytes. -/
theorem alternativeOrderly_outside {ts : List Ty} {index : Nat} (outside : ts.length ≤ index) (rest : Bytes)
    (Q : Bytes → Prop) : AlternativeOrderly L ts index rest Q := by
  induction ts generalizing index with
  | nil => trivial
  | cons t ts ih =>
    obtain ⟨index,rfl⟩ : ∃ less, index = less + 1 := ⟨index - 1,by rw [List.length_cons] at outside; omega⟩
    exact ih (Nat.le_of_succ_le_succ outside)

private theorem variant_decides {alternatives : List Ty} (decides : ∀ t ∈ alternatives, Decides L t) :
    Decides L (.variant alternatives) := by
  have whole := follows_then (fun index s => if alternatives.length ≤ index.toNat then
        scaleThrows "exception for WRONG_TYPE_INDEX"
      else andReturn (decodeAlternative L alternatives index.toNat) (Data.variant index.toNat) s) follows_nextByte
    (R := fun index more Q => AlternativeOrderly L alternatives index.toNat more Q) (fun index front rest K Q agree => by
      dsimp only
      by_cases outside : alternatives.length ≤ index.toNat
      · rw [if_pos outside]
        exact iff_of_true trivial (alternativeOrderly_outside outside rest Q)
      · rw [if_neg outside]
        exact takes_map (alternative_decides decides (by omega)) (Data.variant index.toNat) front rest K Q agree)
  exact whole

/-- Whether the bytes are orderly decides for every type whether the decoder is sound. -/
theorem decides (t : Ty) : Decides L t := by
  induction t using Ty.induct with
  | integral signed width => exact takes_map (takes_integral signed width) Data.int
  | bool => exact bool_decides
  | string => exact takes_map (takes_decodeBytes (.integral false .one)) Data.bytes
  | u256 => exact takes_map (follows_takeBytes 32) (fun view => Data.int (fromBigEndian view))
  | s256 => exact takes_map (follows_takeBytes 32) (fun view => Data.int (u2s (BitVec.ofNat 256 (fromBigEndian view))))
  | fixedBytes size =>
    intro front rest K Q agree
    exact (takes_map (takes_each takes_nextByte size) Data.bytes front rest K Q agree).trans (repeated_bytes size rest Q)
  | compactInteger =>
    intro front rest K Q agree
    exact follows_map follows_compactInteger (fun value => Data.int value) front rest K (fun _ => Q) agree
  | pair first second ihFirst ihSecond =>
    have whole := takes_then (fun x => andReturn (decode L second) (fun y => Data.seq [x,y])) ihFirst
      (fun x => takes_map ihSecond (fun y => Data.seq [x,y]))
    exact whole
  | tuple elements ih => exact takes_map (elements_decide ih) Data.seq
  | array element size ih => exact takes_map (takes_each ih size) Data.seq
  | vector element ih => exact vector_decides ih
  | map key value ihKey ihValue => exact map_decides ihKey ihValue
  | optional value ih => exact optional_decides ih
  | variant alternatives ih => exact variant_decides ih

end

/-! ### Safety -/

/-- On a byte string the decoder returns with an index inside the span, having read only
    bytes of the span, or it throws a `ScaleDecodeException`. -/
def Safe (L : Library) (t : Ty) (span : Bytes) : Prop :=
  Sound (decode L t ⟨span,0⟩) (fun _ s => s.span = span ∧ s.currentIndex ≤ span.length)

/-- The decoder is safe exactly on the bytes that are orderly. -/
theorem safe_iff (L : Library) (t : Ty) (span : Bytes) : Safe L t span ↔ Orderly L t span (fun _ => True) := by
  refine decides t [] span _ _ (fun a front' rest' same => iff_of_true ?_ trivial)
  have whole : front' ++ rest' = span := same
  exact ⟨whole,by simp [← whole,between]⟩

/-- A standard library whose vectors have fewer than 2^58 elements. -/
def boundedLibrary : Library where
  resize _ count := if count < 2 ^ 58 then .done else .lengthError
  less _ _ _ := false

/-- A `u256` in no bytes, a string of one character whose byte is missing, and a vector
    whose size is 2^64 - 1. -/
theorem decode_unsafe :
    decode boundedLibrary .u256 ⟨[],0⟩ = .error .undefined ∧
      decode boundedLibrary .string ⟨[4],0⟩ = .error .undefined ∧
      decode boundedLibrary (.vector .u256) ⟨[19,255,255,255,255,255,255,255,255],0⟩ = .error .lengthError ∧
      ¬ Safe boundedLibrary .u256 [] ∧ ¬ Safe boundedLibrary .string [4] ∧
      ¬ Safe boundedLibrary (.vector .u256) [19,255,255,255,255,255,255,255,255] :=
  ⟨rfl,rfl,rfl,id,id,id⟩

end CppSdk.ScaleSafety

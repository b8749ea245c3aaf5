import CppSdk.TarsJsonSafety

/-!
What a JSON text spells, and that the reader takes it for that (`spelled_reads`): with blanks
between the tokens, escapes of any kind in the strings and members in any order, of which the last
of a name counts. Numbers are integers here, up to the bound that the arithmetic of the reader has.
-/
namespace CppSdk.TarsJsonGrammar
open CppSdk.ByteString CppSdk.Runtime CppSdk.Texts CppSdk.Cursors CppSdk.TarsJson CppSdk.TarsJsonSafety
open CppSdk.ReceiptJson (JsonValue)

variable {α β : Type}

/-! ### The grammar -/

/-- White space. -/
def Blank (p : Bytes) : Prop := ∀ c ∈ p, isspace c = true
/-- A hexadecimal digit of either case, with its number. -/
inductive HexDigit : UInt8 → Nat → Prop where
  | decimal {c : UInt8} (low : 48 ≤ c) (high : c ≤ 57) : HexDigit c (c.toNat - 48)
  | lower {c : UInt8} (low : 97 ≤ c) (high : c ≤ 102) : HexDigit c (c.toNat - 87)
  | upper {c : UInt8} (low : 65 ≤ c) (high : c ≤ 70) : HexDigit c (c.toNat - 55)
/-- The letters of the escapes of control characters. -/
def controls : List (UInt8 × UInt8) := [(98,8),(102,12),(110,10),(114,13),(116,9)]
/-- A character of a string, or an escape, with what it stands for. -/
inductive Character : Bytes → Bytes → Prop where
  | plain {c : UInt8} (quote : c ≠ 34) (backslash : c ≠ 92) : Character [c] [c]
  | itself {c : UInt8} (known : c = 34 ∨ c = 92 ∨ c = 47) : Character [92,c] [c]
  | control {letter c : UInt8} (known : (letter,c) ∈ controls) : Character [92,letter] [c]
  | code {a b c d : UInt8} {i j k l : Nat} (first : HexDigit a i) (second : HexDigit b j) (third : HexDigit c k) (fourth : HexDigit d l) :
      Character [92,117,a,b,c,d] (codeBytes (((i * 16 + j) * 16 + k) * 16 + l))
/-- What stands between the quotation marks of a string. -/
inductive Characters : Bytes → Bytes → Prop where
  | nil : Characters [] []
  | cons {p q s t : Bytes} (first : Character p s) (later : Characters q t) : Characters (p ++ q) (s ++ t)
/-- A string in quotation marks, whose characters a `uint32_t` counts. -/
def Quoted (p value : Bytes) : Prop := ∃ body, Characters body value ∧ value.length < 4294967296 ∧ p = 34 :: (body ++ [34])
/-- The greatest number that the reader takes. -/
def greatest : Nat := 9223372036854775759
/-- An integer: digits, behind a minus sign or not. -/
inductive Numeral : Bytes → Int → Prop where
  | positive {digits : Bytes} (decimal : Decimal digits) : Numeral digits (digitsValue digits)
  | negative {digits : Bytes} (decimal : Decimal digits) : Numeral (45 :: digits) (-(digitsValue digits : Int))
/-- The letters of a word in either case. -/
def Word (word p : Bytes) : Prop := List.Forall₂ (fun letter c => c = letter ∨ c = letter - 32) word p

/-- An object with the members in their order; of those with one name the last counts. -/
def assigned (members : List (Bytes × JsonValue)) : List (Bytes × JsonValue) :=
  members.foldl (fun members p => assign members p.1 p.2) []

mutual
/-- The text spells the value. -/
inductive Spells : Bytes → JsonValue → Prop where
  | string {p value : Bytes} (quoted : Quoted p value) : Spells p (.string value)
  | num {p : Bytes} {n : Int} (numeral : Numeral p n) (fits : n.natAbs ≤ greatest) : Spells p (.num (Int64.ofInt n))
  | true {p : Bytes} (word : Word (lit "true") p) : Spells p (.boolean true)
  | false {p : Bytes} (word : Word (lit "false") p) : Spells p (.boolean false)
  | null {p : Bytes} (word : Word (lit "null") p) : Spells p .null
  | noElements {b : Bytes} (blank : Blank b) : Spells (91 :: (b ++ [93])) (.array [])
  | array {p : Bytes} {elements : List JsonValue} (each : SpellsElements p elements) : Spells (91 :: p) (.array elements)
  | noMembers {b : Bytes} (blank : Blank b) : Spells (123 :: (b ++ [125])) (.obj [])
  | obj {p : Bytes} {members : List (Bytes × JsonValue)} (each : SpellsMembers p members) : Spells (123 :: p) (.obj (assigned members))
/-- The text spells elements, up to the bracket. -/
inductive SpellsElements : Bytes → List JsonValue → Prop where
  | last {b p b' : Bytes} {v : JsonValue} (before : Blank b) (value : Spells p v) (behind : Blank b') :
      SpellsElements (b ++ (p ++ (b' ++ [93]))) [v]
  | next {b p b' q : Bytes} {v : JsonValue} {vs : List JsonValue} (before : Blank b) (value : Spells p v) (behind : Blank b')
      (later : SpellsElements q vs) : SpellsElements (b ++ (p ++ (b' ++ 44 :: q))) (v :: vs)
/-- The text spells members, up to the brace. -/
inductive SpellsMembers : Bytes → List (Bytes × JsonValue) → Prop where
  | last {b k b' b'' p z key : Bytes} {v : JsonValue} (before : Blank b) (name : Quoted k key) (colon : Blank b') (space : Blank b'')
      (value : Spells p v) (behind : Blank z) : SpellsMembers (b ++ (k ++ (b' ++ 58 :: (b'' ++ (p ++ (z ++ [125])))))) [(key,v)]
  | next {b k b' b'' p z q key : Bytes} {v : JsonValue} {members : List (Bytes × JsonValue)} (before : Blank b) (name : Quoted k key)
      (colon : Blank b') (space : Blank b'') (value : Spells p v) (behind : Blank z) (later : SpellsMembers q members) :
      SpellsMembers (b ++ (k ++ (b' ++ 58 :: (b'' ++ (p ++ (z ++ 44 :: q)))))) ((key,v) :: members)
end

/-! ### Tokens and words -/

theorem blank_nil : Blank [] := fun _ member => absurd member List.not_mem_nil

private theorem reads_read (c : UInt8) (q : Bytes) : Reads TarsJson.read (c :: q) c q := by
  intro front
  refine ⟨front ++ [c],by simp,?_⟩
  rw [read_inside (by simp)]
  simp [standing]

theorem reads_readToken {b : Bytes} (blank : Blank b) {c : UInt8} (solid : isspace c = false) (q : Bytes) :
    Reads readToken (b ++ c :: q) c q := by
  refine reads_loop ?_
  induction b with
  | nil =>
    refine loopReads_done (reads_bind (reads_read c q) ?_)
    rw [solid]
    exact reads_pure _ q
  | cons d b ih =>
    obtain ⟨here,later⟩ := List.forall_mem_cons.mp blank
    refine loopReads_next (reads_bind (reads_read d (b ++ c :: q)) ?_) (Nat.lt_succ_self _) (ih later)
    rw [here]
    exact reads_pure _ _

/-- The last character that was read is given back. -/
theorem back_behind {x : JsonRead α} {p q : Bytes} {c : UInt8} {a : α} (reads : Reads x (p ++ c :: q) a q) (front : Bytes) :
    ∃ after, x.run (standing front (p ++ c :: q)) = (.ok a,after) ∧ back.run after = (.ok (),standing (front ++ p) (c :: q)) := by
  obtain ⟨front',same,ran⟩ := reads front
  obtain rfl : front' = front ++ p ++ [c] := List.append_cancel_right (show front' ++ q = front ++ p ++ [c] ++ q by simpa using same)
  refine ⟨_,ran,?_⟩
  rw [back_run (by simp)]
  simp [standing]

private theorem takes_letters {word p : Bytes} (same : Word word p) : Takes (letters word) p true := by
  induction same with
  | nil => exact takes_pure true
  | @cons letter c word p here later ih =>
    intro rest
    refine reads_bind (reads_read c (p ++ rest)) ?_
    rw [if_pos here]
    exact ih rest

/-! ### Strings -/

private theorem takes_addHex {c : UInt8} {n : Nat} (digit : HexDigit c n) (iCode : Nat) : Takes (addHex iCode) [c] (iCode * 16 + n) := by
  intro rest
  refine reads_bind (reads_read c rest) ?_
  cases digit with
  | decimal low high =>
    rw [UInt8.le_iff_toNat_le] at low high
    have lower : ¬ (97 ≤ c && c ≤ 102) = true := by simp [UInt8.le_iff_toNat_le] at low high ⊢; omega
    have upper : ¬ (65 ≤ c && c ≤ 70) = true := by simp [UInt8.le_iff_toNat_le] at low high ⊢; omega
    have here : (48 ≤ c && c ≤ 57) = true := by simp [UInt8.le_iff_toNat_le] at low high ⊢; omega
    rw [if_neg lower,if_neg upper,if_pos here]
    exact reads_pure _ rest
  | lower low high =>
    have here : (97 ≤ c && c ≤ 102) = true := by simp [low,high]
    rw [UInt8.le_iff_toNat_le] at low high
    rw [if_pos here,show c.toNat - 97 + 10 = c.toNat - 87 by simp at low; omega]
    exact reads_pure _ rest
  | upper low high =>
    have here : (65 ≤ c && c ≤ 70) = true := by simp [low,high]
    rw [UInt8.le_iff_toNat_le] at low high
    have lower : ¬ (97 ≤ c && c ≤ 102) = true := by simp [UInt8.le_iff_toNat_le] at low high ⊢; omega
    rw [if_neg lower,if_pos here,show c.toNat - 65 + 10 = c.toNat - 55 by simp at low; omega]
    exact reads_pure _ rest
private theorem takes_getHex {a b c d : UInt8} {i j k l : Nat} (first : HexDigit a i) (second : HexDigit b j) (third : HexDigit c k)
    (fourth : HexDigit d l) : Takes getHex [a,b,c,d] (((i * 16 + j) * 16 + k) * 16 + l) := by
  have start := takes_addHex first 0
  rw [Nat.zero_mul,Nat.zero_add] at start
  exact takes_bind start (takes_bind (takes_addHex second _) (takes_bind (takes_addHex third _) (takes_addHex fourth _)))

/-- An escape behind its backslash. -/
theorem reads_escape {c : UInt8} {p s : Bytes} (escape : Character (92 :: c :: p) s) (rest : Bytes) :
    Reads (readEscape c) (p ++ rest) (s,p) rest := by
  generalize text : (92 :: c :: p : Bytes) = q at escape
  cases escape with
  | plain quote backslash => cases text
  | itself known =>
    obtain ⟨-,rfl,rfl⟩ := text
    rw [readEscape,if_pos (by tauto)]
    exact reads_pure _ rest
  | control known =>
    obtain ⟨-,rfl,rfl⟩ := text
    simp only [controls,List.mem_cons,Prod.mk.injEq,List.not_mem_nil,or_false] at known
    rcases known with ⟨rfl,rfl⟩ | ⟨rfl,rfl⟩ | ⟨rfl,rfl⟩ | ⟨rfl,rfl⟩ | ⟨rfl,rfl⟩ <;> exact reads_pure _ rest
  | @code a b c d i j k l first second third fourth =>
    obtain ⟨-,rfl,rfl⟩ := text
    have reads : Reads (getHex >>= fun iCode => pure (codeBytes iCode,([a,b,c,d] ++ rest).take 4) : JsonRead (Bytes × Bytes))
        ([a,b,c,d] ++ rest) (codeBytes (((i * 16 + j) * 16 + k) * 16 + l),[a,b,c,d]) rest :=
      reads_bind (takes_getHex first second third fourth rest) (reads_pure _ rest)
    exact reads_unread (f := fun unread => getHex >>= fun iCode => pure (codeBytes iCode,unread.take 4)) reads

/-- The variables of `getString` while the `uint32_t` counts the characters. -/
def counted (value chars : Bytes) : StringState := ⟨value,chars,chars.length⟩

/-- A round of `getString` on a character, on an escape, and on the quotation mark. -/
theorem stringRound_plain {c : UInt8} (quote : c ≠ 34) (backslash : c ≠ 92) (value : Bytes) {chars : Bytes}
    (short : chars.length + 1 < 4294967296) (rest : Bytes) :
    Reads (stringRound 34 (counted value chars)) (c :: rest) (.inl (counted value (chars ++ [c]))) rest := by
  refine reads_bind (reads_read c rest) ?_
  rw [stringCharacter,if_neg backslash,if_neg quote,counted,counted,List.length_append,List.length_singleton,Nat.mod_eq_of_lt short]
  exact reads_pure _ rest
private theorem stringRound_escape {c : UInt8} {p more : Bytes} (escape : Character (92 :: c :: p) more) (value chars rest : Bytes) :
    Reads (stringRound 34 (counted value chars)) (92 :: c :: (p ++ rest)) (.inl (counted (value ++ chars ++ more) [])) rest := by
  have passed : (chars ++ 92 :: c :: p).drop (chars.length + 2 + p.length) = [] := by
    rw [List.drop_eq_nil_iff]
    simp only [List.length_append,List.length_cons]
    omega
  refine reads_bind (reads_read 92 _) ?_
  rw [stringCharacter,if_pos rfl]
  refine reads_bind (reads_read c _) (reads_bind (reads_escape escape rest) ?_)
  simp only [counted,List.take_length,passed,List.length_nil]
  exact reads_pure _ rest
private theorem stringRound_end (value chars rest : Bytes) :
    Reads (stringRound 34 (counted value chars)) (34 :: rest) (.inr (value ++ chars)) rest := by
  refine reads_bind (reads_read 34 rest) ?_
  rw [stringCharacter,if_neg (by decide),if_pos rfl,counted,List.take_length]
  exact reads_pure _ rest

/-- A character stands for itself, or is an escape. -/
theorem plain_or_escape {p more : Bytes} (character : Character p more) :
    (∃ c, c ≠ 34 ∧ c ≠ 92 ∧ p = [c] ∧ more = [c]) ∨ ∃ c q, p = 92 :: c :: q := by
  cases character with
  | plain quote backslash => exact .inl ⟨_,quote,backslash,rfl,rfl⟩
  | itself known => exact .inr ⟨_,[],rfl⟩
  | control known => exact .inr ⟨_,[],rfl⟩
  | code first second third fourth => exact .inr ⟨117,_,rfl⟩

private theorem loop_characters {body value : Bytes} (characters : Characters body value) (before chars : Bytes)
    (short : chars.length + value.length < 4294967296) (rest : Bytes) :
    LoopReads .diverges (stringRound 34) (counted before chars) (body ++ 34 :: rest) (before ++ chars ++ value) rest := by
  induction characters generalizing before chars with
  | nil =>
    rw [List.append_nil]
    exact loopReads_done (stringRound_end before chars rest)
  | @cons p q more t first later ih =>
    rw [List.append_assoc]
    rw [List.length_append] at short
    rcases plain_or_escape first with ⟨c,quote,backslash,rfl,rfl⟩ | ⟨c,p,rfl⟩
    · rw [List.length_singleton] at short
      have goes := ih before (chars ++ [c]) (by simp only [List.length_append,List.length_singleton]; omega)
      simp only [List.append_assoc] at goes ⊢
      exact loopReads_next (stringRound_plain quote backslash before (by omega) _) (Nat.lt_succ_self _) goes
    · have goes := ih (before ++ chars ++ more) [] (by simp only [List.length_nil]; omega)
      simp only [List.append_assoc,List.append_nil] at goes ⊢
      have round := stringRound_escape first before chars (q ++ 34 :: rest)
      simp only [List.append_assoc] at round
      refine loopReads_next round ?_ goes
      simp only [List.cons_append,List.length_cons,List.length_append]
      omega

/-- A string behind its first quotation mark. -/
theorem takes_getString {body value : Bytes} (characters : Characters body value) (short : value.length < 4294967296) :
    Takes (getString 34) (body ++ [34]) value := by
  intro rest
  rw [List.append_assoc]
  have reads := loop_characters characters [] [] (by simpa using short) rest
  simp only [List.nil_append] at reads
  exact reads_loop reads

/-! ### Numbers -/

/-- What can follow a number: nothing that would go on with it. -/
def Stops (rest : Bytes) : Prop := ∀ c q, rest = c :: q → isDigit c = false ∧ c ≠ 46 ∧ c ≠ 101 ∧ c ≠ 69
/-- The variables of `getNum` in the digits of an integer. -/
def counting (negative bOk : Bool) (n : Nat) : NumState := ⟨bOk,false,false,negative,false,n,[],0⟩
/-- The number that digits go on to spell. -/
def goOn (n : Nat) (digits : Bytes) : Nat := digits.foldl (fun value c => value * 10 + (c.toNat - 48)) n

private theorem goOn_cons (n : Nat) (c : UInt8) (digits : Bytes) : goOn n (c :: digits) = goOn (n * 10 + (c.toNat - 48)) digits := by
  simp only [goOn,List.foldl_cons]
private theorem goOn_ge (n : Nat) (digits : Bytes) : n ≤ goOn n digits := by
  induction digits generalizing n with
  | nil => exact Nat.le_refl n
  | cons c digits ih =>
    rw [goOn_cons]
    exact le_trans (by omega) (ih (n * 10 + (c.toNat - 48)))
private theorem digit_range {c : UInt8} (digit : isDigit c = true) : 48 ≤ c.toNat ∧ c.toNat ≤ 57 := by
  simp only [isDigit,Bool.and_eq_true,decide_eq_true_eq,UInt8.le_iff_toNat_le] at digit
  exact digit

private theorem reads_hasEnd (p : Bytes) : Reads hasEnd p p.isEmpty p := by
  intro front
  refine ⟨front,rfl,?_⟩
  rw [hasEnd_run]
  cases p with
  | nil => simp
  | cons c p => simp

private theorem reads_int64 {n : Int} (low : -9223372036854775808 ≤ n) (high : n < 9223372036854775808) (q : Bytes) : Reads (int64 n) q n q := by
  rw [int64,if_pos ⟨low,high⟩]
  exact reads_pure n q
private theorem fails_int64 {n : Int} (high : 9223372036854775808 ≤ n) (q : Bytes) : Fails (int64 n) q .undefined := by
  rw [int64,if_neg (by omega)]
  exact fun front => ⟨_,rfl⟩
/-- `n * 10 + c - 0x30` is not defined where `n * 10 + c` does not fit. -/
theorem reads_addDigit {n : Nat} {c : UInt8} (digit : isDigit c = true) (fits : n * 10 + c.toNat < 9223372036854775808) (q : Bytes) :
    Reads (addDigit n c) q ((n * 10 + (c.toNat - 48) : Nat) : Int) q := by
  obtain ⟨low,high⟩ := digit_range digit
  have value : ((n * 10 + (c.toNat - 48) : Nat) : Int) = (n : Int) * 10 + c.toNat - 48 := by omega
  rw [value]
  exact reads_bind (reads_int64 (by omega) (by omega) q) (reads_bind (reads_int64 (by omega) (by omega) q) (reads_int64 (by omega) (by omega) q))
private theorem fails_addDigit {n : Nat} {c : UInt8} (digit : isDigit c = true) (large : 9223372036854775808 ≤ n * 10 + c.toNat) (q : Bytes) :
    Fails (addDigit n c) q .undefined := by
  obtain ⟨low,high⟩ := digit_range digit
  by_cases product : n * 10 < 9223372036854775808
  · exact fails_later (reads_int64 (by omega) (by omega) q) (fails_first (fails_int64 (by omega) q))
  · exact fails_first (fails_int64 (by omega) q)

section
variable {negative bOk : Bool} {n : Nat} {c : UInt8}

private theorem numRound_cons {c : UInt8} {q : Bytes} {s : NumState} {r : Except Failure ((NumState ⊕ (NumState × Bool)) × Bytes)}
    (character : Results (numCharacter s c) q r) : Results (numRound s) (c :: q) r := by
  have results := results_bind (r := .ok (false,c :: q)) (reads_hasEnd (c :: q)) (f := fun ended =>
    if ended then pure (.inr (s,false)) else TarsJson.read >>= numCharacter s) (g := fun _ => r) ?_
  · exact results
  · rintro _ _ same
    obtain ⟨rfl,rfl⟩ := Prod.mk.inj (Except.ok.inj same)
    exact results_bind (r := .ok (c,q)) (reads_read c q) (f := numCharacter s) (g := fun _ => r) (by
      rintro _ _ same
      obtain ⟨rfl,rfl⟩ := Prod.mk.inj (Except.ok.inj same)
      exact character)

private theorem numRound_digit (digit : isDigit c = true) (fits : n * 10 + c.toNat < 9223372036854775808) (q : Bytes) :
    Reads (numRound (counting negative bOk n)) (c :: q) (.inl (counting negative true (n * 10 + (c.toNat - 48)))) q := by
  refine numRound_cons (r := .ok (_,q)) ?_
  rw [numCharacter,if_pos digit]
  exact reads_map (reads_bind (reads_addDigit digit fits q) (reads_pure (counting negative true (n * 10 + (c.toNat - 48))) q)) Sum.inl
private theorem numRound_overflow (digit : isDigit c = true) (large : 9223372036854775808 ≤ n * 10 + c.toNat) (q : Bytes) :
    Fails (numRound (counting negative bOk n)) (c :: q) .undefined := by
  refine numRound_cons (r := .error .undefined) ?_
  rw [numCharacter,if_pos digit]
  exact fails_map (fails_first (fails_addDigit digit large q)) Sum.inl
/-- The round behind the last digit: it reads the character that follows, if there is one. -/
theorem numRound_last {rest : Bytes} (stops : Stops rest) :
    Reads (numRound (counting negative true n)) rest (.inr (counting negative true n,!rest.isEmpty)) rest.tail := by
  cases rest with
  | nil => exact reads_bind (reads_hasEnd []) (reads_pure _ [])
  | cons c q =>
    obtain ⟨digit,point,small,large⟩ := stops c q rfl
    refine numRound_cons (r := .ok (_,q)) ?_
    rw [numCharacter,if_neg (by simp [digit]),if_neg (by simp [point]),if_neg (by simp [small,large])]
    exact reads_pure _ q

private theorem loop_digits {digits : Bytes} (all : ∀ c ∈ digits, isDigit c = true) (some : bOk = true ∨ digits ≠ [])
    (fits : digits = [] ∨ goOn n digits ≤ greatest) {rest : Bytes} (stops : Stops rest) :
    LoopReads .diverges numRound (counting negative bOk n) (digits ++ rest) (counting negative true (goOn n digits),!rest.isEmpty)
      rest.tail := by
  induction digits generalizing bOk n with
  | nil =>
    obtain rfl : bOk = true := some.resolve_right (fun nonempty => nonempty rfl)
    exact loopReads_done (numRound_last stops)
  | cons c digits ih =>
    obtain ⟨digit,later⟩ := List.forall_mem_cons.mp all
    have least := goOn_ge (n * 10 + (c.toNat - 48)) digits
    have bound : goOn (n * 10 + (c.toNat - 48)) digits ≤ greatest := fits.resolve_left (by simp)
    have range := digit_range digit
    refine loopReads_next (numRound_digit digit (by rw [greatest] at bound; omega) _) (Nat.lt_succ_self _) ?_
    exact ih later (.inl rfl) (.inr bound)

end

private theorem loop_overflow {digits : Bytes} (all : ∀ c ∈ digits, isDigit c = true) {negative bOk : Bool} {n : Nat} (some : digits ≠ [])
    (large : greatest < goOn n digits) (rest : Bytes) :
    LoopFails .diverges numRound (counting negative bOk n) (digits ++ rest) .undefined := by
  induction digits generalizing bOk n with
  | nil => exact absurd rfl some
  | cons c digits ih =>
    obtain ⟨digit,later⟩ := List.forall_mem_cons.mp all
    have range := digit_range digit
    by_cases fits : n * 10 + c.toNat < 9223372036854775808
    · refine loopFails_next (numRound_digit digit fits _) (Nat.lt_succ_self _) (ih later ?_ large)
      rintro rfl
      rw [goOn_cons,goOn,List.foldl_nil,greatest] at large
      omega
    · exact loopFails_now (numRound_overflow digit (by omega) _)

/-- The digits of a number, and what follows it: a character that is read is given back. -/
theorem reads_getNum (D : Doubles) {head : UInt8} {digits rest : Bytes} {negative bOk : Bool} {n value : Nat}
    (start : numStart head = counting negative bOk n)
    (loops : LoopReads .diverges numRound (counting negative bOk n) (digits ++ rest) (counting negative true value,!rest.isEmpty) rest.tail) :
    Reads (getNum D head) (digits ++ rest) (Int64.ofInt (signed negative value)) rest := by
  rw [getNum,start]
  cases rest with
  | nil => exact reads_bind (reads_loop loops) (reads_pure _ [])
  | cons c q =>
    intro front
    obtain ⟨after,ran,backed⟩ := back_behind (reads_loop loops) front
    exact ⟨front ++ digits,by simp,(run_bind ran).trans (run_bind backed)⟩

private theorem numStart_digit {c : UInt8} (digit : isDigit c = true) : numStart c = counting false true (c.toNat - 48) := by
  obtain ⟨low,_⟩ := digit_range digit
  have plain : c ≠ 45 := by
    rintro rfl
    cases digit
  rw [numStart,if_neg plain,counting]
  congr 1
  omega

/-- An integer is read up to the bound of the arithmetic, and beyond it leads to an operation that is not defined. -/
theorem numeral_getNum (D : Doubles) {p : Bytes} {n : Int} (numeral : Numeral p n) : ∃ head tail, p = head :: tail ∧
    (isDigit head = true ∨ head = 45) ∧
    (n.natAbs ≤ greatest → ∀ rest, Stops rest → Reads (getNum D head) (tail ++ rest) (Int64.ofInt n) rest) ∧
    (greatest < n.natAbs → ∀ rest, Fails (getNum D head) (tail ++ rest) .undefined) := by
  cases numeral with
  | @positive digits decimal =>
    obtain ⟨c,digits,rfl⟩ := List.exists_cons_of_ne_nil decimal.nonempty
    obtain ⟨digit,later⟩ := List.forall_mem_cons.mp decimal.digits
    have value : digitsValue (c :: digits) = goOn (c.toNat - 48) digits := by
      rw [digitsValue,List.foldl_cons,Nat.zero_mul,Nat.zero_add,goOn]
    have range := digit_range digit
    rw [value,Int.natAbs_natCast]
    refine ⟨c,digits,rfl,.inl digit,fun fits rest stops => ?_,fun large rest => ?_⟩
    · exact reads_getNum D (numStart_digit digit) (loop_digits later (.inl rfl) (.inr fits) stops)
    · rw [getNum,numStart_digit digit]
      refine fails_first (fails_loop (loop_overflow later ?_ large rest))
      rintro rfl
      rw [goOn,List.foldl_nil,greatest] at large
      omega
  | @negative digits decimal =>
    have value : digitsValue digits = goOn 0 digits := rfl
    rw [value,Int.natAbs_neg,Int.natAbs_natCast]
    refine ⟨45,digits,rfl,.inr rfl,fun fits rest stops => ?_,fun large rest => ?_⟩
    · have start : numStart 45 = counting true false 0 := rfl
      have reads := reads_getNum D start (loop_digits decimal.digits (.inr decimal.nonempty) (.inr fits) stops)
      rwa [signed,if_pos rfl,Int.zero_sub] at reads
    · exact fails_first (fails_loop (loop_overflow decimal.digits decimal.nonempty large rest))

/-! ### Values -/

section
variable (D : Doubles)

/-- A number is not followed by what would go on with it. -/
def Ends (v : JsonValue) (rest : Bytes) : Prop := ∀ n, v = .num n → Stops rest

private theorem reads_getValue {p q : Bytes} {v : JsonValue} (reads : Reads (getValueWith D (TarsJson.getValue D)) p v q) :
    Reads (TarsJson.getValue D) p v q := by
  intro front
  rw [getValue_eq D (r := standing front p) (by simp [Buffered.Inside,standing])]
  exact reads front
theorem fails_getValue {p : Bytes} {e : Failure} (fails : Fails (getValueWith D (TarsJson.getValue D)) p e) :
    Fails (TarsJson.getValue D) p e := by
  intro front
  rw [getValue_eq D (r := standing front p) (by simp [Buffered.Inside,standing])]
  exact fails front

private theorem stops_behind {b : Bytes} (blank : Blank b) {c : UInt8} (mark : c = 44 ∨ c = 93 ∨ c = 125) (rest : Bytes) : Stops (b ++ c :: rest) := by
  intro d q same
  have one : isspace d = true ∨ d = c := by
    cases b with
    | nil => exact .inr (List.cons.inj same).1.symm
    | cons e b => exact .inl ((List.cons.inj same).1 ▸ blank e List.mem_cons_self)
  have known : d = 32 ∨ d = 9 ∨ d = 13 ∨ d = 10 ∨ d = 44 ∨ d = 93 ∨ d = 125 := by
    rcases one with space | rfl
    · simp only [isspace,Bool.or_eq_true,beq_iff_eq] at space
      tauto
    · tauto
  rcases known with rfl | rfl | rfl | rfl | rfl | rfl | rfl <;> decide

/-- How a value is read behind its first character. -/
def Begins (p : Bytes) (v : JsonValue) : Prop := ∃ c q, p = c :: q ∧ isspace c = false ∧ c ≠ 93 ∧
  ∀ rest, Ends v rest → Reads (valueFrom D (TarsJson.getValue D) c) (q ++ rest) v rest
/-- How elements are read, behind a blank that may have been read. -/
def Continues (p : Bytes) (vs : List JsonValue) : Prop := ∃ b c q, p = b ++ c :: q ∧ Blank b ∧ isspace c = false ∧ c ≠ 93 ∧
  ∀ b', Blank b' → ∀ elements rest,
    LoopReads .diverges (arrayRound (TarsJson.getValue D)) elements (b' ++ c :: (q ++ rest)) (elements ++ vs) rest

theorem begins_reads {p : Bytes} {v : JsonValue} (begins : Begins D p v) {b : Bytes} (blank : Blank b) {rest : Bytes} (ends : Ends v rest) :
    Reads (TarsJson.getValue D) (b ++ (p ++ rest)) v rest := by
  obtain ⟨c,q,rfl,solid,_,reads⟩ := begins
  exact reads_getValue D (reads_bind (reads_readToken blank solid (q ++ rest)) (reads rest ends))

theorem isspace_digit {c : UInt8} (digit : isDigit c = true ∨ c = 45) : isspace c = false := by
  rcases digit with digit | rfl
  · refine Bool.eq_false_iff.mpr (fun space => ?_)
    simp only [isspace,Bool.or_eq_true,beq_iff_eq] at space
    rcases space with ((rfl | rfl) | rfl) | rfl <;> cases digit
  · rfl
theorem valueFrom_digit {c : UInt8} (digit : isDigit c = true ∨ c = 45) :
    valueFrom D (TarsJson.getValue D) c = .num <$> getNum D c ∧ c ≠ 93 := by
  have others : c ≠ 123 ∧ c ≠ 91 ∧ c ≠ 34 ∧ c ≠ 84 ∧ c ≠ 116 ∧ c ≠ 70 ∧ c ≠ 102 ∧ c ≠ 93 := by
    rcases digit with digit | rfl
    · refine ⟨?_,?_,?_,?_,?_,?_,?_,?_⟩ <;> rintro rfl <;> cases digit
    · decide
  obtain ⟨a,b,c',d,e,f,g,h⟩ := others
  refine ⟨?_,h⟩
  rw [valueFrom,if_neg a,if_neg b,if_neg c',if_neg (by tauto),if_pos digit]

private theorem begins_num {p : Bytes} {n : Int} (numeral : Numeral p n) (fits : n.natAbs ≤ greatest) : Begins D p (.num (Int64.ofInt n)) := by
  obtain ⟨c,q,rfl,first,reads,_⟩ := numeral_getNum D numeral
  obtain ⟨same,bracket⟩ := valueFrom_digit D first
  refine ⟨c,q,rfl,isspace_digit first,bracket,fun rest ends => ?_⟩
  rw [same]
  exact reads_map (reads fits rest (ends _ rfl)) _
private theorem begins_string {p value : Bytes} (quoted : Quoted p value) : Begins D p (.string value) := by
  obtain ⟨body,characters,short,rfl⟩ := quoted
  exact ⟨34,_,rfl,rfl,by decide,fun rest _ => reads_map (takes_getString characters short rest) _⟩

/-- The letters of a word behind the first. -/
theorem word_cons {letter : UInt8} {word p : Bytes} (same : Word (letter :: word) p) :
    ∃ c q, p = c :: q ∧ (c = letter ∨ c = letter - 32) ∧ Word word q := by
  cases same with
  | cons here later => exact ⟨_,_,rfl,here,later⟩

private theorem begins_boolean {p : Bytes} {value : Bool} (word : Word (if value then lit "true" else lit "false") p) :
    Begins D p (.boolean value) := by
  cases value with
  | true =>
    have letters : Word (116 :: lit "rue") p := word
    obtain ⟨c,q,rfl,first,later⟩ := word_cons letters
    have boolean : Takes (getBoolean c) q true := by
      rcases first with rfl | rfl <;> exact takes_then (takes_letters later) (takes_pure true)
    rcases first with rfl | rfl <;> exact ⟨_,_,rfl,rfl,by decide,fun rest _ => reads_map (boolean rest) _⟩
  | false =>
    have letters : Word (102 :: lit "alse") p := word
    obtain ⟨c,q,rfl,first,later⟩ := word_cons letters
    have boolean : Takes (getBoolean c) q false := by
      rcases first with rfl | rfl <;> exact takes_then (takes_letters later) (takes_pure false)
    rcases first with rfl | rfl <;> exact ⟨_,_,rfl,rfl,by decide,fun rest _ => reads_map (boolean rest) _⟩
private theorem begins_null {p : Bytes} (word : Word (lit "null") p) : Begins D p .null := by
  have letters : Word (110 :: lit "ull") p := word
  obtain ⟨c,q,rfl,first,later⟩ := word_cons letters
  have null : Takes (getNull c) q () := by
    have read : Takes (do
        let bOk ← TarsJson.letters (lit "ull")
        if bOk then pure () else throwAt "get NULL error[pos:" "]") q () := takes_then (takes_letters later) (takes_pure ())
    rcases first with rfl | rfl <;> exact takes_bind (takes_pure ()) read
  rcases first with rfl | rfl <;> exact ⟨_,_,rfl,rfl,by decide,fun rest _ => reads_map (null rest) _⟩

private theorem begins_noElements {b : Bytes} (blank : Blank b) : Begins D (91 :: (b ++ [93])) (.array []) := by
  refine ⟨91,_,rfl,rfl,by decide,fun rest _ => reads_map ?_ JsonValue.array⟩
  rw [List.append_assoc]
  exact reads_bind (reads_bind (reads_readToken blank rfl rest) (reads_pure true rest)) (reads_pure [] rest)

/-- A bracket that does not end the array is followed by what was given back. -/
theorem reads_endsArray {b : Bytes} (blank : Blank b) {c : UInt8} (solid : isspace c = false) (other : c ≠ 93) (q : Bytes) :
    Reads endsArray (b ++ c :: q) false (c :: q) := by
  intro front
  obtain ⟨after,ran,backed⟩ := back_behind (reads_readToken blank solid q) front
  refine ⟨front ++ b,by simp,?_⟩
  rw [endsArray,run_bind ran,if_neg other]
  exact run_bind backed

private theorem begins_array {p : Bytes} {vs : List JsonValue} (continues : Continues D p vs) : Begins D (91 :: p) (.array vs) := by
  obtain ⟨b,c,q,rfl,blank,solid,other,loops⟩ := continues
  refine ⟨91,_,rfl,rfl,by decide,fun rest _ => reads_map ?_ JsonValue.array⟩
  rw [List.append_assoc]
  refine reads_bind (reads_endsArray blank solid other (q ++ rest)) ?_
  exact reads_loop (loops [] (by simp [Blank]) [] rest)

/-- What follows an element. -/
theorem reads_arrayRound {p b b' rest : Bytes} {v : JsonValue} (begins : Begins D p v) (before : Blank b) (behind : Blank b') {c : UInt8}
    (mark : c = 44 ∨ c = 93) (elements : List JsonValue) : Reads (arrayRound (TarsJson.getValue D) elements) (b ++ (p ++ (b' ++ c :: rest)))
      (if c = 44 then .inl (elements ++ [v]) else .inr (elements ++ [v])) rest := by
  have stops : Ends v (b' ++ c :: rest) := fun _ _ => stops_behind behind (by tauto) rest
  refine reads_bind (begins_reads D begins before stops) (reads_bind (reads_readToken behind ?_ rest) ?_)
  · rcases mark with rfl | rfl <;> rfl
  · rcases mark with rfl | rfl <;> exact reads_pure _ rest

/-- The text of a first element, from its first character on. -/
theorem begins_append {p : Bytes} {v : JsonValue} (begins : Begins D p v) (b more : Bytes) : ∃ c q, b ++ (p ++ more) = b ++ c :: q ∧
    isspace c = false ∧ c ≠ 93 ∧ p ++ more = c :: q := by
  obtain ⟨c,q,rfl,solid,other,_⟩ := begins
  exact ⟨c,q ++ more,rfl,solid,other,rfl⟩

private theorem continues_last {b p b' : Bytes} {v : JsonValue} (before : Blank b) (begins : Begins D p v) (behind : Blank b') :
    Continues D (b ++ (p ++ (b' ++ [93]))) [v] := by
  obtain ⟨c,q,text,solid,other,same⟩ := begins_append D begins b (b' ++ [93])
  refine ⟨b,c,q,text,before,solid,other,fun b'' blank elements rest => loopReads_done ?_⟩
  have whole : b'' ++ c :: (q ++ rest) = b'' ++ (p ++ (b' ++ 93 :: rest)) := by
    rw [← List.cons_append,← same]
    simp
  rw [whole]
  exact reads_arrayRound D begins blank behind (.inr rfl) elements
private theorem continues_next {b p b' q : Bytes} {v : JsonValue} {vs : List JsonValue} (before : Blank b) (begins : Begins D p v)
    (behind : Blank b') (later : Continues D q vs) : Continues D (b ++ (p ++ (b' ++ 44 :: q))) (v :: vs) := by
  obtain ⟨d,e,s,rfl,space,_,_,loops⟩ := later
  obtain ⟨c,t,text,solid,other,same⟩ := begins_append D begins b (b' ++ 44 :: (d ++ e :: s))
  refine ⟨b,c,t,text,before,solid,other,fun b'' blank elements rest => ?_⟩
  have whole : b'' ++ c :: (t ++ rest) = b'' ++ (p ++ (b' ++ 44 :: (d ++ e :: (s ++ rest)))) := by
    rw [← List.cons_append,← same]
    simp
  have goes := loops d space (elements ++ [v]) rest
  rw [List.append_assoc,List.singleton_append] at goes
  rw [whole]
  refine loopReads_next (reads_arrayRound D begins blank behind (.inl rfl) elements) ?_ goes
  simp only [List.length_append,List.length_cons]
  omega

private theorem begins_noMembers {b : Bytes} (blank : Blank b) : Begins D (123 :: (b ++ [125])) (.obj []) := by
  refine ⟨123,_,rfl,rfl,by decide,fun rest _ => reads_map ?_ JsonValue.obj⟩
  rw [List.append_assoc]
  exact reads_loop (loopReads_done (reads_bind (reads_readToken blank rfl rest) (reads_pure _ rest)))

/-- A member and what follows it. -/
theorem reads_objRound {b k b' b'' p z key rest : Bytes} {v : JsonValue} (before : Blank b) (name : Quoted k key) (colon : Blank b')
    (space : Blank b'') (begins : Begins D p v) (behind : Blank z) {c : UInt8} (mark : c = 44 ∨ c = 125)
    (members : List (Bytes × JsonValue)) (bFirst : Bool) :
    Reads (objRound (TarsJson.getValue D) (members,bFirst)) (b ++ (k ++ (b' ++ 58 :: (b'' ++ (p ++ (z ++ c :: rest))))))
      (if c = 44 then .inl (assign members key v,false) else .inr (assign members key v)) rest := by
  obtain ⟨body,characters,short,rfl⟩ := name
  have stops : Ends v (z ++ c :: rest) := fun _ _ => stops_behind behind (by tauto) rest
  refine reads_bind (reads_readToken before rfl _) (reads_bind (takes_getString characters short _) ?_)
  refine reads_bind (reads_readToken colon rfl _) (reads_bind (begins_reads D begins space stops) ?_)
  refine reads_bind (reads_readToken behind ?_ rest) ?_
  · rcases mark with rfl | rfl <;> rfl
  · rcases mark with rfl | rfl <;> exact reads_pure _ rest

theorem spelled_begins {p : Bytes} {v : JsonValue} (spells : Spells p v) : Begins D p v := by
  refine @Spells.rec (fun p v _ => Begins D p v) (fun p vs _ => Continues D p vs)
    (fun p members _ => ∀ assigned bFirst rest, LoopReads .diverges (objRound (TarsJson.getValue D)) (assigned,bFirst) (p ++ rest)
      (members.foldl (fun members p => assign members p.1 p.2) assigned) rest)
    ?string ?num ?true ?false ?null ?noElements ?array ?noMembers ?obj ?lastElement ?nextElement ?lastMember ?nextMember p v spells
  case string => exact fun quoted => begins_string D quoted
  case num => exact fun numeral fits => begins_num D numeral fits
  case true => exact fun word => @begins_boolean D _ true word
  case false => exact fun word => @begins_boolean D _ false word
  case null => exact fun word => begins_null D word
  case noElements => exact fun blank => begins_noElements D blank
  case array => exact fun _ continues => begins_array D continues
  case noMembers => exact fun blank => begins_noMembers D blank
  case obj =>
    intro p members _ loops
    refine ⟨123,p,rfl,rfl,by decide,fun rest _ => reads_map ?_ JsonValue.obj⟩
    exact reads_loop (loops [] true rest)
  case lastElement => exact fun before _ behind begins => continues_last D before begins behind
  case nextElement => exact fun before _ behind _ begins later => continues_next D before begins behind later
  case lastMember =>
    intro b k b' b'' p z key v before name colon space _ behind begins assigned bFirst rest
    simp only [List.append_assoc,List.cons_append]
    exact loopReads_done (reads_objRound D before name colon space begins behind (.inr rfl) assigned bFirst)
  case nextMember =>
    intro b k b' b'' p z q key v members before name colon space _ behind _ begins later assigned bFirst rest
    simp only [List.append_assoc,List.cons_append]
    refine loopReads_next (reads_objRound D before name colon space begins behind (.inl rfl) assigned bFirst) ?_ (later _ false rest)
    simp only [List.length_append,List.length_cons]
    omega

/-- A text that spells a value is read as the value, behind blanks and in front of anything that does not go on with it. -/
theorem spelled_reads {b p rest : Bytes} {v : JsonValue} (blank : Blank b) (spells : Spells p v) (ends : Ends v rest) :
    getValueOf D (b ++ (p ++ rest)) = .ok v := by
  obtain ⟨_,_,ran⟩ := begins_reads D (spelled_begins D spells) blank ends []
  exact congrArg Prod.fst ran

end

/-- An array in an odd layout, with something behind it. -/
theorem spelled_reads_array :
    getValueOf ⟨fun _ _ _ _ => none⟩ (lit " " ++ (lit "[TRUE ,null]" ++ lit "]")) = .ok (.array [.boolean true,.null]) := by
  have blank : Blank (lit " ") := fun c member => List.mem_singleton.mp member ▸ rfl
  have elements : SpellsElements ([] ++ (lit "TRUE" ++ (lit " " ++ 44 :: ([] ++ (lit "null" ++ ([] ++ [93])))))) [.boolean true,.null] := by
    refine .next blank_nil (.true ?_) blank (.last blank_nil (.null ?_) blank_nil)
    · simp [Word,lit]
    · simp [Word,lit]
  exact spelled_reads _ blank (.array elements) (fun n same => by cases same)

end CppSdk.TarsJsonGrammar

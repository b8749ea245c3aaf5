import CppSdk.TarsJsonGrammar
import Mathlib.Data.List.Forall2

/-!
The texts that `TC_Json` writes for values with integer numbers. They spell the values that they are
written for, so that these are read back from them exactly if the reader takes their numbers
(`text_back_iff`); the members of an object may come in any order.
-/
namespace CppSdk.TarsJsonRoundTrip
open CppSdk.ByteString CppSdk.Runtime CppSdk.Texts CppSdk.Cursors CppSdk.TarsJson CppSdk.TarsJsonSafety CppSdk.TarsJsonGrammar
open CppSdk.ReceiptJson (JsonValue)

/-! ### Values -/

/-- The values of the members or of the elements. -/
def children : JsonValue → List JsonValue
  | .obj members => members.map Prod.snd
  | .array elements => elements
  | _ => []
/-- Every value in the value satisfies the predicate. -/
inductive Everywhere (P : JsonValue → Prop) : JsonValue → Prop where
  | intro {v : JsonValue} (here : P v) (below : ∀ w ∈ children v, Everywhere P w) : Everywhere P v

/-- An object has one member of a name. -/
def Distinct (v : JsonValue) : Prop := Everywhere (fun v => ∀ members, v = .obj members → (members.map Prod.fst).Nodup) v
/-- There is no `JsonValueNull`. -/
def NoNull (v : JsonValue) : Prop := Everywhere (fun v => v ≠ .null) v
/-- The numbers are those that the reader takes. -/
def Ranged (v : JsonValue) : Prop := Everywhere (fun v => ∀ n, v = .num n → n.toInt.natAbs ≤ greatest) v
/-- A `uint32_t` counts the bytes of the strings and of the names. -/
def Brief (v : JsonValue) : Prop := Everywhere (fun v => (∀ s, v = .string s → s.length < 4294967296) ∧
  ∀ members, v = .obj members → ∀ m ∈ members, m.1.length < 4294967296) v

section
variable {P : JsonValue → Prop}

private theorem everywhere_iff {v : JsonValue} : Everywhere P v ↔ P v ∧ ∀ w ∈ children v, Everywhere P w := by
  constructor
  · intro all
    cases all with
    | intro here below => exact ⟨here,below⟩
  · exact fun ⟨here,below⟩ => .intro here below
theorem everywhere_leaf {v : JsonValue} (leaf : children v = []) : Everywhere P v ↔ P v := by
  rw [everywhere_iff,leaf]
  exact and_iff_left (fun _ member => absurd member List.not_mem_nil)
theorem everywhere_array {elements : List JsonValue} : Everywhere P (.array elements) ↔ P (.array elements) ∧ ∀ v ∈ elements, Everywhere P v :=
  everywhere_iff
theorem everywhere_obj {members : List (Bytes × JsonValue)} :
    Everywhere P (.obj members) ↔ P (.obj members) ∧ ∀ m ∈ members, Everywhere P m.2 :=
  everywhere_iff.trans (and_congr_right (fun _ => List.forall_mem_map))

theorem ranged_num {n : Int64} : Ranged (.num n) ↔ n.toInt.natAbs ≤ greatest := by
  refine (everywhere_leaf rfl).trans ⟨fun fits => fits n rfl,fun fits m same => ?_⟩
  cases same
  exact fits
theorem ranged_string (value : Bytes) : Ranged (.string value) := (everywhere_leaf rfl).mpr (fun _ same => by cases same)
private theorem ranged_boolean (value : Bool) : Ranged (.boolean value) := (everywhere_leaf rfl).mpr (fun _ same => by cases same)
theorem ranged_obj {members : List (Bytes × JsonValue)} : Ranged (.obj members) ↔ ∀ m ∈ members, Ranged m.2 :=
  everywhere_obj.trans (and_iff_right (fun _ same => by cases same))
theorem ranged_array {elements : List JsonValue} : Ranged (.array elements) ↔ ∀ v ∈ elements, Ranged v :=
  everywhere_array.trans (and_iff_right (fun _ same => by cases same))

private theorem brief_leaf {v : JsonValue} (leaf : children v = []) (string : ∀ s, v ≠ .string s) (obj : ∀ members, v ≠ .obj members) : Brief v :=
  (everywhere_leaf leaf).mpr ⟨fun s same => absurd same (string s),fun members same => absurd same (obj members)⟩
theorem brief_num (n : Int64) : Brief (.num n) := brief_leaf rfl (fun _ same => by cases same) (fun _ same => by cases same)
theorem brief_string {s : Bytes} : Brief (.string s) ↔ s.length < 4294967296 := by
  refine (everywhere_leaf rfl).trans ⟨fun brief => brief.1 s rfl,fun short => ⟨fun t same => ?_,fun _ same => absurd same (by simp)⟩⟩
  exact JsonValue.string.inj same ▸ short
theorem brief_array {elements : List JsonValue} : Brief (.array elements) ↔ ∀ v ∈ elements, Brief v :=
  everywhere_array.trans (and_iff_right ⟨fun _ same => absurd same (by simp),fun _ same => absurd same (by simp)⟩)
theorem brief_obj {members : List (Bytes × JsonValue)} :
    Brief (.obj members) ↔ (∀ m ∈ members, m.1.length < 4294967296) ∧ ∀ m ∈ members, Brief m.2 := by
  refine everywhere_obj.trans (and_congr_left (fun _ => ⟨fun brief => brief.2 members rfl,fun short => ?_⟩))
  exact ⟨fun _ same => absurd same (by simp),fun members' same => JsonValue.obj.inj same ▸ short⟩

end

/-- With distinct names an object has the members that were assigned. -/
theorem assigned_distinct {members : List (Bytes × JsonValue)} (distinct : (members.map Prod.fst).Nodup) : assigned members = members := by
  have each : ∀ front members : List (Bytes × JsonValue), ((front ++ members).map Prod.fst).Nodup →
      members.foldl (fun members p => assign members p.1 p.2) front = front ++ members := by
    intro front members
    induction members generalizing front with
    | nil => exact fun _ => (List.append_nil front).symm
    | cons p members ih =>
      intro distinct
      have kept : front.filter (fun q => q.1 ≠ p.1) = front := by
        refine List.filter_eq_self.mpr (fun q member => decide_eq_true (fun same => ?_))
        rw [List.map_append,List.nodup_append] at distinct
        exact distinct.2.2 q.1 (List.mem_map_of_mem member) p.1 (by simp) same
      rw [List.foldl_cons,assign,kept,ih]
      · simp
      · simpa using distinct
  exact each [] members distinct

/-! ### The values that are read -/

/-- One member of a name, and distinct ones in each value. -/
def KnownMembers (members : List (Bytes × JsonValue)) : Prop := (members.map Prod.fst).Nodup ∧ ∀ m ∈ members, Distinct m.2

theorem distinct_leaf {v : JsonValue} (leaf : children v = []) (other : ∀ members, v ≠ .obj members) : Distinct v :=
  (everywhere_leaf leaf).mpr (fun members same => absurd same (other members))
theorem distinct_array {elements : List JsonValue} : Distinct (.array elements) ↔ ∀ v ∈ elements, Distinct v :=
  everywhere_array.trans (and_iff_right (fun _ same => by cases same))
theorem distinct_obj {members : List (Bytes × JsonValue)} : Distinct (.obj members) ↔ KnownMembers members := by
  refine everywhere_obj.trans (and_congr_left (fun _ => ⟨fun distinct => distinct members rfl,?_⟩))
  rintro distinct members' same
  exact JsonValue.obj.inj same ▸ distinct

private theorem known_assign {members : List (Bytes × JsonValue)} (known : KnownMembers members) (key : Bytes) {v : JsonValue} (distinct : Distinct v) :
    KnownMembers (assign members key v) := by
  constructor
  · rw [assign,List.map_append,List.nodup_append]
    refine ⟨known.1.sublist ((List.filter_sublist).map Prod.fst),by simp,?_⟩
    rintro name kept other last rfl
    obtain ⟨m,member,rfl⟩ := List.mem_map.mp kept
    have differs := (List.mem_filter.mp member).2
    simp_all
  · intro m member
    rcases List.mem_append.mp member with kept | last
    · exact known.2 m (List.mem_filter.mp kept).1
    · obtain rfl := List.mem_singleton.mp last
      exact distinct

section
variable (D : Doubles)

private theorem returns_objRound {getValue : JsonRead JsonValue} (value : Returns (fun v _ => Distinct v) getValue)
    {s : List (Bytes × JsonValue) × Bool} (known : KnownMembers s.1) :
    Returns (fun step _ => Sum.elim (fun s => KnownMembers s.1) KnownMembers step) (objRound getValue s) := by
  have next : ∀ members, KnownMembers members → Returns (fun step _ => Sum.elim (fun s => KnownMembers s.1) KnownMembers step) (objNext members) := by
    intro members known
    refine returns_then (returns_any readToken) (fun c _ => ?_)
    split_ifs
    · exact returns_pure (fun _ => known)
    · exact returns_pure (fun _ => known)
    · exact returns_throwAt
  refine returns_then (returns_any readToken) (fun c _ => ?_)
  unfold objMember
  split_ifs
  · exact returns_pure (fun _ => known)
  · exact returns_throwAt
  · refine returns_then (returns_any (getString 34)) (fun key _ => returns_then (returns_any readToken) (fun c _ => ?_))
    split_ifs
    · exact returns_throwAt
    · exact returns_then value (fun v distinct => next _ (known_assign known key distinct))
private theorem returns_arrayRound {getValue : JsonRead JsonValue} (value : Returns (fun v _ => Distinct v) getValue) {elements : List JsonValue}
    (known : ∀ v ∈ elements, Distinct v) :
    Returns (fun step _ => Sum.elim (fun elements => ∀ v ∈ elements, Distinct v) (fun elements => ∀ v ∈ elements, Distinct v) step)
      (arrayRound getValue elements) := by
  refine returns_then value (fun v distinct => returns_then (returns_any readToken) (fun c _ => ?_))
  have all : ∀ w ∈ elements ++ [v], Distinct w := by
    intro w member
    rcases List.mem_append.mp member with before | last
    · exact known w before
    · exact List.mem_singleton.mp last ▸ distinct
  split_ifs
  · exact returns_pure (fun _ => all)
  · exact returns_pure (fun _ => all)
  · exact returns_throwAt

private theorem returns_getValueFuel (fuel : Nat) : Returns (fun v _ => Distinct v) (getValueFuel D fuel) := by
  induction fuel with
  | zero => exact returns_throw _
  | succ fuel ih =>
    refine returns_then (returns_any readToken) (fun c _ => ?_)
    unfold valueFrom
    split_ifs
    · refine returns_map (P := fun v _ => Distinct v) ?_
      simp only [distinct_obj]
      exact returns_loop (fun s known => returns_objRound ih known) ⟨by simp,by simp⟩
    · refine returns_map (P := fun v _ => Distinct v) ?_
      simp only [distinct_array]
      refine returns_then (returns_any endsArray) (fun ended _ => ?_)
      split_ifs
      · exact returns_pure (fun _ => by simp)
      · exact returns_loop (fun elements known => returns_arrayRound ih known) (by simp)
    · exact returns_map (fun _ _ _ _ => distinct_leaf rfl (fun _ same => by cases same))
    · exact returns_map (fun _ _ _ _ => distinct_leaf rfl (fun _ same => by cases same))
    · exact returns_map (fun _ _ _ _ => distinct_leaf rfl (fun _ same => by cases same))
    · exact returns_map (fun _ _ _ _ => distinct_leaf rfl (fun _ same => by cases same))
    · exact returns_throwAt
/-- Whatever the text, an object that is read has one member of a name. -/
theorem read_distinct {str : Bytes} {v : JsonValue} (read : getValueOf D str = .ok v) : Distinct v := by
  have ran := getValue_run D ⟨str,0⟩
  have outcome : ((TarsJson.getValue D).run ⟨str,0⟩).1 = .ok v := read
  rw [ran] at outcome
  exact returns_getValueFuel D (str.length + 1) ⟨str,0⟩ v _ (Prod.ext outcome rfl)

end

/-! ### Strings -/

private theorem hexDigit_spells {n : Nat} (small : n < 16) : HexDigit (hexDigit n) n := by
  have digit := hexDigit_toNat small
  by_cases decimal : n < 10
  · rw [if_pos decimal] at digit
    have spells := HexDigit.decimal (c := hexDigit n) (UInt8.le_iff_toNat_le.mpr (by rw [digit]; simp))
      (UInt8.le_iff_toNat_le.mpr (by rw [digit]; simp; omega))
    rwa [digit,show 48 + n - 48 = n by omega] at spells
  · rw [if_neg decimal] at digit
    have spells := HexDigit.lower (c := hexDigit n) (UInt8.le_iff_toNat_le.mpr (by rw [digit]; simp; omega))
      (UInt8.le_iff_toNat_le.mpr (by rw [digit]; simp; omega))
    rwa [digit,show 87 + n - 87 = n by omega] at spells

/-- What is written for a character spells it. -/
theorem escape_spells (c : UInt8) : Character (escape c) [c] := by
  unfold escape
  by_cases quote : c = 34
  · rw [if_pos quote,quote]
    exact @Character.itself 34 (.inl rfl)
  rw [if_neg quote]
  by_cases backslash : c = 92
  · rw [if_pos backslash,backslash]
    exact @Character.itself 92 (.inr (.inl rfl))
  rw [if_neg backslash]
  by_cases slash : c = 47
  · rw [if_pos slash,slash]
    exact @Character.itself 47 (.inr (.inr rfl))
  rw [if_neg slash]
  by_cases b : c = 8
  · rw [if_pos b,b]
    exact @Character.control 98 8 (by simp [controls])
  rw [if_neg b]
  by_cases f : c = 12
  · rw [if_pos f,f]
    exact @Character.control 102 12 (by simp [controls])
  rw [if_neg f]
  by_cases n : c = 10
  · rw [if_pos n,n]
    exact @Character.control 110 10 (by simp [controls])
  rw [if_neg n]
  by_cases r : c = 13
  · rw [if_pos r,r]
    exact @Character.control 114 13 (by simp [controls])
  rw [if_neg r]
  by_cases t : c = 9
  · rw [if_pos t,t]
    exact @Character.control 116 9 (by simp [controls])
  rw [if_neg t]
  by_cases control : c < 32
  · have small : c.toNat < 32 := control
    have spells := Character.code (hexDigit_spells (show 0 < 16 by decide)) (hexDigit_spells (show 0 < 16 by decide))
      (hexDigit_spells (show c.toNat / 16 < 16 by omega)) (hexDigit_spells (show c.toNat % 16 < 16 by omega))
    have code : ((0 * 16 + 0) * 16 + c.toNat / 16) * 16 + c.toNat % 16 = c.toNat := by omega
    have byte : codeBytes c.toNat = [c] := by
      rw [codeBytes,if_pos (by omega),Nat.mod_eq_of_lt (by omega),UInt8.ofNat_toNat]
    rw [code,byte] at spells
    rw [if_pos control]
    exact spells
  · rw [if_neg control]
    exact .plain quote backslash

private theorem characters_spell (s : Bytes) : Characters (s.flatMap escape) s := by
  induction s with
  | nil => exact .nil
  | cons c s ih => exact .cons (escape_spells c) ih
private theorem writeString_spells {s : Bytes} (short : s.length < 4294967296) : Quoted (writeString s) s := ⟨_,characters_spell s,short,rfl⟩

private theorem intText_spells (n : Int) : Numeral (intText n) n := by
  have decimal := stdToString_decimal n.natAbs
  rw [intText]
  split_ifs with negative
  · have numeral := Numeral.negative decimal
    rw [digitsValue_stdToString] at numeral
    rwa [show -(n.natAbs : Int) = n by omega] at numeral
  · have numeral := Numeral.positive decimal
    rw [digitsValue_stdToString] at numeral
    rwa [show (n.natAbs : Int) = n by omega] at numeral

/-! ### What overflows -/

section
variable (D : Doubles)

/-- A value whose text leads the reader to an operation that is not defined. -/
def Overflows (p : Bytes) : Prop := ∃ c q, p = c :: q ∧ isspace c = false ∧ c ≠ 93 ∧
  ∀ rest, Fails (valueFrom D (TarsJson.getValue D) c) (q ++ rest) .undefined
/-- The same for the text of elements, behind a blank that may have been read. -/
def OverflowsElements (p : Bytes) : Prop := ∃ b c q, p = b ++ c :: q ∧ Blank b ∧ isspace c = false ∧ c ≠ 93 ∧
  ∀ b', Blank b' → ∀ elements rest,
    LoopFails .diverges (arrayRound (TarsJson.getValue D)) elements (b' ++ c :: (q ++ rest)) .undefined
/-- The same for the text of members. -/
def OverflowsMembers (p : Bytes) : Prop := ∀ assigned bFirst rest,
  LoopFails .diverges (objRound (TarsJson.getValue D)) (assigned,bFirst) (p ++ rest) .undefined

private theorem overflows_fails {p : Bytes} (overflows : Overflows D p) {b : Bytes} (blank : Blank b) (rest : Bytes) :
    Fails (TarsJson.getValue D) (b ++ (p ++ rest)) .undefined := by
  obtain ⟨c,q,rfl,solid,_,fails⟩ := overflows
  exact fails_getValue D (fails_later (reads_readToken blank solid (q ++ rest)) (fails rest))
private theorem overflows_num {p : Bytes} {n : Int} (numeral : Numeral p n) (large : greatest < n.natAbs) : Overflows D p := by
  obtain ⟨c,q,rfl,first,_,fails⟩ := numeral_getNum D numeral
  obtain ⟨same,bracket⟩ := valueFrom_digit D first
  refine ⟨c,q,rfl,isspace_digit first,bracket,fun rest => ?_⟩
  rw [same]
  exact fails_map (fails large rest) _
private theorem overflows_array {p : Bytes} (overflows : OverflowsElements D p) : Overflows D (91 :: p) := by
  obtain ⟨b,c,q,rfl,blank,solid,other,loops⟩ := overflows
  refine ⟨91,_,rfl,rfl,by decide,fun rest => fails_map ?_ JsonValue.array⟩
  rw [List.append_assoc]
  exact fails_later (reads_endsArray blank solid other (q ++ rest)) (fails_loop (loops [] (by simp [Blank]) [] rest))
private theorem overflows_obj {p : Bytes} (overflows : OverflowsMembers D p) : Overflows D (123 :: p) :=
  ⟨123,p,rfl,rfl,by decide,fun rest => fails_map (fails_loop (overflows [] true rest)) JsonValue.obj⟩

private theorem overflows_first {b p more : Bytes} (before : Blank b) (overflows : Overflows D p) : OverflowsElements D (b ++ (p ++ more)) := by
  obtain ⟨c,q,rfl,solid,other,fails⟩ := overflows
  refine ⟨b,c,q ++ more,rfl,before,solid,other,fun b' blank elements rest => loopFails_now (fails_first ?_)⟩
  rw [List.append_assoc]
  exact overflows_fails D ⟨c,q,rfl,solid,other,fails⟩ blank (more ++ rest)
private theorem overflows_later {b p b' q : Bytes} {v : JsonValue} (before : Blank b) (begins : Begins D p v) (behind : Blank b')
    (overflows : OverflowsElements D q) : OverflowsElements D (b ++ (p ++ (b' ++ 44 :: q))) := by
  obtain ⟨d,e,s,rfl,space,_,_,loops⟩ := overflows
  obtain ⟨c,t,text,solid,other,same⟩ := begins_append D begins b (b' ++ 44 :: (d ++ e :: s))
  refine ⟨b,c,t,text,before,solid,other,fun b'' blank elements rest => ?_⟩
  have whole : b'' ++ c :: (t ++ rest) = b'' ++ (p ++ (b' ++ 44 :: (d ++ e :: (s ++ rest)))) := by
    rw [← List.cons_append,← same]
    simp
  rw [whole]
  refine loopFails_next (reads_arrayRound D begins blank behind (.inl rfl) elements) ?_ (loops d space (elements ++ [v]) rest)
  simp only [List.length_append,List.length_cons]
  omega

private theorem overflows_firstMember {b k b' b'' p more key : Bytes} (before : Blank b) (name : Quoted k key) (colon : Blank b') (space : Blank b'')
    (overflows : Overflows D p) : OverflowsMembers D (b ++ (k ++ (b' ++ 58 :: (b'' ++ (p ++ more))))) := by
  intro assigned bFirst rest
  obtain ⟨body,characters,short,rfl⟩ := name
  simp only [List.append_assoc,List.cons_append]
  refine loopFails_now (fails_later (reads_readToken before rfl _) ?_)
  have key := takes_getString characters short (b' ++ 58 :: (b'' ++ (p ++ (more ++ rest))))
  simp only [List.append_assoc] at key
  exact fails_later key (fails_later (reads_readToken colon rfl _) (fails_first (overflows_fails D overflows space _)))
private theorem overflows_laterMember {b k b' b'' p z q key : Bytes} {v : JsonValue} (before : Blank b) (name : Quoted k key) (colon : Blank b')
    (space : Blank b'') (begins : Begins D p v) (behind : Blank z) (overflows : OverflowsMembers D q) :
    OverflowsMembers D (b ++ (k ++ (b' ++ 58 :: (b'' ++ (p ++ (z ++ 44 :: q)))))) := by
  intro assigned bFirst rest
  simp only [List.append_assoc,List.cons_append]
  refine loopFails_next (reads_objRound D before name colon space begins behind (.inl rfl) assigned bFirst) ?_ (overflows _ false rest)
  simp only [List.length_append,List.length_cons]
  omega

/-! ### What is written -/

/-- The space after a mark. -/
def space (withSpace : Bool) : Bytes := if withSpace then lit " " else []
private theorem blank_space (withSpace : Bool) : Blank (space withSpace) := by
  cases withSpace with
  | false => exact fun _ member => absurd member List.not_mem_nil
  | true =>
    intro c member
    obtain rfl := List.mem_singleton.mp member
    rfl

/-- The text that is written for a value: it spells the value, unless there is a number that the reader does not take. -/
structure Written (v : JsonValue) (text : Bytes) : Prop where
  spells : Ranged v → Spells text v
  overflows : ¬ Ranged v → Overflows D text

private theorem writeElements_written {ndebug : Bool} (withSpace : Bool) {elements : List JsonValue}
    (each : ∀ v ∈ elements, ∃ text, writeValue ndebug false v = .ok text ∧ Written D v text) (some : elements ≠ []) :
    ∃ text, writeElements ndebug withSpace elements = .ok text ∧
      ((∀ v ∈ elements, Ranged v) → SpellsElements (space withSpace ++ (text ++ (space withSpace ++ [93]))) elements) ∧
      ((¬ ∀ v ∈ elements, Ranged v) → OverflowsElements D (space withSpace ++ (text ++ (space withSpace ++ [93])))) := by
  induction elements with
  | nil => exact absurd rfl some
  | cons v elements ih =>
    obtain ⟨⟨text,written,here⟩,later⟩ := List.forall_mem_cons.mp each
    cases elements with
    | nil =>
      refine ⟨text,by rw [writeElements,written],fun all => ?_,fun none => ?_⟩
      · exact .last (blank_space withSpace) (here.spells (all v List.mem_cons_self)) (blank_space withSpace)
      · refine overflows_first D (blank_space withSpace) (here.overflows (fun ranged => none ?_))
        simpa using ranged
    | cons w elements =>
      obtain ⟨more,rest,spells,overflows⟩ := ih later (by simp)
      have joined : space withSpace ++ ((text ++ mark withSpace "," ++ more) ++ (space withSpace ++ [93])) =
          space withSpace ++ (text ++ ([] ++ 44 :: (space withSpace ++ (more ++ (space withSpace ++ [93]))))) := by
        rw [show mark withSpace "," = 44 :: space withSpace from rfl]
        simp
      refine ⟨text ++ mark withSpace "," ++ more,by rw [writeElements,written,ok_bind,rest,ok_bind]; simp,fun all => ?_,fun none => ?_⟩
      · obtain ⟨first,others⟩ := List.forall_mem_cons.mp all
        rw [joined]
        exact .next (blank_space withSpace) (here.spells first) blank_nil (spells others)
      · rw [joined]
        by_cases first : Ranged v
        · refine overflows_later D (blank_space withSpace) (spelled_begins D (here.spells first)) blank_nil (overflows (fun others => none ?_))
          exact List.forall_mem_cons.mpr ⟨first,others⟩
        · exact overflows_first D (blank_space withSpace) (here.overflows first)
private theorem writeMembers_written {ndebug : Bool} (withSpace : Bool) {members : List (Bytes × JsonValue)}
    (short : ∀ m ∈ members, m.1.length < 4294967296)
    (each : ∀ m ∈ members, ∃ text, writeValue ndebug false m.2 = .ok text ∧ Written D m.2 text) (some : members ≠ []) :
    ∃ text, writeMembers ndebug withSpace members = .ok text ∧
      ((∀ m ∈ members, Ranged m.2) → SpellsMembers (space withSpace ++ (text ++ (space withSpace ++ [125]))) members) ∧
      ((¬ ∀ m ∈ members, Ranged m.2) → OverflowsMembers D (space withSpace ++ (text ++ (space withSpace ++ [125])))) := by
  induction members with
  | nil => exact absurd rfl some
  | cons m members ih =>
    obtain ⟨key,v⟩ := m
    obtain ⟨⟨text,written,here⟩,later⟩ := List.forall_mem_cons.mp each
    obtain ⟨first,others⟩ := List.forall_mem_cons.mp short
    have name : Quoted (writeString key) key := writeString_spells first
    have blank := blank_space withSpace
    have colon : mark withSpace ":" = 58 :: space withSpace := rfl
    cases members with
    | nil =>
      have joined : space withSpace ++ ((writeString key ++ mark withSpace ":" ++ text) ++ (space withSpace ++ [125])) =
          space withSpace ++ (writeString key ++ ([] ++ 58 :: (space withSpace ++ (text ++ (space withSpace ++ [125]))))) := by
        rw [colon]
        simp
      refine ⟨writeString key ++ mark withSpace ":" ++ text,by rw [writeMembers,written,ok_bind],fun all => ?_,fun none => ?_⟩
      · rw [joined]
        exact .last blank name blank_nil blank (here.spells (all (key,v) List.mem_cons_self)) blank
      · rw [joined]
        refine overflows_firstMember D blank name blank_nil blank (here.overflows (fun ranged => none ?_))
        simpa using ranged
    | cons w members =>
      obtain ⟨more,rest,spells,overflows⟩ := ih others later (by simp)
      have joined : space withSpace ++ ((writeString key ++ mark withSpace ":" ++ text ++ mark withSpace "," ++ more) ++
            (space withSpace ++ [125])) =
          space withSpace ++ (writeString key ++ ([] ++ 58 :: (space withSpace ++ (text ++ ([] ++ 44 :: (space withSpace ++
            (more ++ (space withSpace ++ [125])))))))) := by
        rw [colon,show mark withSpace "," = 44 :: space withSpace from rfl]
        simp
      refine ⟨_,by rw [writeMembers,written,ok_bind,rest,ok_bind]; simp,fun all => ?_,fun none => ?_⟩
      · obtain ⟨ranged,rangedOthers⟩ := List.forall_mem_cons.mp all
        rw [joined]
        exact .next blank name blank_nil blank (here.spells ranged) blank_nil (spells rangedOthers)
      · rw [joined]
        by_cases ranged : Ranged v
        · refine overflows_laterMember D blank name blank_nil blank (spelled_begins D (here.spells ranged)) blank_nil
            (overflows (fun rangedOthers => none ?_))
          exact List.forall_mem_cons.mpr ⟨ranged,rangedOthers⟩
        · exact overflows_firstMember D blank name blank_nil blank (here.overflows ranged)

/-- Every value without a `JsonValueNull` is written. -/
theorem value_written {v : JsonValue} (distinct : Distinct v) (noNull : NoNull v) (brief : Brief v) (ndebug withSpace : Bool) :
    ∃ text, writeValue ndebug withSpace v = .ok text ∧ Written D v text := by
  induction v using JsonValue.induct generalizing withSpace with
  | string value =>
    refine ⟨writeString value,rfl,fun _ => .string (writeString_spells (brief_string.mp brief)),fun wide => ?_⟩
    exact absurd (ranged_string value) wide
  | num lvalue =>
    refine ⟨intText lvalue.toInt,rfl,fun ranged => ?_,fun wide => ?_⟩
    · have spells := Spells.num (intText_spells lvalue.toInt) (ranged_num.mp ranged)
      rwa [Int64.ofInt_toInt] at spells
    · exact overflows_num D (intText_spells lvalue.toInt) (Nat.lt_of_not_le (fun fits => wide (ranged_num.mpr fits)))
  | boolean value =>
    refine ⟨writeBoolean value,rfl,fun _ => ?_,fun wide => absurd (ranged_boolean value) wide⟩
    cases value with
    | true => exact .true (List.forall₂_same.mpr (fun _ _ => .inl rfl))
    | false => exact .false (List.forall₂_same.mpr (fun _ _ => .inl rfl))
  | null => exact absurd rfl ((everywhere_leaf rfl).mp noNull)
  | array elements ih =>
    have each : ∀ v ∈ elements, ∃ text, writeValue ndebug false v = .ok text ∧ Written D v text :=
      fun v member => ih v member ((everywhere_array.mp distinct).2 v member) ((everywhere_array.mp noNull).2 v member)
        (brief_array.mp brief v member) false
    by_cases some : elements = []
    · subst some
      refine ⟨mark withSpace "[" ++ [] ++ close withSpace "]",rfl,fun _ => ?_,fun wide => absurd (ranged_array.mpr (by simp)) wide⟩
      have spells := Spells.noElements (b := space withSpace ++ space withSpace) (fun c member =>
        (List.mem_append.mp member).elim (blank_space withSpace c) (blank_space withSpace c))
      simpa [mark,close,space,lit] using spells
    · obtain ⟨text,written,spells,overflows⟩ := writeElements_written D withSpace each some
      refine ⟨mark withSpace "[" ++ text ++ close withSpace "]",by rw [writeValue,written,ok_bind],fun ranged => ?_,fun wide => ?_⟩
      · have array := Spells.array (spells (ranged_array.mp ranged))
        simpa [mark,close,space,lit] using array
      · have array := overflows_array D (overflows (fun all => wide (ranged_array.mpr all)))
        simpa [mark,close,space,lit] using array
  | obj members ih =>
    have each : ∀ m ∈ members, ∃ text, writeValue ndebug false m.2 = .ok text ∧ Written D m.2 text :=
      fun m member => ih m member ((everywhere_obj.mp distinct).2 m member) ((everywhere_obj.mp noNull).2 m member)
        ((brief_obj.mp brief).2 m member) false
    by_cases some : members = []
    · subst some
      refine ⟨mark withSpace "\x7b" ++ [] ++ close withSpace "\x7d",rfl,fun _ => ?_,fun wide => absurd (ranged_obj.mpr (by simp)) wide⟩
      have spells := Spells.noMembers (b := space withSpace ++ space withSpace) (fun c member =>
        (List.mem_append.mp member).elim (blank_space withSpace c) (blank_space withSpace c))
      simpa [mark,close,space,lit] using spells
    · obtain ⟨text,written,spells,overflows⟩ := writeMembers_written D withSpace (brief_obj.mp brief).1 each some
      refine ⟨mark withSpace "\x7b" ++ text ++ close withSpace "\x7d",by rw [writeValue,written,ok_bind],fun ranged => ?_,fun wide => ?_⟩
      · have obj := Spells.obj (spells (ranged_obj.mp ranged))
        rw [assigned_distinct ((everywhere_obj.mp distinct).1 members rfl)] at obj
        simpa [mark,close,space,lit] using obj
      · have obj := overflows_obj D (overflows (fun all => wide (ranged_obj.mpr all)))
        simpa [mark,close,space,lit] using obj

/-- The text that is written for a value is read as it exactly if the reader takes its numbers; otherwise the reader
    comes to an operation that is not defined. -/
theorem written_back {v : JsonValue} {text : Bytes} (written : Written D v text) :
    (getValueOf D text = .ok v ↔ Ranged v) ∧ (getValueOf D text = .error .undefined ↔ ¬ Ranged v) := by
  by_cases ranged : Ranged v
  · have ends : Ends v [] := fun _ _ c q same => by cases same
    obtain ⟨_,_,ran⟩ := begins_reads D (spelled_begins D (written.spells ranged)) blank_nil ends []
    rw [List.nil_append,List.append_nil] at ran
    have read : getValueOf D text = .ok v := congrArg Prod.fst ran
    rw [read]
    exact ⟨⟨fun _ => ranged,fun _ => rfl⟩,⟨fun failed => absurd failed (by simp),fun wide => absurd ranged wide⟩⟩
  · obtain ⟨_,ran⟩ := overflows_fails D (written.overflows ranged) blank_nil [] []
    rw [List.nil_append,List.append_nil] at ran
    have read : getValueOf D text = .error .undefined := congrArg Prod.fst ran
    rw [read]
    exact ⟨⟨fun failed => absurd failed (by simp),fun all => absurd all ranged⟩,⟨fun _ => ranged,fun _ => rfl⟩⟩

/-- A value with integer numbers is read back from the text that is written for it exactly if the reader takes these;
    otherwise the reader comes to an operation that is not defined. -/
theorem text_back_iff {v : JsonValue} (distinct : Distinct v) (noNull : NoNull v) (brief : Brief v) (ndebug withSpace : Bool) :
    ∃ text, writeValue ndebug withSpace v = .ok text ∧ (getValueOf D text = .ok v ↔ Ranged v) ∧
      (getValueOf D text = .error .undefined ↔ ¬ Ranged v) := by
  obtain ⟨text,wrote,written⟩ := value_written D distinct noNull brief ndebug withSpace
  exact ⟨text,wrote,written_back D written⟩

end

/-- An object with the greatest number of `int64_t`. -/
theorem text_back_iff_member :
    ∃ text, writeValue true true (.obj [(lit "n",.num 9223372036854775807)]) = .ok text ∧
      (getValueOf ⟨fun _ _ _ _ => none⟩ text = .ok (.obj [(lit "n",.num 9223372036854775807)]) ↔
        Ranged (.obj [(lit "n",.num 9223372036854775807)])) ∧
      (getValueOf ⟨fun _ _ _ _ => none⟩ text = .error .undefined ↔ ¬ Ranged (.obj [(lit "n",.num 9223372036854775807)])) := by
  have number : ∀ m ∈ [(lit "n",JsonValue.num 9223372036854775807)],
      children m.2 = [] ∧ m.2 ≠ .null ∧ (∀ s, m.2 ≠ .string s) ∧ ∀ members, m.2 ≠ .obj members := by simp [children]
  refine text_back_iff _ (distinct_obj.mpr ⟨by simp,fun m member => ?_⟩)
    (everywhere_obj.mpr ⟨by simp,fun m member => (everywhere_leaf (number m member).1).mpr (number m member).2.1⟩)
    (brief_obj.mpr ⟨by simp [lit],fun m member => ?_⟩) true true
  · exact distinct_leaf (number m member).1 (number m member).2.2.2
  · exact brief_leaf (number m member).1 (number m member).2.2.1 (number m member).2.2.2

end CppSdk.TarsJsonRoundTrip

import CppSdk.TarsJson

/-!
No text makes the reader of JSON leave the text, fail an `assert` or run for ever: it returns or
throws, unless a number does not fit (`getValue_ends`). The bound on the depth of `getValue` plays
no part (`getValue_eq`).
-/
namespace CppSdk.TarsJsonSafety
open CppSdk.ByteString CppSdk.Runtime CppSdk.Texts CppSdk.Cursors CppSdk.TarsJson
open CppSdk.ReceiptJson (JsonValue)

variable {α β : Type} {left : Nat}

/-- The texts of the exceptions, around a number. -/
def messages : List (String × String) :=
  [("buffer overflow when peekBuf, over ","."),("get obj error(key is not string)[pos:","]"),("get obj error(: not find)[pos:","]"),
    ("get obj error(, not find)[pos:","]"),("get vector error(, not find )[pos:","]"),("get string error3(\\u)[pos:","]"),
    ("get num error[pos:","]"),("get bool error[pos:","]"),("get NULL error[pos:","]")]
/-- The failures of the reader: its exceptions, and operations on numbers that the language does not define. -/
def JsonFailure (failure : Failure) : Prop :=
  (∃ message ∈ messages, ∃ n, failure = exception message.1 n message.2) ∨ failure = .undefined
/-- The two reads agree, and fail as the reader may, where fewer bytes are left. -/
abbrev Agree (left : Nat) (x y : JsonRead α) : Prop := Settles JsonFailure 0 0 left x y

/-! ### Characters -/

theorem read_inside {r : Buffered} (inside : r.cur < r.buf.length) :
    read.run r = (.ok r.buf[r.cur],{ r with cur := r.cur + 1 }) := by
  rw [TarsJson.read,run_get,List.getElem?_eq_getElem inside]
  rfl
private theorem read_outside {r : Buffered} (outside : r.buf.length ≤ r.cur) :
    read.run r = (.error (exception "buffer overflow when peekBuf, over " r.buf.length "."),r) := by
  rw [TarsJson.read,run_get,List.getElem?_eq_none outside]
  rfl
theorem back_run {r : Buffered} (moved : 0 < r.cur) : back.run r = (.ok (),{ r with cur := r.cur - 1 }) := by
  have ran : back.run r = (asserts "_cur>0" (decide (0 < r.cur)) >>= fun _ => set { r with cur := r.cur - 1 } : JsonRead Unit).run r := rfl
  rw [ran,asserts,decide_eq_true moved]
  rfl
theorem hasEnd_run (r : Buffered) : hasEnd.run r = (.ok (decide (r.buf.length ≤ r.cur)),r) := rfl

private theorem message_thrown {before after : String} (known : (before,after) ∈ messages) (n : Nat) : JsonFailure (exception before n after) :=
  .inl ⟨(before,after),known,n,rfl⟩
private theorem agree_throwAt {before after : String} (known : (before,after) ∈ messages) :
    Agree left (throwAt before after : JsonRead α) (throwAt before after) :=
  settles_get (fun r => settles_throw (message_thrown known r.cur))

theorem returns_throwAt {P : α → Buffered → Prop} {before after : String} : Returns P (throwAt before after : JsonRead α) :=
  returns_then (returns_any get) (fun _ _ => returns_throw _)

private theorem agree_read : Agree left read read := by
  intro r starts _
  refine ⟨rfl,?_⟩
  by_cases inside : r.cur < r.buf.length
  · rw [read_inside inside]
    exact ⟨rfl,Nat.le_succ _,inside,fun _ failed => by cases failed⟩
  · rw [read_outside (by omega)]
    refine ⟨rfl,Nat.le_refl _,starts,fun e failed => ?_⟩
    obtain rfl := Except.error.inj failed
    exact message_thrown (by simp [messages]) _
private theorem moves_read : Moves read := by
  intro r c after ran
  by_cases inside : r.cur < r.buf.length
  · rw [read_inside inside] at ran
    obtain rfl := (Prod.mk.inj ran).2
    exact ⟨Nat.lt_succ_self _,inside⟩
  · rw [read_outside (by omega)] at ran
    cases ran
theorem agree_hasEnd : Agree left hasEnd hasEnd := settles_get (fun _ => settles_pure _)

/-- A loop of which every round reads a character first. -/
theorem agree_rounds {σ : Type} {f : σ → UInt8 → JsonRead (σ ⊕ β)} (later : ∀ left s c, Agree left (f s c) (f s c)) (s : σ) :
    Agree left (loop .diverges (fun s => read >>= f s) s) (loop .diverges (fun s => read >>= f s) s) := by
  have looped : Agree (left + 1) (loop .diverges (fun s => read >>= f s) s) (loop .diverges (fun s => read >>= f s) s) := by
    refine settles_loop (fun s => settles_bind agree_read (later _ s)) (fun s => ?_) s
    exact progresses_moved agree_read moves_read (fun c => ⟨_,later left s c⟩)
  exact settles_mono looped le_rfl (Nat.le_succ left)

private theorem agree_readToken : Agree left readToken readToken := agree_rounds (fun _ _ _ => settles_pure _) ()
private theorem moves_readToken : Moves readToken := by
  have round : ∀ s : Unit, Relates (fun r step after => Sum.elim (fun _ => r.cur < after.cur)
      (fun _ => r.cur < after.cur ∧ after.Inside) step) (do
        let c ← read
        pure (if isspace c then .inl s else .inr c) : JsonRead (Unit ⊕ UInt8)) := by
    intro s
    refine relates_bind (Q := fun r _ after => after = r) moves_read (fun c => relates_pure (fun _ => rfl)) ?_
    rintro r c middle step _ moved rfl
    cases step with
    | inl _ => exact moved.1
    | inr _ => exact moved
  exact relates_loop (P := fun r _ after => r.cur < after.cur ∧ after.Inside) (R := fun r after => r.cur < after.cur) round
    (fun r middle c after moved later => ⟨lt_trans moved later.1,later.2⟩) ()

/-! ### Strings and words -/

private theorem agree_addHex (iCode : Nat) : Agree left (addHex iCode) (addHex iCode) := by
  refine settles_bind agree_read (fun c => ?_)
  split_ifs
  · exact settles_pure _
  · exact settles_pure _
  · exact settles_pure _
  · exact agree_throwAt (by simp [messages])
private theorem agree_getHex : Agree left getHex getHex :=
  settles_bind (agree_addHex 0) (fun a => settles_bind (agree_addHex a) (fun b => settles_bind (agree_addHex b) (fun c => agree_addHex c)))
private theorem agree_readEscape (c : UInt8) : Agree left (readEscape c) (readEscape c) := by
  unfold readEscape
  split_ifs
  · exact settles_pure _
  · exact settles_pure _
  · exact settles_pure _
  · exact settles_pure _
  · exact settles_pure _
  · exact settles_pure _
  · exact settles_get (fun r => settles_bind agree_getHex (fun iCode => settles_pure _))
  · exact settles_pure _
private theorem agree_stringCharacter (head : UInt8) (s : StringState) (c : UInt8) :
    Agree left (stringCharacter head s c) (stringCharacter head s c) := by
  unfold stringCharacter
  split_ifs
  · exact settles_bind agree_read (fun c => settles_bind (agree_readEscape c) (fun escape => settles_pure _))
  · exact settles_pure _
  · exact settles_pure _
private theorem agree_getString (head : UInt8) : Agree left (getString head) (getString head) :=
  agree_rounds (fun _ => agree_stringCharacter head) _

private theorem agree_letters (word : Bytes) : Agree left (letters word) (letters word) := by
  induction word with
  | nil => exact settles_pure true
  | cons letter rest ih =>
    refine settles_bind agree_read (fun c => ?_)
    split_ifs
    · exact ih
    · exact settles_pure false
private theorem agree_booleanLetters (c : UInt8) : Agree left (booleanLetters c) (booleanLetters c) := by
  unfold booleanLetters
  split_ifs
  · exact agree_letters _
  · exact agree_letters _
  · exact settles_pure false
private theorem agree_getBoolean (c : UInt8) : Agree left (getBoolean c) (getBoolean c) := by
  refine settles_bind (agree_booleanLetters c) (fun bOk => ?_)
  split_ifs
  · exact settles_pure _
  · exact agree_throwAt (by simp [messages])
private theorem agree_getNull {c : UInt8} (letter : c = 110 ∨ c = 78) : Agree left (getNull c) (getNull c) := by
  have holds : (c == 110 || c == 78) = true := by simpa using letter
  unfold getNull
  rw [asserts,holds,if_pos rfl]
  refine settles_bind (settles_pure ()) (fun _ => settles_bind (agree_letters _) (fun bOk => ?_))
  split_ifs
  · exact settles_pure ()
  · exact agree_throwAt (by simp [messages])

/-! ### Numbers -/

private theorem agree_int64 (n : Int) : Agree left (int64 n) (int64 n) := by
  unfold int64
  split_ifs
  · exact settles_pure n
  · exact settles_throw (.inr rfl)
private theorem agree_addDigit (n : Int) (c : UInt8) : Agree left (addDigit n c) (addDigit n c) :=
  settles_bind (agree_int64 _) (fun _ => settles_bind (agree_int64 _) (fun _ => agree_int64 _))
private theorem agree_numDigit (s : NumState) (c : UInt8) : Agree left (numDigit s c) (numDigit s c) := by
  unfold numDigit
  split_ifs
  · exact settles_bind (agree_addDigit _ c) (fun _ => settles_pure _)
  · exact settles_pure _
  · exact settles_bind (agree_addDigit _ c) (fun _ => settles_pure _)
private theorem agree_numExponent (s : NumState) : Agree left (numExponent s) (numExponent s) := by
  refine settles_bind agree_hasEnd (fun ended => ?_)
  split_ifs
  · exact settles_pure _
  · refine settles_bind agree_read (fun c => ?_)
    split_ifs
    · exact settles_pure _
    · exact settles_pure _
    · exact settles_pure _
    · exact settles_pure _

private theorem agree_numCharacter (s : NumState) (c : UInt8) : Agree left (numCharacter s c) (numCharacter s c) := by
  unfold numCharacter
  split_ifs
  · exact settles_map (agree_numDigit s c)
  · exact settles_pure _
  · exact agree_numExponent s
  · exact settles_pure _

private theorem numRound_run (s : NumState) (r : Buffered) : (numRound s).run r =
    if r.buf.length ≤ r.cur then (pure (.inr (s,false)) : JsonRead _).run r else (TarsJson.read >>= numCharacter s).run r := by
  have ran : (numRound s).run r = (if decide (r.buf.length ≤ r.cur) = true then pure (.inr (s,false))
      else TarsJson.read >>= numCharacter s : JsonRead _).run r := rfl
  rw [ran]
  simp only [decide_eq_true_eq]
  split_ifs <;> rfl

private theorem agree_numRound (s : NumState) : Agree left (numRound s) (numRound s) := by
  refine settles_bind agree_hasEnd (fun ended => ?_)
  split_ifs
  · exact settles_pure _
  · exact settles_bind agree_read (agree_numCharacter s)
private theorem progresses_numRound (s : NumState) : Progresses 0 (left + 1) (numRound s) := by
  intro r next after starts few goes
  rw [numRound_run] at goes
  split_ifs at goes with ended
  · cases goes
  · exact progresses_moved agree_read moves_read (fun c => ⟨_,agree_numCharacter s c⟩) r next after starts few goes

/-- A read that stays where it is. -/
abbrev Stays (x : JsonRead α) : Prop := Relates (fun r _ after => after = r) x
private theorem stays_bind {x : JsonRead α} {f : α → JsonRead β} (first : Stays x) (later : ∀ a, Stays (f a)) : Stays (x >>= f) := by
  refine relates_bind first later ?_
  rintro r a middle b after rfl rfl
  rfl
private theorem stays_pure (a : α) : Stays (pure a : JsonRead α) := relates_pure (fun _ => rfl)
private theorem stays_int64 (n : Int) : Stays (int64 n) := by
  unfold int64
  split_ifs
  · exact stays_pure n
  · exact relates_throw _
private theorem stays_addDigit (n : Int) (c : UInt8) : Stays (addDigit n c) :=
  stays_bind (stays_int64 _) (fun _ => stays_bind (stays_int64 _) (fun _ => stays_int64 _))
private theorem stays_numDigit (s : NumState) (c : UInt8) : Stays (numDigit s c) := by
  unfold numDigit
  split_ifs
  · exact stays_bind (stays_addDigit _ c) (fun _ => stays_pure _)
  · exact stays_pure _
  · exact stays_bind (stays_addDigit _ c) (fun _ => stays_pure _)
private theorem stays_hasEnd : Stays hasEnd := by
  intro r ended after ran
  rw [hasEnd_run] at ran
  exact (Prod.mk.inj ran).2.symm

/-- A read that does not go back. -/
abbrev Forward (x : JsonRead α) : Prop := Relates (fun r _ after => r.cur ≤ after.cur) x
private theorem forward_bind {x : JsonRead α} {f : α → JsonRead β} (first : Forward x) (later : ∀ a, Forward (f a)) : Forward (x >>= f) :=
  relates_bind first later (fun _ _ _ _ _ one other => le_trans one other)
private theorem forward_of_stays {x : JsonRead α} (stays : Stays x) : Forward x := relates_mono stays (fun r _ after same => by rw [same])
private theorem forward_pure (a : α) : Forward (pure a : JsonRead α) := forward_of_stays (stays_pure a)
private theorem forward_read : Forward TarsJson.read := relates_mono moves_read (fun _ _ _ moved => Nat.le_of_lt moved.1)
private theorem forward_numExponent (s : NumState) : Forward (numExponent s) := by
  refine forward_bind (forward_of_stays stays_hasEnd) (fun ended => ?_)
  split_ifs
  · exact forward_pure _
  · refine forward_bind forward_read (fun c => ?_)
    split_ifs
    · exact forward_pure _
    · exact forward_pure _
    · exact forward_pure _
    · exact forward_pure _
private theorem forward_numCharacter (s : NumState) (c : UInt8) : Forward (numCharacter s c) := by
  unfold numCharacter
  split_ifs
  · rw [← bind_pure_comp]
    exact forward_bind (forward_of_stays (stays_numDigit s c)) (fun _ => forward_pure _)
  · exact forward_pure _
  · exact forward_numExponent s
  · exact forward_pure _

/-- Before `getNum` goes back it has moved. -/
theorem relates_numLoop (s : NumState) :
    Relates (fun r (left : NumState × Bool) after => left.2 = true → r.cur < after.cur) (loop .diverges numRound s) := by
  refine relates_loop (R := fun r after => r.cur ≤ after.cur) (fun s r step after ran => ?_) ?_ s
  · rw [numRound_run] at ran
    split_ifs at ran with ended
    · obtain ⟨same,rfl⟩ := Prod.mk.inj ran
      obtain rfl := Except.ok.inj same
      exact fun going => absurd going (by simp)
    · have moved : r.cur < after.cur :=
        relates_bind moves_read (forward_numCharacter s) (S := fun r _ after => r.cur < after.cur)
          (fun _ _ _ _ _ one other => lt_of_lt_of_le one.1 other) r step after ran
      cases step with
      | inl next => exact Nat.le_of_lt moved
      | inr s => exact fun _ => moved
  · exact fun r middle s after forward moved going => lt_of_le_of_lt forward (moved going)

private theorem agree_numValue (D : Doubles) (s : NumState) : Agree left (numValue D s) (numValue D s) := by
  unfold numValue
  split_ifs
  · split
    · exact settles_pure _
    · exact settles_throw (.inr rfl)
  · exact settles_pure _

private theorem agree_getNum (D : Doubles) (head : UInt8) : Agree left (getNum D head) (getNum D head) := by
  intro r starts few
  have loops : Agree (left + 1) (loop .diverges numRound (numStart head)) (loop .diverges numRound (numStart head)) :=
    settles_loop agree_numRound progresses_numRound (numStart head)
  have proper := (loops r starts (Nat.lt_succ_of_lt few)).2
  refine ⟨rfl,proper_bind proper (fun last after ran => ?_)⟩
  rw [ran] at proper
  obtain ⟨s,bNeedBack⟩ := last
  have inside : after.cur ≤ after.buf.length := by rw [proper.same]; exact proper.near
  -- the rest reads nothing, so it does from a position that is not behind what it does from here
  by_cases back : s.bOk = true ∧ bNeedBack = true
  · obtain ⟨ok,rfl⟩ := back
    have moved : r.cur < after.cur := relates_numLoop (numStart head) r (s,true) after ran rfl
    have ended : (numEnd D s true).run after = (numValue D s).run { after with cur := after.cur - 1 } := by
      rw [numEnd,ok]
      exact run_bind (back_run (by omega))
    have agree : Agree (after.buf.length + 1) (numValue D s) (numValue D s) := agree_numValue D s
    have value := (agree { after with cur := after.cur - 1 } (by simp only; omega) (by simp only [Buffered.remaining]; omega)).2
    have joined : Proper JsonFailure 0 r ((.ok (),{ after with cur := after.cur - 1 }) : Except Failure Unit × Buffered) :=
      ⟨proper.same,by simp only; omega,by have := proper.near; simp only at this ⊢; omega,fun _ failed => by cases failed⟩
    rw [ended]
    exact proper_trans joined value
  · have ends : Agree (after.buf.length + 1) (numEnd D s bNeedBack) (numEnd D s bNeedBack) := by
      unfold numEnd
      split_ifs with failed going
      · exact agree_throwAt (by simp [messages])
      · exact absurd ⟨by simpa using failed,going⟩ back
      · exact agree_numValue D s
    exact proper_trans proper (ends after (by omega) (by rw [Buffered.remaining]; omega)).2

/-! ### Objects and arrays -/

private theorem agree_endsArray : Agree left endsArray endsArray := by
  intro r starts few
  have proper := (agree_readToken r starts few).2
  refine ⟨rfl,proper_bind proper (fun c after ran => ?_)⟩
  rw [ran] at proper
  have moved : r.cur < after.cur := (moves_readToken r c after ran).1
  have near : after.cur ≤ r.buf.length + 0 := proper.near
  split_ifs
  · exact ⟨proper.same,Nat.le_of_lt moved,near,fun _ failed => by cases failed⟩
  · rw [run_bind (back_run (by omega))]
    exact ⟨proper.same,show r.cur ≤ after.cur - 1 by omega,show after.cur - 1 ≤ r.buf.length + 0 by omega,fun _ failed => by cases failed⟩

section
variable (D : Doubles) {getValue getValue' : JsonRead JsonValue}

private theorem agree_objNext (members : List (Bytes × JsonValue)) : Agree left (objNext members) (objNext members) := by
  refine settles_bind agree_readToken (fun c => ?_)
  split_ifs
  · exact settles_pure _
  · exact settles_pure _
  · exact agree_throwAt (by simp [messages])
private theorem agree_objMember (agree : Agree left getValue getValue') (s : List (Bytes × JsonValue) × Bool) (c : UInt8) :
    Agree left (objMember getValue s c) (objMember getValue' s c) := by
  unfold objMember
  split_ifs
  · exact settles_pure _
  · exact agree_throwAt (by simp [messages])
  · refine settles_bind (agree_getString 34) (fun key => settles_bind agree_readToken (fun colon => ?_))
    split_ifs
    · exact agree_throwAt (by simp [messages])
    · exact settles_bind agree (fun _ => agree_objNext _)
private theorem agree_getObjWith (agree : Agree left getValue getValue') : Agree left (getObjWith getValue) (getObjWith getValue') := by
  refine settles_loop (fun s => settles_bind agree_readToken (agree_objMember agree s)) (fun s => ?_) ([],true)
  have progresses : Progresses 0 (left + 1) (objRound getValue s) :=
    progresses_moved agree_readToken moves_readToken (fun c => ⟨_,agree_objMember agree s c⟩)
  exact fun r next after starts few => progresses r next after starts (Nat.lt_succ_of_lt few)

private theorem agree_arrayCharacter (elements : List JsonValue) (c : UInt8) :
    Agree left (if c = 44 then pure (.inl elements) else if c = 93 then pure (.inr elements)
        else throwAt "get vector error(, not find )[pos:" "]" : JsonRead (List JsonValue ⊕ List JsonValue))
      (if c = 44 then pure (.inl elements) else if c = 93 then pure (.inr elements)
        else throwAt "get vector error(, not find )[pos:" "]") := by
  split_ifs
  · exact settles_pure _
  · exact settles_pure _
  · exact agree_throwAt (by simp [messages])
private theorem agree_arrayRound (agree : Agree left getValue getValue') (elements : List JsonValue) :
    Agree left (arrayRound getValue elements) (arrayRound getValue' elements) :=
  settles_bind agree (fun _ => settles_bind agree_readToken (agree_arrayCharacter _))
private theorem progresses_arrayRound (agree : Agree left getValue getValue') (elements : List JsonValue) :
    Progresses 0 left (arrayRound getValue elements) := by
  refine progresses_later agree (fun value => ?_)
  have progresses : Progresses 0 (left + 1) (arrayNext (elements ++ [value])) :=
    progresses_moved agree_readToken moves_readToken (fun c => ⟨_,agree_arrayCharacter (elements ++ [value]) c⟩)
  exact fun r next after starts few => progresses r next after starts (Nat.lt_succ_of_lt few)
private theorem agree_getArrayWith (agree : Agree left getValue getValue') : Agree left (getArrayWith getValue) (getArrayWith getValue') := by
  refine settles_bind agree_endsArray (fun ended => ?_)
  split_ifs
  · exact settles_pure _
  · exact settles_loop (agree_arrayRound agree) (progresses_arrayRound agree) []

private theorem agree_getValueWith (agree : Agree left getValue getValue') :
    Agree (left + 1) (getValueWith D getValue) (getValueWith D getValue') := by
  refine settles_moved agree_readToken moves_readToken (fun c => ?_)
  unfold valueFrom
  split_ifs with object array string word number null
  · exact settles_map (agree_getObjWith agree)
  · exact settles_map (agree_getArrayWith agree)
  · exact settles_map (agree_getString c)
  · exact settles_map (agree_getBoolean c)
  · exact settles_map (agree_getNum D c)
  · exact settles_map (agree_getNull null)
  · exact agree_throwAt (by simp [messages])

/-- Bounds on the depth above the number of bytes left make no difference. -/
theorem agree_getValueFuel {fuel fuel' : Nat} (enough : left ≤ fuel) (enough' : left ≤ fuel') :
    Agree left (getValueFuel D fuel) (getValueFuel D fuel') := by
  induction left generalizing fuel fuel' with
  | zero => exact fun r _ few => absurd few (Nat.not_lt_zero _)
  | succ left ih =>
    obtain ⟨fuel,rfl⟩ : ∃ n, fuel = n + 1 := ⟨fuel - 1,by omega⟩
    obtain ⟨fuel',rfl⟩ : ∃ n, fuel' = n + 1 := ⟨fuel' - 1,by omega⟩
    exact agree_getValueWith D (ih (by omega) (by omega))

theorem getValue_run (r : Buffered) : (TarsJson.getValue D).run r = (getValueFuel D (r.buf.length + 1)).run r :=
  run_get (fun r => getValueFuel D (r.buf.length + 1)) r
private theorem agree_getValue : Agree left (TarsJson.getValue D) (TarsJson.getValue D) := by
  intro r starts _
  have agree : Agree (r.buf.length + 1) (getValueFuel D (r.buf.length + 1)) (getValueFuel D (r.buf.length + 1)) :=
    agree_getValueFuel D le_rfl le_rfl
  rw [getValue_run]
  exact agree r starts (by rw [Buffered.remaining]; omega)

/-- `getValue` is what the source writes: its calls are calls of itself. -/
theorem getValue_eq {r : Buffered} (inside : r.Inside) :
    (TarsJson.getValue D).run r = (getValueWith D (TarsJson.getValue D)).run r := by
  have calls : Agree r.buf.length (getValueFuel D r.buf.length) (TarsJson.getValue D) := by
    intro r' starts few
    have agree : Agree (min r.buf.length (r'.buf.length + 1)) (getValueFuel D r.buf.length) (getValueFuel D (r'.buf.length + 1)) :=
      agree_getValueFuel D (by omega) (by omega)
    rw [getValue_run]
    exact agree r' starts (by rw [Buffered.remaining] at few ⊢; omega)
  rw [getValue_run,getValueFuel]
  exact (agree_getValueWith D calls r inside (by rw [Buffered.remaining]; omega)).1

/-! ### Any text -/

/-- On any text the reader stays in the text. It returns a value, throws one of its exceptions, or comes to an
    operation on numbers that the language does not define. The stack that nested calls take up is not modelled. -/
theorem getValue_ends (str : Bytes) : ((TarsJson.getValue D).run ⟨str,0⟩).2.buf = str ∧ ((TarsJson.getValue D).run ⟨str,0⟩).2.cur ≤ str.length ∧
    ((∃ v, getValueOf D str = .ok v) ∨ (∃ message ∈ messages, ∃ n, getValueOf D str = .error (exception message.1 n message.2)) ∨
      getValueOf D str = .error .undefined) := by
  have agree : Agree (str.length + 1) (TarsJson.getValue D) (TarsJson.getValue D) := agree_getValue D
  obtain ⟨_,proper⟩ := agree ⟨str,0⟩ (Nat.zero_le _) (by simp [Buffered.remaining])
  refine ⟨proper.same,proper.near,?_⟩
  cases read : getValueOf D str with
  | ok v => exact .inl ⟨v,rfl⟩
  | error e =>
    rcases proper.error e read with ⟨message,known,n,rfl⟩ | rfl
    · exact .inr (.inl ⟨message,known,n,rfl⟩)
    · exact .inr (.inr rfl)

end

end CppSdk.TarsJsonSafety

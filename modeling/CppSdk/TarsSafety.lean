import CppSdk.TarsStream

/-!
No input makes a reader of `Tars.h` read outside its buffer, run for ever or move its position
far: every read, on every buffer, returns or throws a `TarsDecodeException`. The bound on the
depth of `skipField` plays no part (`skipField_eq`).
-/
namespace CppSdk.TarsSafety
open CppSdk.ByteString CppSdk.Runtime CppSdk.Cursors CppSdk.TarsStream

variable {α β : Type}

/-- The exceptions. -/
def Thrown (failure : TarsFailure) : Prop := ∃ kind what, failure = .throws kind what
/-- How far behind the end of the buffer a skip may lead: it adds a `uint32_t`. -/
def slack : Nat := 4294967296
/-- The two reads agree, and throw nothing but exceptions, where fewer bytes are left. -/
abbrev Agree (entry left : Nat) (x y : TarsRead α) : Prop := Settles Thrown slack entry left x y

theorem thrown (kind : TarsException) (what : Bytes) : Thrown (.throws kind what) := ⟨kind,what,rfl⟩

/-! ### Looking at the buffer -/

/-- The failure of a read that does not fit. -/
def overflowOf (operation : String) (r : Buffered) : TarsFailure :=
  .throws .decode (snprintf 64 (lit "buffer overflow when " ++ lit operation ++ lit ", over " ++
    stdToString (r.buf.length % 4294967296) ++ lit "."))

private theorem overflow_run (operation : String) (r : Buffered) :
    (overflow operation : TarsRead α).run r = (.error (overflowOf operation r),r) := rfl

private theorem peekTypeBuf_run (offset size : Nat) (r : Buffered) : (peekTypeBuf offset size).run r =
    if r.buf.length < r.cur + offset + size then (.error (overflowOf "peekBuf" r),r)
    else (.ok ((r.buf.drop (r.cur + offset)).take size),r) := by
  rw [peekTypeBuf,run_get]
  split
  case isTrue outside => rfl
  case isFalse inside =>
    rw [load,run_get,if_pos (by omega)]
    rfl
theorem readTypeBuf_run (size : Nat) (r : Buffered) : (readTypeBuf size).run r =
    if r.buf.length < r.cur + size then (.error (overflowOf "peekBuf" r),r)
    else (.ok ((r.buf.drop r.cur).take size),{ r with cur := r.cur + size }) := by
  rw [readTypeBuf,run_then,peekTypeBuf_run,Nat.add_zero]
  by_cases outside : r.buf.length < r.cur + size
  · simp only [if_pos outside]
  · simp only [if_neg outside]
    rfl
theorem readBuf_run (len : Nat) (r : Buffered) : (readBuf len).run r =
    if r.buf.length < r.cur + len then (.error (overflowOf "skip" r),r)
    else (.ok ((r.buf.drop r.cur).take len),{ r with cur := r.cur + len }) := by
  rw [readBuf,run_get]
  by_cases outside : r.buf.length < r.cur + len
  · rw [if_neg (by omega),if_pos outside,overflow_run]
  · rw [if_pos (by omega),readTypeBuf_run]
    simp only [if_neg outside]
theorem hasEnd_run (r : Buffered) : hasEnd.run r =
    if r.buf.length < r.cur then (.error (overflowOf "skip" r),r) else (.ok (decide (r.buf.length ≤ r.cur)),r) := by
  rw [hasEnd,run_get]
  split <;> rfl

/-- The byte some way behind the position. -/
def byteAt (r : Buffered) (offset : Nat) : UInt8 := ((r.buf.drop (r.cur + offset)).take 1).headD 0

private theorem peekByte_run (offset : Nat) (r : Buffered) : (peekByte offset).run r =
    if r.buf.length < r.cur + offset + 1 then (.error (overflowOf "peekBuf" r),r) else (.ok (byteAt r offset),r) := by
  rw [peekByte,run_then,peekTypeBuf_run]
  by_cases outside : r.buf.length < r.cur + offset + 1
  · simp only [if_pos outside]
  · simp only [if_neg outside]
    rfl

/-- The size of the head at the position. -/
def headSize (r : Buffered) : Nat := if byteAt r 0 >>> 4 = 15 then 2 else 1
/-- The head at the position. -/
def headAt (r : Buffered) : DataHead :=
  ⟨.ofCode (byteAt r 0 &&& 15),if byteAt r 0 >>> 4 = 15 then byteAt r 1 else byteAt r 0 >>> 4⟩

private theorem headSize_pos (r : Buffered) : 0 < headSize r := by unfold headSize; split <;> decide

private theorem peekFromHead_run (r : Buffered) : peekFromHead.run r =
    if r.buf.length < r.cur + headSize r then (.error (overflowOf "peekBuf" r),r) else (.ok (headAt r,headSize r),r) := by
  rw [peekFromHead,run_then,peekByte_run,Nat.add_zero]
  by_cases outside : r.buf.length < r.cur + 1
  · have longer := headSize_pos r
    rw [if_pos outside,if_pos (by omega)]
  · rw [if_neg outside]
    unfold headSize headAt
    by_cases extended : byteAt r 0 >>> 4 = 15
    · simp only [if_pos extended]
      rw [run_then,peekByte_run]
      by_cases short : r.buf.length < r.cur + 1 + 1
      · rw [if_pos short,if_pos (by omega)]
      · rw [if_neg short,if_neg (by omega)]
        rfl
    · simp only [if_neg extended,if_neg outside]
      rfl
theorem readFromHead_run (r : Buffered) : readFromHead.run r =
    if r.buf.length < r.cur + headSize r then (.error (overflowOf "peekBuf" r),r)
    else (.ok (headAt r),{ r with cur := r.cur + headSize r }) := by
  rw [readFromHead,run_then,peekFromHead_run]
  by_cases outside : r.buf.length < r.cur + headSize r
  · simp only [if_pos outside]
  · simp only [if_neg outside]
    rfl
theorem readFromHeadNoTag_run (r : Buffered) : readFromHeadNoTag.run r =
    if r.buf.length < r.cur + headSize r then (.error (overflowOf "peekBuf" r),r)
    else (.ok (headAt r).type,{ r with cur := r.cur + headSize r }) := by
  rw [readFromHeadNoTag,run_then,peekByte_run,Nat.add_zero]
  by_cases outside : r.buf.length < r.cur + 1
  · have longer := headSize_pos r
    rw [if_pos outside,if_pos (by omega)]
  · rw [if_neg outside]
    unfold headSize headAt
    by_cases extended : byteAt r 0 >>> 4 = 15
    · simp only [if_pos extended]
      rw [run_then,peekByte_run]
      by_cases short : r.buf.length < r.cur + 1 + 1
      · rw [if_pos short,if_pos (by omega)]
      · rw [if_neg short,if_neg (by omega)]
        rfl
    · simp only [if_neg extended,if_neg outside]
      rfl

/-! ### Each read settles -/

section
variable {entry left : Nat}

/-- A read that looks whether the bytes are there, and moves over some of them. -/
theorem agree_checked {x : TarsRead α} (need taken : Buffered → Nat) {f : Buffered → α} {operation : String}
    (ran : ∀ r, x.run r = if r.buf.length < r.cur + need r then (.error (overflowOf operation r),r)
      else (.ok (f r),{ r with cur := r.cur + taken r })) (part : ∀ r, taken r ≤ need r) : Agree slack left x x := by
  intro r starts few
  refine ⟨rfl,?_⟩
  rw [ran]
  split
  case isTrue outside => exact ⟨rfl,Nat.le_refl _,starts,fun e failed => Except.error.inj failed ▸ thrown _ _⟩
  case isFalse inside =>
    have := part r
    exact ⟨rfl,Nat.le_add_right _ _,by simp only; omega,fun e failed => nomatch failed⟩
private theorem moves_checked {x : TarsRead α} {need : Buffered → Nat} {f : Buffered → α} {operation : String}
    (ran : ∀ r, x.run r = if r.buf.length < r.cur + need r then (.error (overflowOf operation r),r)
      else (.ok (f r),{ r with cur := r.cur + need r })) (some : ∀ r, 0 < need r) : Moves x := by
  intro r a after returned
  rw [ran] at returned
  split at returned
  case isTrue outside => cases returned
  case isFalse inside =>
    obtain rfl := (Prod.mk.inj returned).2
    have := some r
    exact ⟨by simp only; omega,Nat.not_lt.mp inside⟩

theorem agree_readTypeBuf (size : Nat) : Agree slack left (readTypeBuf size) (readTypeBuf size) :=
  agree_checked _ _ (readTypeBuf_run size) (fun _ => Nat.le_refl _)
theorem agree_readBuf (size : Nat) : Agree slack left (readBuf size) (readBuf size) :=
  agree_checked _ _ (readBuf_run size) (fun _ => Nat.le_refl _)
theorem agree_readFromHead : Agree slack left readFromHead readFromHead := agree_checked _ _ readFromHead_run (fun _ => Nat.le_refl _)
private theorem agree_readFromHeadNoTag : Agree slack left readFromHeadNoTag readFromHeadNoTag :=
  agree_checked _ _ readFromHeadNoTag_run (fun _ => Nat.le_refl _)
theorem agree_peekFromHead : Agree slack left peekFromHead peekFromHead :=
  agree_checked headSize (fun _ => 0) peekFromHead_run (fun _ => Nat.zero_le _)
theorem agree_hasEnd : Agree slack left hasEnd hasEnd :=
  agree_checked (fun _ => 0) (fun _ => 0) hasEnd_run (fun _ => Nat.le_refl _)

theorem moves_readFromHead : Moves readFromHead := moves_checked readFromHead_run headSize_pos
private theorem moves_readFromHeadNoTag : Moves readFromHeadNoTag := moves_checked readFromHeadNoTag_run headSize_pos
theorem returns_readTypeBuf (size : Nat) :
    Returns (fun bytes after => after.Inside ∧ bytes.length = size) (readTypeBuf size) := by
  intro r a after returned
  rw [readTypeBuf_run] at returned
  split at returned
  case isTrue outside => cases returned
  case isFalse inside =>
    obtain ⟨same,rfl⟩ := Prod.mk.inj returned
    obtain rfl := Except.ok.inj same
    refine ⟨Nat.not_lt.mp inside,?_⟩
    simp only [List.length_take,List.length_drop]
    omega

/-- A skip from inside the buffer. -/
theorem agree_readHeadSkip {len : Nat} (small : len ≤ slack) : Agree 0 left (readHeadSkip len) (readHeadSkip len) :=
  fun _ starts _ => ⟨rfl,rfl,Nat.le_add_right _ _,Nat.add_le_add starts small,fun _ failed => nomatch failed⟩
theorem agree_throw (kind : TarsException) (what : Bytes) :
    Agree slack left (throw (.throws kind what) : TarsRead α) (throw (.throws kind what)) := settles_throw (thrown kind what)
private theorem agree_inside {x y : TarsRead α} (agree : Agree slack left x y) : Agree 0 left x y := settles_mono agree (by simp [slack]) le_rfl

end

/-! ### The search for a tag -/

section
variable {s s' : HeadType → TarsRead Unit} {left : Nat}

/-- The state behind the head at the position. -/
def behindHead (r : Buffered) : Buffered := { r with cur := r.cur + headSize r }

theorem skipToTagRound_run (s : HeadType → TarsRead Unit) (tag : UInt8) (r : Buffered) : (skipToTagRound s tag ()).run r =
    if r.buf.length < r.cur then (.error (overflowOf "skip" r),r)
    else if r.buf.length ≤ r.cur then (.ok (.inr none),r)
    else if r.buf.length < r.cur + headSize r then (.error (overflowOf "peekBuf" r),r)
    else if (headAt r).type = .structEnd ∨ tag < (headAt r).tag then (.ok (.inr none),r)
    else if tag = (headAt r).tag then (.ok (.inr (some (headAt r))),behindHead r)
    else (do
      s (headAt r).type
      pure (.inl ()) : TarsRead (Unit ⊕ Option DataHead)).run (behindHead r) := by
  rw [skipToTagRound,run_then,hasEnd_run]
  by_cases passed : r.buf.length < r.cur
  · simp only [if_pos passed]
  by_cases ended : r.buf.length ≤ r.cur
  · simp only [if_neg passed,ended,decide_true,if_true]
    rfl
  simp only [if_neg passed,ended,decide_false,if_false,Bool.false_eq_true]
  rw [run_then,peekFromHead_run]
  by_cases outside : r.buf.length < r.cur + headSize r
  · simp only [if_pos outside]
  simp only [if_neg outside]
  by_cases stops : (headAt r).type = .structEnd ∨ tag < (headAt r).tag
  · simp only [if_pos stops]
    rfl
  simp only [if_neg stops]
  by_cases found : tag = (headAt r).tag
  · simp only [if_pos found]
    rfl
  · simp only [if_neg found]
    rfl

/-- What comes after a head, where the calls of `skipField` settle on fewer bytes. -/
theorem skipped_behindHead {r : Buffered} (agree : Agree 0 left (s (headAt r).type) (s' (headAt r).type))
    (few : r.remaining < left + 1) (inside : ¬ r.buf.length < r.cur + headSize r) :
    (s (headAt r).type).run (behindHead r) = (s' (headAt r).type).run (behindHead r) ∧
      Proper Thrown slack (behindHead r) ((s (headAt r).type).run (behindHead r)) := by
  have moved := headSize_pos r
  refine agree (behindHead r) (by simp only [behindHead]; omega) ?_
  rw [Buffered.remaining] at few ⊢
  simp only [behindHead]
  omega

private theorem progresses_skipToTagRound (agree : ∀ type, Agree 0 left (s type) (s' type)) (tag : UInt8) :
    Progresses slack (left + 1) (skipToTagRound s tag ()) := by
  intro r next after _ few goes
  rw [skipToTagRound_run] at goes
  split_ifs at goes with passed ended outside stops found
  · cases goes
  · cases goes
  · cases goes
  · cases goes
  · cases goes
  · have moved := headSize_pos r
    obtain ⟨-,proper⟩ := skipped_behindHead (agree _) few outside
    rw [run_then] at goes
    rcases ran : (s (headAt r).type).run (behindHead r) with ⟨outcome,later⟩
    rw [ran] at goes proper
    cases outcome with
    | error e => cases goes
    | ok =>
      obtain rfl : later = after := (Prod.mk.inj goes).2
      have := proper.forward
      simp only [behindHead] at this
      omega

private theorem agree_skipToTagRound (agree : ∀ type, Agree 0 left (s type) (s' type)) (tag : UInt8) :
    Agree slack (left + 1) (skipToTagRound s tag ()) (skipToTagRound s' tag ()) := by
  intro r starts few
  have here : Proper Thrown slack r ((.ok (.inr none),r) : Except TarsFailure (Unit ⊕ Option DataHead) × Buffered) :=
    ⟨rfl,Nat.le_refl _,starts,fun e failed => nomatch failed⟩
  have failed : ∀ operation, Proper Thrown slack r ((.error (overflowOf operation r),r) : Except _ (Unit ⊕ Option DataHead) × _) :=
    fun operation => ⟨rfl,Nat.le_refl _,starts,fun e failed => Except.error.inj failed ▸ thrown _ _⟩
  rw [skipToTagRound_run,skipToTagRound_run]
  split_ifs with passed ended outside stops found
  · exact ⟨rfl,failed _⟩
  · exact ⟨rfl,here⟩
  · exact ⟨rfl,failed _⟩
  · exact ⟨rfl,here⟩
  · exact ⟨rfl,rfl,Nat.le_add_right _ _,by simp only [behindHead]; omega,fun e failed => nomatch failed⟩
  · obtain ⟨same,proper⟩ := skipped_behindHead (agree _) few outside
    have to_head : Proper Thrown slack r ((.ok (),behindHead r) : Except TarsFailure Unit × Buffered) :=
      ⟨rfl,Nat.le_add_right _ _,by simp only [behindHead]; omega,fun e failed => nomatch failed⟩
    rw [run_then,run_then,← same]
    rcases ran : (s (headAt r).type).run (behindHead r) with ⟨outcome,later⟩
    rw [ran] at proper
    have whole := proper_trans to_head proper
    cases outcome with
    | error e => exact ⟨rfl,proper_error whole⟩
    | ok => exact ⟨rfl,whole.same,whole.forward,whole.near,fun e failed => nomatch failed⟩

theorem agree_skipToTagWith (agree : ∀ type, Agree 0 left (s type) (s' type)) (tag : UInt8) :
    Agree slack (left + 1) (skipToTagWith s tag) (skipToTagWith s' tag) := by
  refine settles_catch ?_ ?_
  · exact settles_loop (fun _ => agree_skipToTagRound agree tag) (fun _ => progresses_skipToTagRound agree tag) ()
  · rintro e ⟨kind,what,rfl⟩
    exact settles_pure none

end

/-! ### Integers -/

section
variable {s s' : HeadType → TarsRead Unit} {left : Nat}

theorem agree_readField {search search' : TarsRead (Option DataHead)} {payload payload' : DataHead → TarsRead α}
    (found : Agree slack left search search') (taken : ∀ head, Agree slack left (payload head) (payload' head))
    (notExist : Bytes) (a : α) (isRequire : Bool) :
    Agree slack left (readField search payload notExist a isRequire) (readField search' payload' notExist a isRequire) := by
  refine settles_bind found (fun result => ?_)
  cases result with
  | some head => exact taken head
  | none =>
    cases isRequire with
    | true => exact agree_throw _ _
    | false => exact settles_pure a

theorem agree_integerPayload (width : Width) (tag : UInt8) (head : DataHead) :
    Agree slack left (integerPayload width tag head) (integerPayload width tag head) := by
  unfold integerPayload
  split_ifs
  · exact settles_pure 0
  · split
    · split_ifs
      · exact settles_map (agree_readTypeBuf _)
      · exact agree_throw _ _
    · exact agree_throw _ _
theorem agree_readIntegerWith (agree : ∀ type, Agree 0 left (s type) (s' type)) (width : Width) (n : Int) (tag : UInt8)
    (isRequire : Bool) :
    Agree slack (left + 1) (readIntegerWith s width n tag isRequire) (readIntegerWith s' width n tag isRequire) :=
  agree_readField (agree_skipToTagWith agree tag) (agree_integerPayload width tag) _ n isRequire
theorem agree_readUInt32With (agree : ∀ type, Agree 0 left (s type) (s' type)) (n : UInt32) (tag : UInt8) (isRequire : Bool) :
    Agree slack (left + 1) (readUInt32With s n tag isRequire) (readUInt32With s' n tag isRequire) :=
  settles_bind (agree_readIntegerWith agree .int64 n.toNat tag isRequire) (fun _ => settles_pure _)

/-- A head that is found lies in the buffer. -/
theorem returns_skipToTagWith (s : HeadType → TarsRead Unit) (tag : UInt8) :
    Returns (fun found after => found.isSome = true → after.Inside) (skipToTagWith s tag) := by
  refine returns_catch (returns_loop (I := fun _ => True) (fun _ _ => ?_) trivial) ?_
  · intro r step after returned
    rw [skipToTagRound_run] at returned
    split_ifs at returned with passed ended outside stops here
    · cases returned
    · obtain ⟨same,rfl⟩ := Prod.mk.inj returned
      rw [← Except.ok.inj same]
      exact fun found => nomatch found
    · cases returned
    · obtain ⟨same,rfl⟩ := Prod.mk.inj returned
      rw [← Except.ok.inj same]
      exact fun found => nomatch found
    · obtain ⟨same,rfl⟩ := Prod.mk.inj returned
      rw [← Except.ok.inj same]
      exact fun _ => Nat.not_lt.mp outside
    · rw [run_then] at returned
      rcases ran : (s (headAt r).type).run (behindHead r) with ⟨outcome,middle⟩
      rw [ran] at returned
      cases outcome with
      | error e => cases returned
      | ok =>
        rw [← Except.ok.inj (Prod.mk.inj returned).1]
        trivial
  · intro failure
    cases failure with
    | throws kind what => exact returns_pure (by simp)
    | undefined => exact returns_throw _
    | diverges => exact returns_throw _

/-- A required integer that is read lies in the buffer. -/
theorem returns_readIntegerWith (s : HeadType → TarsRead Unit) (width : Width) (n : Int) (tag : UInt8) :
    Returns (fun _ after => after.Inside) (readIntegerWith s width n tag true) := by
  intro r i after returned
  rw [readIntegerWith,readField,run_then] at returned
  rcases ran : (skipToTagWith s tag).run r with ⟨outcome,middle⟩
  rw [ran] at returned
  cases outcome with
  | error e => cases returned
  | ok found =>
    cases found with
    | none => cases returned
    | some head =>
      have inside := returns_skipToTagWith s tag r (some head) middle ran rfl
      simp only [integerPayload] at returned
      split_ifs at returned
      · obtain rfl := (Prod.mk.inj returned).2
        exact inside
      · split at returned
        · split_ifs at returned
          · exact returns_map (P := fun _ after => after.Inside) (fun r a after ran => (returns_readTypeBuf _ r a after ran).1)
              middle i after returned
          · cases returned
        · cases returned

private theorem returns_readUInt32With (s : HeadType → TarsRead Unit) (n : UInt32) (tag : UInt8) :
    Returns (fun _ after => after.Inside) (readUInt32With s n tag true) :=
  returns_map (returns_readIntegerWith s .int64 n.toNat tag)

/-! ### Skipping -/

private theorem slack_of_bytes {bytes : Bytes} (short : bytes.length ≤ 4) : fromBigEndian bytes ≤ slack := by
  have bound := fromBigEndian_lt bytes
  have most : 256 ^ bytes.length ≤ 256 ^ 4 := Nat.pow_le_pow_right (by decide) short
  rw [slack]
  omega
private theorem slack_of_size (size : UInt32) : size.toNat ≤ slack := by
  have := size.toNat_lt
  rw [slack]
  omega

private theorem agree_skipHeadedWith (agree : ∀ type, Agree 0 left (s type) (s' type)) :
    Agree slack (left + 1) (skipHeadedWith s) (skipHeadedWith s') :=
  settles_moved agree_readFromHeadNoTag moves_readFromHeadNoTag agree

theorem agree_skipToStructEndWith (agree : ∀ type, Agree 0 left (s type) (s' type)) :
    Agree slack (left + 1) (skipToStructEndWith s) (skipToStructEndWith s') := by
  have rounds : Agree slack (left + 1) (skipToStructEndRound s ()) (skipToStructEndRound s' ()) := by
    refine settles_moved agree_readFromHeadNoTag moves_readFromHeadNoTag (fun headType => ?_)
    exact settles_bind (agree headType) (fun _ => settles_pure _)
  refine settles_loop (fun _ => rounds) (fun _ => ?_) ()
  refine progresses_moved agree_readFromHeadNoTag moves_readFromHeadNoTag (fun headType => ?_)
  exact ⟨_,settles_bind (agree headType) (fun _ => settles_pure _)⟩

private theorem agree_skipFieldWith (agree : ∀ type, Agree 0 left (s type) (s' type)) (type : HeadType) :
    Agree 0 (left + 1) (skipFieldWith s type) (skipFieldWith s' type) := by
  have sized := agree_inside (agree_readUInt32With agree 0 0 true)
  have headed := agree_skipHeadedWith agree
  cases type with
  | char => exact agree_readHeadSkip (by decide)
  | short => exact agree_readHeadSkip (by decide)
  | int32 => exact agree_readHeadSkip (by decide)
  | int64 => exact agree_readHeadSkip (by decide)
  | float => exact agree_readHeadSkip (by decide)
  | double => exact agree_readHeadSkip (by decide)
  | string1 =>
    refine settles_inside (agree_inside (agree_readTypeBuf 1)) (returns_readTypeBuf 1) (fun bytes length => ?_)
    exact agree_readHeadSkip (slack_of_bytes (by omega))
  | string4 =>
    refine settles_inside (agree_inside (agree_readTypeBuf 4)) (returns_readTypeBuf 4) (fun bytes length => ?_)
    exact agree_readHeadSkip (slack_of_bytes (by omega))
  | map => exact settles_bind sized (fun size => settles_times headed _)
  | list => exact settles_bind sized (fun size => settles_times headed _)
  | structBegin => exact agree_inside (agree_skipToStructEndWith agree)
  | structEnd => exact agree_inside (settles_pure ())
  | zeroTag => exact agree_inside (settles_pure ())
  | simpleList =>
    refine settles_bind (agree_inside agree_readFromHead) (fun head => ?_)
    split_ifs
    · exact agree_throw _ _
    · refine settles_inside (agree_readUInt32With agree 0 0 true) (P := fun _ => True) ?_ (fun size _ => ?_)
      · exact fun r a after ran => ⟨returns_readUInt32With s 0 0 r a after ran,trivial⟩
      · exact agree_readHeadSkip (slack_of_size size)
  | unnamed last => exact agree_inside (agree_throw _ _)

/-- Bounds on the depth above the number of bytes left make no difference. -/
theorem agree_skipFieldFuel {fuel fuel' : Nat} (enough : left ≤ fuel) (enough' : left ≤ fuel') (type : HeadType) :
    Agree 0 left (skipFieldFuel fuel type) (skipFieldFuel fuel' type) := by
  induction left generalizing fuel fuel' type with
  | zero => exact fun r _ few => absurd few (Nat.not_lt_zero _)
  | succ left ih =>
    obtain ⟨fuel,rfl⟩ : ∃ n, fuel = n + 1 := ⟨fuel - 1,by omega⟩
    obtain ⟨fuel',rfl⟩ : ∃ n, fuel' = n + 1 := ⟨fuel' - 1,by omega⟩
    exact agree_skipFieldWith (ih (by omega) (by omega)) type

theorem agree_skipField (type : HeadType) : Agree 0 left (skipField type) (skipField type) := by
  intro r starts _
  exact agree_skipFieldFuel (show r.buf.length + 1 ≤ r.buf.length + 1 from le_rfl) le_rfl type r starts (by rw [Buffered.remaining]; omega)

/-- `skipField` is what the source writes: its calls are calls of itself. -/
theorem skipField_eq (type : HeadType) {r : Buffered} (inside : r.Inside) :
    (skipField type).run r = (skipFieldWith skipField type).run r := by
  have calls : ∀ t, Agree 0 r.buf.length (skipFieldFuel r.buf.length t) (skipField t) := by
    intro t r' starts few
    exact agree_skipFieldFuel (show min r.buf.length (r'.buf.length + 1) ≤ r.buf.length by omega) (by omega) t r' starts
      (by rw [Buffered.remaining] at few ⊢; omega)
  exact (agree_skipFieldWith calls type r inside (by rw [Buffered.remaining]; omega)).1

end

end CppSdk.TarsSafety

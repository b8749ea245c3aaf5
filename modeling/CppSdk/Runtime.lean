import CppSdk.ByteString

/-!
What the sources take from their language and their libraries: how a call can fail,
the conversions between the integer types, texts of numbers, cropped views of a
buffer, and the functions of bcos-utilities.
-/
namespace CppSdk.Runtime
open CppSdk.ByteString

/-- How a call ends when it does not return: with an exception, in a failed `assert`,
    outside what the language defines, or never. -/
inductive Failure where
  | throws (what : Bytes)
  | aborts (assertion : Bytes)
  | undefined
  | diverges
  deriving DecidableEq

/-- The result of a call. -/
abbrev Call (α : Type) := Except Failure α

/-- `BOOST_THROW_EXCEPTION` with the text of the exception. -/
def throws {α : Type} (what : Bytes) : Call α := .error (.throws what)
/-- `assert`, which the release build leaves out. -/
def assert (ndebug : Bool) (assertion : String) (holds : Bool) : Call Unit :=
  if ndebug || holds then .ok () else .error (.aborts (lit assertion))

theorem bind_ok {α β : Type} {call : Call α} {next : α → Call β} {b : β} :
    (call >>= next) = .ok b ↔ ∃ a, call = .ok a ∧ next a = .ok b := by
  cases call with
  | error failure => simp [bind,Except.bind]
  | ok a => simp [bind,Except.bind]
/-- The call returns or fails: it does not run for ever. -/
def Ends {α : Type} (call : Call α) : Prop := call ≠ .error .diverges

theorem ends_ok {α : Type} (a : α) : Ends (.ok a : Call α) := nofun
theorem ends_undefined {α : Type} : Ends (.error .undefined : Call α) := nofun
theorem ends_throws {α : Type} (what : Bytes) : Ends (throws what : Call α) := nofun
theorem ends_bind {α β : Type} {call : Call α} {next : α → Call β} (first : Ends call)
    (later : ∀ a, call = .ok a → Ends (next a)) : Ends (call >>= next) := by
  cases called : call with
  | error failure =>
    rw [called] at first
    exact fun same => first (congrArg Except.error (Except.error.inj same))
  | ok a => exact later a called
@[simp] theorem ok_bind {α β : Type} (a : α) (next : α → Call β) : ((.ok a : Call α) >>= next) = next a := rfl
@[simp] theorem error_bind {α β : Type} (failure : Failure) (next : α → Call β) :
    ((.error failure : Call α) >>= next) = .error failure := rfl
@[simp] theorem pure_ok {α : Type} (a : α) : (pure a : Call α) = .ok a := rfl

/-! ### Methods -/

/-- A method of an object: what it assigns before an exception stays. -/
abbrev Method (ε σ : Type) := ExceptT ε (StateM σ)

section
variable {ε σ α β : Type}

theorem run_bind {step : Method ε σ α} {next : α → Method ε σ β} {s after : σ} {a : α} (ran : step.run s = (.ok a,after)) :
    (step >>= next).run s = (next a).run after := by
  change ExceptT.bindCont next _ _ = _
  rw [show step s = _ from ran]
  rfl
theorem run_bind_error {step : Method ε σ α} {next : α → Method ε σ β} {s after : σ} {e : ε}
    (ran : step.run s = (.error e,after)) : (step >>= next).run s = (.error e,after) := by
  change ExceptT.bindCont next _ _ = _
  rw [show step s = _ from ran]
  rfl
theorem run_lift {call : Except ε α} {s : σ} {a : α} (called : call = .ok a) :
    (liftM call : Method ε σ α).run s = (.ok a,s) := by
  subst called
  rfl
theorem run_lift_error {call : Except ε α} {s : σ} {e : ε} (called : call = .error e) :
    (liftM call : Method ε σ α).run s = (.error e,s) := by
  subst called
  rfl
theorem run_modify (change : σ → σ) (s : σ) : (modify change : Method ε σ Unit).run s = (.ok (),change s) := rfl

end

/-! ### Numbers -/

/-- `std::to_string` of a number. -/
def stdToString (n : Nat) : Bytes := (Nat.toDigits 10 n).map (fun c => UInt8.ofNat c.toNat)

/-- The 256-bit words of the sources, `u256`. -/
abbrev U256 := BitVec 256
/-- `s2u`: two's complement. -/
def s2u (i : Int) : U256 := BitVec.ofInt 256 i
/-- `u2s`: two's complement. -/
def u2s (u : U256) : Int := u.toInt
/-- `(std::size_t)u` keeps the low 64 bits. -/
def sizeOfWord (u : U256) : UInt64 := UInt64.ofNat u.toNat
/-- `u256(size)`. -/
def wordOfSize (size : UInt64) : U256 := BitVec.ofNat 256 size.toNat

theorem sizeOfWord_toNat {w : U256} (small : w.toNat < 2 ^ 64) : (sizeOfWord w).toNat = w.toNat := by
  rw [sizeOfWord,UInt64.toNat_ofNat']
  exact Nat.mod_eq_of_lt small
theorem sizeOfWord_ofNat {n : Nat} (small : n < 2 ^ 64) : (sizeOfWord (BitVec.ofNat 256 n)).toNat = n := by
  rw [sizeOfWord,BitVec.toNat_ofNat,UInt64.toNat_ofNat']
  omega

/-- A sum of positions that does not wrap. -/
theorem add_toNat {a b : UInt64} (small : a.toNat + b.toNat < 2 ^ 64) : (a + b).toNat = a.toNat + b.toNat := by
  rw [UInt64.toNat_add,Nat.mod_eq_of_lt small]
theorem add_word {offset : UInt64} (small : offset.toNat + 32 < 2 ^ 64) : (offset + 32).toNat = offset.toNat + 32 :=
  add_toNat small
/-- The last byte of a word. -/
theorem last_word (offset : UInt64) : offset + 32 - 1 = offset + 31 := by grind

theorem u2s_s2u {i : Int} (low : -2 ^ 255 ≤ i) (high : i < 2 ^ 255) : u2s (s2u i) = i := by
  rw [u2s,s2u,BitVec.toInt_ofInt]
  apply Int.bmod_eq_of_le
  · omega
  · omega
theorem s2u_toNat (i : Int) : (s2u i).toNat = (i % 2 ^ 256).toNat := by
  rw [s2u,BitVec.toNat_ofInt]
  rfl

/-- `int currentOffset`, the cursor in the heads: a `size_t` narrowed to `int`. -/
abbrev Cursor := Int32
/-- `int currentOffset = _offset`. -/
def cursorAt (offset : UInt64) : Cursor := offset.toUInt32.toInt32
/-- The `size_t` an `int` argument converts to. -/
def Cursor.position (cursor : Cursor) : UInt64 := cursor.toInt64.toUInt64
/-- `currentOffset += size` with an `unsigned` size. -/
def Cursor.advance (cursor : Cursor) (size : UInt32) : Cursor := (cursor.toUInt32 + size).toInt32

theorem cursorAt_advance (offset : UInt64) (size : UInt32) :
    Cursor.advance (cursorAt offset) size = cursorAt (offset + size.toUInt64) := by
  have same : (offset.toUInt32.toInt32).toUInt32 = offset.toUInt32 := by simp
  rw [Cursor.advance,cursorAt,same,cursorAt]
  congr 1
  apply UInt32.toNat_inj.mp
  simp [UInt32.toNat_add]

/-- A position below 2^31 survives the narrowing to `int`. -/
theorem cursorAt_position {offset : UInt64} (small : offset.toNat < 2 ^ 31) :
    Cursor.position (cursorAt offset) = offset := by
  have value : offset.toUInt32.toInt32.toInt = offset.toNat := by
    rw [← Int32.toInt_toBitVec,UInt32.toBitVec_toInt32,BitVec.toInt_eq_toNat_cond]
    simp
    omega
  have same : offset.toUInt32.toInt32.toInt64 = offset.toInt64 := by
    apply Int64.toInt_inj.mp
    rw [Int32.toInt_toInt64,value,← Int64.toInt_toBitVec,UInt64.toBitVec_toInt64,BitVec.toInt_eq_toNat_cond]
    simp
    omega
  rw [Cursor.position,cursorAt,same,UInt64.toUInt64_toInt64]

/-! ### Views of a buffer -/

/-- `getCroppedData`: the range, or an empty view when it does not fit. -/
def getCroppedData (buffer : Bytes) (start count : Nat) : Bytes :=
  if start + count ≤ buffer.length then (buffer.drop start).take count else []
/-- The word at a position, as `getCroppedData` has it. -/
def wordAt (data : Bytes) (position : UInt64) : U256 := BitVec.ofNat 256 (fromBigEndian (getCroppedData data position.toNat 32))
/-- The last byte of the word at the position is inside the data. -/
def WordInside (data : Bytes) (position : UInt64) : Prop := (position + 31).toNat < data.length
instance (data : Bytes) (position : UInt64) : Decidable (WordInside data position) := inferInstanceAs (Decidable (_ < _))
/-- `populate` on a zeroed target of the given size. -/
def populate (view : Bytes) (size : Nat) : Bytes := view.take size ++ List.replicate (size - view.length) 0

theorem getCroppedData_occurs {buffer part : Bytes} {start : Nat} (found : Occurs buffer start part) :
    getCroppedData buffer start part.length = part := by
  rw [getCroppedData,if_pos (occurs_bound found),occurs_slice found]
theorem getCroppedData_slice {buffer : Bytes} {start count : Nat} (inside : start + count ≤ buffer.length) :
    (getCroppedData buffer start count).length = count ∧
      Occurs buffer start (getCroppedData buffer start count) := by
  rw [getCroppedData,if_pos inside]
  refine ⟨by simp; omega,buffer.take start,(buffer.drop start).drop count,?_,by simp; omega⟩
  rw [List.append_assoc,List.take_append_drop,List.take_append_drop]
/-- A word that is found is read. -/
theorem getCroppedData_word {buffer : Bytes} {start n : Nat} (found : Occurs buffer start (word n)) :
    BitVec.ofNat 256 (fromBigEndian (getCroppedData buffer start 32)) = BitVec.ofNat 256 n := by
  have content := getCroppedData_occurs found
  have same : 256 ^ 32 = 2 ^ 256 := by norm_num
  rw [word_length] at content
  rw [content,word,fromBigEndian_toBigEndian,same]
  exact BitVec.eq_of_toNat_eq (by simp)
theorem populate_exact (view : Bytes) : populate view view.length = view := by simp [populate]

/-! ### bcos-utilities -/

/-- The functions of bcos-utilities that the sources call: the `Address` read from a
    string and `hexPrefixed` of one, and the hexadecimal text of bytes and back. -/
structure Utilities where
  address : Bytes → Call Bytes
  hexPrefixed : Bytes → Bytes
  toHexString : Bytes → Bytes
  fromHexString : Bytes → Call Bytes

/-- The text of an address: `0x` and 40 lower-case hexadecimal digits. -/
def addressText (account : Bytes) : Bytes := lit "0x" ++ toHex account

/-- Their documented behaviour on addresses and on lower-case hexadecimal text. -/
structure Utilities.Documented (U : Utilities) : Prop where
  address_reads : ∀ account : Bytes, account.length = 20 → U.address (addressText account) = .ok account
  hexPrefixed_writes : ∀ account : Bytes, account.length = 20 → U.hexPrefixed account = addressText account
  toHexString_writes : ∀ content, U.toHexString content = toHex content
  fromHexString_reads : ∀ content, U.fromHexString (toHex content) = .ok content

/-- Functions with the documented behaviour, which reject every other text. -/
def Utilities.reference : Utilities where
  address text :=
    if text.take 2 = lit "0x" ∧ text.length = 42 ∧ IsHex (text.drop 2) then .ok (ofHex (text.drop 2))
    else throws (lit "FixedBytes: invalid hex string")
  hexPrefixed := addressText
  toHexString := toHex
  fromHexString text :=
    if text.length % 2 = 0 ∧ IsHex text then .ok (ofHex text)
    else throws (lit "fromHexString: bad hex string")

theorem reference_documented : Utilities.reference.Documented where
  address_reads account exact := by
    have front : (addressText account).take 2 = lit "0x" := rfl
    have back : (addressText account).drop 2 = toHex account := rfl
    have size : (addressText account).length = 42 := by simp [addressText,exact,lit]
    simp only [Utilities.reference,front,back,size,ofHex_toHex,true_and]
    exact if_pos (toHex_digits account)
  hexPrefixed_writes _ _ := rfl
  toHexString_writes _ := rfl
  fromHexString_reads content := by
    have even : (toHex content).length % 2 = 0 := by rw [toHex_length]; omega
    simp only [Utilities.reference,ofHex_toHex,even,true_and]
    exact if_pos (toHex_digits content)

end CppSdk.Runtime

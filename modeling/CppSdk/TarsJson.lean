import CppSdk.TarsStream
import CppSdk.ReceiptJson

/-!
`tc_json.h` and `tc_json.cpp`: the reader and the writer of JSON texts. The reader keeps to JSON
but for a few ways of its own: letters of either case in `true`, `false` and `null`, escapes that
it passes over, numbers with leading zeros, and exponents that it loses.
-/
namespace CppSdk.TarsJson
open CppSdk.ByteString CppSdk.Runtime CppSdk.Texts CppSdk.Cursors
open CppSdk.TarsStream (snprintf)
open CppSdk.ReceiptJson (JsonValue)

/-- Induction on values with a hypothesis for every element and every member. -/
@[elab_as_elim]
theorem JsonValue.induct {motive : JsonValue → Prop} (string : ∀ value, motive (.string value)) (num : ∀ lvalue, motive (.num lvalue))
    (obj : ∀ members, (∀ p ∈ members, motive p.2) → motive (.obj members))
    (array : ∀ elements, (∀ v ∈ elements, motive v) → motive (.array elements)) (boolean : ∀ value, motive (.boolean value))
    (null : motive .null) (v : JsonValue) : motive v :=
  @JsonValue.rec motive (fun members => ∀ p ∈ members, motive p.2) (fun elements => ∀ v ∈ elements, motive v) (fun p => motive p.2)
    string num obj array boolean null (by simp) (fun _ _ here later => List.forall_mem_cons.mpr ⟨here,later⟩) (by simp)
    (fun _ _ here later => List.forall_mem_cons.mpr ⟨here,later⟩) (fun _ _ value => value) v

/-! ### `BufferJsonReader` -/

/-- A call of a reader of JSON. -/
abbrev JsonRead (α : Type) := Read Failure α

variable {α : Type}

/-- A `TC_Json_Exception`, with a `uint32_t` in its text. -/
def exception (before : String) (n : Nat) (after : String) : Failure :=
  .throws (snprintf 64 (lit before ++ stdToString (n % 4294967296) ++ lit after))
/-- The exception with the position, `getCur`. -/
def throwAt (before after : String) : JsonRead α := do
  let r ← get
  throw (exception before r.cur after)

/-- `read`, with `check`. -/
def read : JsonRead UInt8 := do
  let r ← get
  match r.buf[r.cur]? with
  | some c =>
    set { r with cur := r.cur + 1 }
    pure c
  | none => throw (exception "buffer overflow when peekBuf, over " r.buf.length ".")
/-- `assert`. -/
def asserts (assertion : String) (holds : Bool) : JsonRead Unit := if holds then pure () else throw (.aborts (lit assertion))
/-- `back`. -/
def back : JsonRead Unit := do
  let r ← get
  asserts "_cur>0" (decide (0 < r.cur))
  set { r with cur := r.cur - 1 }
/-- `hasEnd`. -/
def hasEnd : JsonRead Bool := do
  let r ← get
  pure (decide (r.buf.length ≤ r.cur))

/-! ### The reader -/

/-- `TC_Json::isspace`. -/
def isspace (c : UInt8) : Bool := c == 32 || c == 9 || c == 13 || c == 10
/-- `read` with `FILTER_SPACE` after it. -/
def readToken : JsonRead UInt8 :=
  loop .diverges (fun _ => do
    let c ← read
    pure (if isspace c then .inl () else .inr c)) ()

/-- One digit of `getHex`. -/
def addHex (iCode : Nat) : JsonRead Nat := do
  let c ← read
  if 97 ≤ c && c ≤ 102 then pure (iCode * 16 + (c.toNat - 97 + 10))
  else if 65 ≤ c && c ≤ 70 then pure (iCode * 16 + (c.toNat - 65 + 10))
  else if 48 ≤ c && c ≤ 57 then pure (iCode * 16 + (c.toNat - 48))
  else throwAt "get string error3(\\u)[pos:" "]"
/-- `getHex`. -/
def getHex : JsonRead Nat := do
  let iCode ← addHex 0
  let iCode ← addHex iCode
  let iCode ← addHex iCode
  addHex iCode

/-- What `getString` makes of the number of an escape. -/
def codeBytes (iCode : Nat) : Bytes :=
  if iCode < 128 then [UInt8.ofNat (iCode % 256)]
  else if iCode < 2048 then [UInt8.ofNat (192 + iCode / 64 % 32),UInt8.ofNat (128 + iCode % 64)]
  else if iCode < 65536 then
    [UInt8.ofNat (224 + iCode / 4096 % 16),UInt8.ofNat (128 + iCode / 64 % 64),UInt8.ofNat (128 + iCode % 64)]
  else
    [UInt8.ofNat (240 + iCode / 262144 % 8),UInt8.ofNat (128 + iCode / 4096 % 64),UInt8.ofNat (128 + iCode / 64 % 64),
      UInt8.ofNat (128 + iCode % 64)]

/-- What `getString` appends for the character after a backslash, nothing for one that it does not know, and the digits of a number. -/
def readEscape (c : UInt8) : JsonRead (Bytes × Bytes) :=
  if c = 92 ∨ c = 34 ∨ c = 47 then pure ([c],[])
  else if c = 98 then pure ([8],[])
  else if c = 102 then pure ([12],[])
  else if c = 110 then pure ([10],[])
  else if c = 114 then pure ([13],[])
  else if c = 116 then pure ([9],[])
  else if c = 117 then do
    let r ← get
    let iCode ← getHex
    pure (codeBytes iCode,(r.buf.drop r.cur).take 4)
  else pure ([],[])
/-- The variables of `getString`; of `pChar`, the characters from there to the position. -/
structure StringState where
  value : Bytes
  pChar : Bytes
  i : Nat
/-- What `getString` does with a character. The `uint32_t` starts again behind its greatest number, and then too little is appended. -/
def stringCharacter (head : UInt8) (s : StringState) (c : UInt8) : JsonRead (StringState ⊕ Bytes) :=
  if c = 92 then do
    let c ← read
    let escape ← readEscape c
    pure (.inl ⟨s.value ++ s.pChar.take s.i ++ escape.1,(s.pChar ++ 92 :: c :: escape.2).drop (s.i + 2 + escape.2.length),0⟩)
  else if c = head then pure (.inr (s.value ++ s.pChar.take s.i))
  else pure (.inl ⟨s.value,s.pChar ++ [c],(s.i + 1) % 4294967296⟩)
/-- A round of `getString`. -/
def stringRound (head : UInt8) (s : StringState) : JsonRead (StringState ⊕ Bytes) := do
  let c ← read
  stringCharacter head s c
/-- `getString`. -/
def getString (head : UInt8) : JsonRead Bytes := loop .diverges (stringRound head) ⟨[],[],0⟩

/-- The arithmetic of `double`: the `int64_t` of `(iInt + dFloat) * pow(10,iExponential)` with the digits of `dFloat`,
    negated or not, if there is one. -/
structure Doubles where
  lvalue : Int → Bytes → Int → Bool → Option Int64

/-- The variables of `getNum`; of `dFloat`, its digits. -/
structure NumState where
  bOk : Bool
  bFloat : Bool
  bExponential : Bool
  bNegative : Bool
  bExponentialNegative : Bool
  iInt : Int
  digits : Bytes
  iExponential : Int

/-- The result of an operation on `int64_t`, which must not overflow. -/
def int64 (n : Int) : JsonRead Int := if -9223372036854775808 ≤ n ∧ n < 9223372036854775808 then pure n else throw .undefined
/-- `n * 10 + c - 0x30`. -/
def addDigit (n : Int) (c : UInt8) : JsonRead Int := do
  let product ← int64 (n * 10)
  let sum ← int64 (product + c.toNat)
  int64 (sum - 48)

/-- What `getNum` does with a digit. -/
def numDigit (s : NumState) (c : UInt8) : JsonRead NumState := do
  if s.bExponential then
    let iExponential ← addDigit s.iExponential c
    pure { s with bOk := true, iExponential }
  else if s.bFloat then pure { s with bOk := true, digits := s.digits ++ [c] }
  else
    let iInt ← addDigit s.iInt c
    pure { s with bOk := true, iInt }
/-- What `getNum` does behind an `e`, with whether it leaves the loop to go back. The first digit of an exponent is not kept. -/
def numExponent (s : NumState) : JsonRead (NumState ⊕ (NumState × Bool)) := do
  let s := { s with bOk := false, bExponential := true, iExponential := 0 }
  if ← hasEnd then pure (.inr (s,false))
  else
    let c ← read
    if c = 45 then pure (.inl { s with bExponentialNegative := true })
    else if c = 43 then pure (.inl { s with bExponentialNegative := false })
    else if isDigit c then pure (.inl { s with bOk := true, bExponential := c != 48 })
    else pure (.inr (s,true))
/-- What `getNum` does with a character: it leaves the loop with `bNeedBack`. -/
def numCharacter (s : NumState) (c : UInt8) : JsonRead (NumState ⊕ (NumState × Bool)) :=
  if isDigit c then .inl <$> numDigit s c
  else if c == 46 && !s.bFloat && !s.bExponential && s.bOk then pure (.inl { s with bOk := false, bFloat := true })
  else if (c == 101 || c == 69) && !s.bExponential && s.bOk then numExponent s
  else pure (.inr (s,true))
/-- A round of `getNum`. -/
def numRound (s : NumState) : JsonRead (NumState ⊕ (NumState × Bool)) := do
  if ← hasEnd then pure (.inr (s,false))
  else
    let c ← read
    numCharacter s c
/-- A number with its sign. -/
def signed (negative : Bool) (n : Int) : Int := if negative then 0 - n else n
/-- The number at the end of `getNum`. -/
def numValue (D : Doubles) (s : NumState) : JsonRead Int64 :=
  if s.bFloat then
    match D.lvalue s.iInt s.digits (signed s.bExponentialNegative s.iExponential) s.bNegative with
    | some lvalue => pure lvalue
    | none => throw .undefined
  else pure (Int64.ofInt (signed s.bNegative s.iInt))
/-- The variables of `getNum` before the loop. -/
def numStart (head : UInt8) : NumState :=
  if head = 45 then ⟨false,false,false,true,false,0,[],0⟩ else ⟨true,false,false,false,false,head.toNat - 48,[],0⟩
/-- What `getNum` does behind the loop. -/
def numEnd (D : Doubles) (s : NumState) (bNeedBack : Bool) : JsonRead Int64 :=
  if !s.bOk then throwAt "get num error[pos:" "]"
  else if bNeedBack then do
    back
    numValue D s
  else numValue D s
/-- `getNum`. -/
def getNum (D : Doubles) (head : UInt8) : JsonRead Int64 := do
  let (s,bNeedBack) ← loop .diverges numRound (numStart head)
  numEnd D s bNeedBack

/-- Whether the letters of a word follow, in either case; the first that does not is read too. -/
def letters : Bytes → JsonRead Bool
  | [] => pure true
  | letter :: rest => do
    let c ← read
    if c = letter ∨ c = letter - 32 then letters rest else pure false
/-- The letters behind the first one of `true` or of `false`. -/
def booleanLetters (c : UInt8) : JsonRead Bool :=
  if c = 116 ∨ c = 84 then letters (lit "rue") else if c = 102 ∨ c = 70 then letters (lit "alse") else pure false
/-- `getBoolean`. -/
def getBoolean (c : UInt8) : JsonRead Bool := do
  let bOk ← booleanLetters c
  if bOk then pure (c == 116 || c == 84) else throwAt "get bool error[pos:" "]"
/-- `getNull`. -/
def getNull (c : UInt8) : JsonRead Unit := do
  asserts "c=='n' || c=='N'" (c == 110 || c == 78)
  let bOk ← letters (lit "ull")
  if bOk then pure () else throwAt "get NULL error[pos:" "]"

/-- `p->value[key] = value` of an object. -/
def assign (members : List (Bytes × JsonValue)) (key : Bytes) (value : JsonValue) : List (Bytes × JsonValue) :=
  members.filter (fun p => p.1 ≠ key) ++ [(key,value)]

section
variable (D : Doubles) (getValue : JsonRead JsonValue)

/-- What `getObj` does behind a value: the members, and `bFirst`. -/
def objNext (members : List (Bytes × JsonValue)) : JsonRead ((List (Bytes × JsonValue) × Bool) ⊕ List (Bytes × JsonValue)) := do
  let c ← readToken
  if c = 44 then pure (.inl (members,false))
  else if c = 125 then pure (.inr members)
  else throwAt "get obj error(, not find)[pos:" "]"
/-- What `getObj` does behind a key, with the calls of `getValue`. -/
def objValue (members : List (Bytes × JsonValue)) (key : Bytes) :
    JsonRead ((List (Bytes × JsonValue) × Bool) ⊕ List (Bytes × JsonValue)) := do
  let c ← readToken
  if c ≠ 58 then throwAt "get obj error(: not find)[pos:" "]"
  else
    let value ← getValue
    objNext (assign members key value)
/-- What `getObj` does with the character that a member starts with. -/
def objMember (s : List (Bytes × JsonValue) × Bool) (c : UInt8) :
    JsonRead ((List (Bytes × JsonValue) × Bool) ⊕ List (Bytes × JsonValue)) :=
  if c = 125 ∧ s.2 = true then pure (.inr s.1)
  else if c ≠ 34 then throwAt "get obj error(key is not string)[pos:" "]"
  else do
    let key ← getString 34
    objValue getValue s.1 key
/-- A round of `getObj`. -/
def objRound (s : List (Bytes × JsonValue) × Bool) : JsonRead ((List (Bytes × JsonValue) × Bool) ⊕ List (Bytes × JsonValue)) := do
  let c ← readToken
  objMember getValue s c
/-- `getObj`. -/
def getObjWith : JsonRead (List (Bytes × JsonValue)) := loop .diverges (objRound getValue) ([],true)

/-- Whether the array ends here; if not, what was read is given back. -/
def endsArray : JsonRead Bool := do
  let c ← readToken
  if c = 93 then pure true
  else
    back
    pure false
/-- What `getArray` does behind a value. -/
def arrayNext (elements : List JsonValue) : JsonRead (List JsonValue ⊕ List JsonValue) := do
  let c ← readToken
  if c = 44 then pure (.inl elements)
  else if c = 93 then pure (.inr elements)
  else throwAt "get vector error(, not find )[pos:" "]"
/-- A round of `getArray` from the value on. -/
def arrayRound (elements : List JsonValue) : JsonRead (List JsonValue ⊕ List JsonValue) := do
  let value ← getValue
  arrayNext (elements ++ [value])
/-- `getArray`. -/
def getArrayWith : JsonRead (List JsonValue) := do
  if ← endsArray then pure [] else loop .diverges (arrayRound getValue) []

/-- The `switch` of `getValue` on the first character. -/
def valueFrom (c : UInt8) : JsonRead JsonValue :=
  if c = 123 then .obj <$> getObjWith getValue
  else if c = 91 then .array <$> getArrayWith getValue
  else if c = 34 then .string <$> getString c
  else if c = 84 ∨ c = 116 ∨ c = 70 ∨ c = 102 then .boolean <$> getBoolean c
  else if isDigit c = true ∨ c = 45 then .num <$> getNum D c
  else if c = 110 ∨ c = 78 then (fun _ => .null) <$> getNull c
  else throwAt "buffer overflow when peekBuf, over " "."
/-- `getValue` with the calls that it makes of itself. -/
def getValueWith : JsonRead JsonValue := do
  let c ← readToken
  valueFrom D getValue c

/-- `getValue` with a bound on the depth of its calls. -/
def getValueFuel : Nat → JsonRead JsonValue
  | 0 => throw .diverges
  | fuel + 1 => getValueWith D (getValueFuel fuel)

end

/-- `getValue` of a reader. -/
def getValue (D : Doubles) : JsonRead JsonValue := do
  let r ← get
  getValueFuel D (r.buf.length + 1)
/-- `getValue` of a text. What follows the value is not looked at. -/
def getValueOf (D : Doubles) (str : Bytes) : Call JsonValue := ((getValue D).run ⟨str,0⟩).1

/-! ### The writer -/

/-- What `writeString` writes for a character. -/
def escape (c : UInt8) : Bytes :=
  if c = 34 then lit "\\\""
  else if c = 92 then lit "\\\\"
  else if c = 47 then lit "\\/"
  else if c = 8 then lit "\\b"
  else if c = 12 then lit "\\f"
  else if c = 10 then lit "\\n"
  else if c = 13 then lit "\\r"
  else if c = 9 then lit "\\t"
  else if c < 32 then lit "\\u00" ++ [hexDigit (c.toNat / 16),hexDigit (c.toNat % 16)]
  else [c]
/-- `writeString`. -/
def writeString (s : Bytes) : Bytes := lit "\"" ++ s.flatMap escape ++ lit "\""
/-- `writeBoolean`. -/
def writeBoolean (value : Bool) : Bytes := if value then lit "true" else lit "false"
/-- A mark, with a space after it or without one. -/
def mark (withSpace : Bool) (text : String) : Bytes := lit text ++ (if withSpace then lit " " else [])
/-- What ends an object or an array. -/
def close (withSpace : Bool) (text : String) : Bytes := (if withSpace then lit " " else []) ++ lit text

mutual
/-- `writeValue`; an object is written in the order in which its map is iterated over. Nothing is written for a
    `JsonValueNull` where `assert` is left out. A number is one with `isInt`, as all are that the structs write: of
    `writeNum` this is the last case, and those of a `double` and of a NaN are left out. -/
def writeValue (ndebug withSpace : Bool) : JsonValue → Call Bytes
  | .string value => .ok (writeString value)
  | .num lvalue => .ok (intText lvalue.toInt)
  | .obj members => do .ok (mark withSpace "\x7b" ++ (← writeMembers ndebug withSpace members) ++ close withSpace "\x7d")
  | .array elements => do .ok (mark withSpace "[" ++ (← writeElements ndebug withSpace elements) ++ close withSpace "]")
  | .boolean value => .ok (writeBoolean value)
  | .null => do
    assert ndebug "false" false
    .ok []
/-- The loop of `writeObj`. -/
def writeMembers (ndebug withSpace : Bool) : List (Bytes × JsonValue) → Call Bytes
  | [] => .ok []
  | [(key,value)] => do .ok (writeString key ++ mark withSpace ":" ++ (← writeValue ndebug false value))
  | (key,value) :: rest => do
    let text ← writeValue ndebug false value
    .ok (writeString key ++ mark withSpace ":" ++ text ++ mark withSpace "," ++ (← writeMembers ndebug withSpace rest))
/-- The loop of `writeArray`. -/
def writeElements (ndebug withSpace : Bool) : List JsonValue → Call Bytes
  | [] => .ok []
  | [value] => writeValue ndebug false value
  | value :: rest => do
    let text ← writeValue ndebug false value
    .ok (text ++ mark withSpace "," ++ (← writeElements ndebug withSpace rest))
end

end CppSdk.TarsJson

import CppSdk.Cursors
import CppSdk.Texts

/-!
`Tars.h`: the streams that write and read tagged fields. A field is a head (a type and a tag)
and what follows it; a reader looks for a tag, skips the fields with smaller ones, and takes
an integer of any width up to its own.
-/
namespace CppSdk.TarsStream
open CppSdk.ByteString CppSdk.Runtime CppSdk.Texts CppSdk.Cursors

/-! ### Heads -/

/-- The types of a head, `TarsHeadeChar` and so on, and the two codes without a name. -/
inductive HeadType where
  | char
  | short
  | int32
  | int64
  | float
  | double
  | string1
  | string4
  | map
  | list
  | structBegin
  | structEnd
  | zeroTag
  | simpleList
  | unnamed (last : Bool)
  deriving DecidableEq

def HeadType.code : HeadType → UInt8
  | .char => 0
  | .short => 1
  | .int32 => 2
  | .int64 => 3
  | .float => 4
  | .double => 5
  | .string1 => 6
  | .string4 => 7
  | .map => 8
  | .list => 9
  | .structBegin => 10
  | .structEnd => 11
  | .zeroTag => 12
  | .simpleList => 13
  | .unnamed last => if last then 15 else 14
/-- The type of a code below 16. -/
def HeadType.ofCode (code : UInt8) : HeadType :=
  match code.toNat with
  | 0 => .char
  | 1 => .short
  | 2 => .int32
  | 3 => .int64
  | 4 => .float
  | 5 => .double
  | 6 => .string1
  | 7 => .string4
  | 8 => .map
  | 9 => .list
  | 10 => .structBegin
  | 11 => .structEnd
  | 12 => .zeroTag
  | 13 => .simpleList
  | n => .unnamed (n == 15)

/-- `DataHead`. -/
structure DataHead where
  type : HeadType
  tag : UInt8
  deriving DecidableEq

/-! ### Failures -/

/-- The classes of exceptions, all of them `TarsDecodeException`s. -/
inductive TarsException where
  | decode
  | mismatch
  | requireNotExist
  | invalidValue
  deriving DecidableEq

/-- How a call of a stream ends when it does not return. -/
inductive TarsFailure where
  | throws (kind : TarsException) (what : Bytes)
  | undefined
  | diverges
  deriving DecidableEq

/-- The C string that `snprintf` leaves in an array of the size. -/
def snprintf (size : Nat) (text : Bytes) : Bytes := (text.take (size - 1)).takeWhile (fun c => c != 0)
/-- `%d` of a `uint8_t`. -/
def byteText (b : UInt8) : Bytes := stdToString b.toNat
/-- `%d` of a `uint32_t`. -/
def sizeText (n : UInt32) : Bytes := intText n.toInt32.toInt

/-! ### The buffer of a reader -/

/-- A call of a reader; what a failed one has consumed stays consumed. -/
abbrev TarsRead (α : Type) := Read TarsFailure α

variable {α β : Type}

/-- The exception of a read that does not fit. -/
def overflow (operation : String) : TarsRead α := do
  let r ← get
  throw (.throws .decode (snprintf 64 (lit "buffer overflow when " ++ lit operation ++ lit ", over " ++
    stdToString (r.buf.length % 4294967296) ++ lit ".")))
/-- The bytes in memory: only those of the buffer may be read. -/
def load (start size : Nat) : TarsRead Bytes := do
  let r ← get
  if start + size ≤ r.buf.length then pure ((r.buf.drop start).take size) else throw .undefined

/-- `TarsPeekTypeBuf`. -/
def peekTypeBuf (offset size : Nat) : TarsRead Bytes := do
  let r ← get
  if r.buf.length < r.cur + offset + size then overflow "peekBuf" else load (r.cur + offset) size
/-- `TarsReadHeadSkip`, which checks nothing. -/
def readHeadSkip (len : Nat) : TarsRead Unit := modify (fun r => { r with cur := r.cur + len })
/-- `TarsReadTypeBuf`. -/
def readTypeBuf (size : Nat) : TarsRead Bytes := do
  let bytes ← peekTypeBuf 0 size
  readHeadSkip size
  pure bytes
/-- `TarsReadStringBuf`. -/
def readStringBuf (len : Nat) : TarsRead Bytes := readTypeBuf len
/-- `BufferReader::readBuf`. -/
def readBuf (len : Nat) : TarsRead Bytes := do
  let r ← get
  if len ≤ r.buf.length ∧ r.cur + len ≤ r.buf.length then readTypeBuf len else overflow "skip"
/-- `BufferReader::hasEnd`. -/
def hasEnd : TarsRead Bool := do
  let r ← get
  if r.buf.length < r.cur then overflow "skip" else pure (decide (r.buf.length ≤ r.cur))

/-- A byte that is peeked. -/
def peekByte (offset : Nat) : TarsRead UInt8 := do
  let bytes ← peekTypeBuf offset 1
  pure (bytes.headD 0)
/-- `TarsPeekFromHead`: the head, and its size. -/
def peekFromHead : TarsRead (DataHead × Nat) := do
  let typeTag ← peekByte 0
  let tmpTag := typeTag >>> 4
  let type := HeadType.ofCode (typeTag &&& 15)
  if tmpTag = 15 then do
    let tag ← peekByte 1
    pure (⟨type,tag⟩,2)
  else pure (⟨type,tmpTag⟩,1)
/-- `readFromHead`. -/
def readFromHead : TarsRead DataHead := do
  let (head,n) ← peekFromHead
  readHeadSkip n
  pure head
/-- `readFromHeadNoTag`: the byte of the tag is checked for and not looked at. -/
def readFromHeadNoTag : TarsRead HeadType := do
  let typeTag ← peekByte 0
  let type := HeadType.ofCode (typeTag &&& 15)
  if typeTag >>> 4 = 15 then do
    let _ ← peekByte 1
    readHeadSkip 2
    pure type
  else do
    readHeadSkip 1
    pure type

/-! ### Looking for a tag -/

section
variable (skip : HeadType → TarsRead Unit)

/-- A round of `TarsSkipToTag`. -/
def skipToTagRound (tag : UInt8) : Unit → TarsRead (Unit ⊕ Option DataHead) := fun _ => do
  let ended ← hasEnd
  if ended then pure (.inr none)
  else do
    let (head,len) ← peekFromHead
    if head.type = .structEnd ∨ tag < head.tag then pure (.inr none)
    else if tag = head.tag then do
      readHeadSkip len
      pure (.inr (some head))
    else do
      readHeadSkip len
      skip head.type
      pure (.inl ())
/-- `TarsSkipToTag` with the calls of `skipField`: the exceptions of the search are caught. -/
def skipToTagWith (tag : UInt8) : TarsRead (Option DataHead) :=
  tryCatch (loop .diverges (skipToTagRound skip tag) ())
    (fun failure =>
      match failure with
      | .throws _ _ => pure none
      | failure => throw failure)
end

/-- What all `read` functions do: the payload is read when the search finds the tag, and
    else the value stays or is missed. -/
def readField (search : TarsRead (Option DataHead)) (payload : DataHead → TarsRead α) (notExist : Bytes) (a : α)
    (isRequire : Bool) : TarsRead α := do
  match ← search with
  | some head => payload head
  | none => if isRequire then throw (.throws .requireNotExist (snprintf 64 notExist)) else pure a

/-! ### Integers -/

/-- The integer types that have a head of their own. -/
inductive Width where
  | char
  | short
  | int32
  | int64
  deriving DecidableEq

def Width.size : Width → Nat
  | .char => 1
  | .short => 2
  | .int32 => 4
  | .int64 => 8
def Width.head : Width → HeadType
  | .char => .char
  | .short => .short
  | .int32 => .int32
  | .int64 => .int64
/-- The width of a payload that is an integer. -/
def Width.ofHead : HeadType → Option Width
  | .char => some .char
  | .short => some .short
  | .int32 => some .int32
  | .int64 => some .int64
  | _ => none
/-- The text of the mismatch. -/
def Width.mismatch (width : Width) (tag : UInt8) (head : DataHead) : Bytes :=
  match width with
  | .char => lit "read 'Char' type mismatch, tag: " ++ byteText tag ++ lit ", get type: " ++ byteText head.type.code ++ lit "."
  | .short => lit "read 'Short' type mismatch, tag: " ++ byteText tag ++ lit ", get type: " ++ byteText head.type.code ++ lit "."
  | .int32 => lit "read 'Int32' type mismatch, tag: " ++ byteText tag ++ lit ", get type: " ++ byteText head.type.code ++ lit "."
  | .int64 =>
    lit "read 'Int64' type mismatch, tag: " ++ byteText tag ++ lit ", headTag: " ++ [head.tag] ++ lit ", get type: " ++
      [head.type.code] ++ lit "."
/-- The text of the field that is missed, with what the variables of the head start with. -/
def Width.notExist (width : Width) (tag : UInt8) : Bytes :=
  match width with
  | .char => lit "require field not exist, tag: " ++ byteText tag ++ lit ", headTag: 0."
  | .short => lit "require field not exist, tag: " ++ byteText tag ++ lit ", headTag: 0"
  | .int32 => lit "require field not exist, tag: " ++ byteText tag ++ lit " headType: 1, headTag: 1"
  | .int64 => lit "require field not exist, tag: " ++ byteText tag ++ lit ", headTag: 0"

/-- The number that big-endian bytes spell in two's complement. -/
def signedBigEndian (bytes : Bytes) : Int := Int.bmod (fromBigEndian bytes) (256 ^ bytes.length)

/-- The `switch` of a `read` of an integer: no bytes for a zero, or those of a width up to
    its own. -/
def integerPayload (width : Width) (tag : UInt8) (head : DataHead) : TarsRead Int :=
  if head.type = .zeroTag then pure 0
  else match Width.ofHead head.type with
    | some narrow =>
      if narrow.size ≤ width.size then signedBigEndian <$> readTypeBuf narrow.size
      else throw (.throws .mismatch (snprintf 64 (width.mismatch tag head)))
    | none => throw (.throws .mismatch (snprintf 64 (width.mismatch tag head)))

section
variable (skip : HeadType → TarsRead Unit)

/-- `read` of `Char`, `Short`, `Int32` and `Int64`. -/
def readIntegerWith (width : Width) (n : Int) (tag : UInt8) (isRequire : Bool) : TarsRead Int :=
  readField (skipToTagWith skip tag) (integerPayload width tag) (width.notExist tag) n isRequire
/-- `read` of `UInt32`. -/
def readUInt32With (n : UInt32) (tag : UInt8) (isRequire : Bool) : TarsRead UInt32 := do
  let i ← readIntegerWith skip .int64 n.toNat tag isRequire
  pure (UInt32.ofNat (i % 4294967296).toNat)

/-! ### Skipping -/

/-- `skipField()`: a field with its head. -/
def skipHeadedWith : TarsRead Unit := do
  let headType ← readFromHeadNoTag
  skip headType
/-- A round of `skipToStructEnd`. -/
def skipToStructEndRound : Unit → TarsRead (Unit ⊕ Unit) := fun _ => do
  let headType ← readFromHeadNoTag
  skip headType
  pure (if headType = .structEnd then .inr () else .inl ())
/-- `skipToStructEnd`. -/
def skipToStructEndWith : TarsRead Unit := loop .diverges (skipToStructEndRound skip) ()

/-- `skipField` of a type with the calls that it makes. -/
def skipFieldWith (type : HeadType) : TarsRead Unit :=
  match type with
  | .char => readHeadSkip 1
  | .short => readHeadSkip 2
  | .int32 => readHeadSkip 4
  | .int64 => readHeadSkip 8
  | .float => readHeadSkip 4
  | .double => readHeadSkip 8
  | .string1 => do
    let len ← readTypeBuf 1
    readHeadSkip (fromBigEndian len)
  | .string4 => do
    let len ← readTypeBuf 4
    readHeadSkip (fromBigEndian len)
  | .map => do
    let size ← readUInt32With skip 0 0 true
    times (skipHeadedWith skip) (size * 2).toNat
  | .list => do
    let size ← readUInt32With skip 0 0 true
    times (skipHeadedWith skip) size.toNat
  | .simpleList => do
    let head ← readFromHead
    if head.type ≠ .char then
      throw (.throws .mismatch (snprintf 64 (lit "skipField with invalid type, type value: " ++ byteText type.code ++ lit ", " ++
        byteText head.type.code ++ lit ", " ++ byteText head.tag ++ lit ".")))
    else do
      let size ← readUInt32With skip 0 0 true
      readHeadSkip size.toNat
  | .structBegin => skipToStructEndWith skip
  | .structEnd => pure ()
  | .zeroTag => pure ()
  | .unnamed _ =>
    throw (.throws .mismatch (snprintf 64 (lit "skipField with invalid type, type value:" ++ byteText type.code ++ lit ".")))
end

/-- `skipField` with a bound on the depth of its calls. -/
def skipFieldFuel : Nat → HeadType → TarsRead Unit
  | 0, _ => throw .diverges
  | fuel + 1, type => skipFieldWith (skipFieldFuel fuel) type
/-- `skipField` of a type. -/
def skipField (type : HeadType) : TarsRead Unit := do
  let r ← get
  skipFieldFuel (r.buf.length + 1) type
/-- `TarsSkipToTag`. -/
def skipToTag (tag : UInt8) : TarsRead (Option DataHead) := skipToTagWith skipField tag
/-- `skipToStructEnd`. -/
def skipToStructEnd : TarsRead Unit := skipToStructEndWith skipField

/-! ### Reads -/

def readInteger (width : Width) (n : Int) (tag : UInt8) (isRequire : Bool) : TarsRead Int :=
  readIntegerWith skipField width n tag isRequire
def readChar (n : Int8) (tag : UInt8) (isRequire : Bool) : TarsRead Int8 := Int8.ofInt <$> readInteger .char n.toInt tag isRequire
def readShort (n : Int16) (tag : UInt8) (isRequire : Bool) : TarsRead Int16 := Int16.ofInt <$> readInteger .short n.toInt tag isRequire
def readInt32 (n : Int32) (tag : UInt8) (isRequire : Bool) : TarsRead Int32 := Int32.ofInt <$> readInteger .int32 n.toInt tag isRequire
def readInt64 (n : Int64) (tag : UInt8) (isRequire : Bool) : TarsRead Int64 := Int64.ofInt <$> readInteger .int64 n.toInt tag isRequire
def readBool (b : Bool) (tag : UInt8) (isRequire : Bool) : TarsRead Bool :=
  (fun c => c != 0) <$> readChar (if b then 1 else 0) tag isRequire
def readUInt8 (n : UInt8) (tag : UInt8) (isRequire : Bool) : TarsRead UInt8 :=
  (fun i => i.toInt8.toUInt8) <$> readShort n.toUInt16.toInt16 tag isRequire
def readUInt16 (n : UInt16) (tag : UInt8) (isRequire : Bool) : TarsRead UInt16 :=
  (fun i => i.toInt16.toUInt16) <$> readInt32 n.toUInt32.toInt32 tag isRequire
def readUInt32 (n : UInt32) (tag : UInt8) (isRequire : Bool) : TarsRead UInt32 := readUInt32With skipField n tag isRequire

/-- `TARS_MAX_STRING_LENGTH`. -/
def tarsMaxStringLength : Nat := 100 * 1024 * 1024

/-- The `switch` of `read` of a `std::string`. -/
def stringPayload (tag : UInt8) (head : DataHead) : TarsRead Bytes :=
  match head.type with
  | .string1 => do
    let strLength ← readTypeBuf 1
    readStringBuf (fromBigEndian strLength)
  | .string4 => do
    let strLength ← readTypeBuf 4
    if tarsMaxStringLength < fromBigEndian strLength then
      throw (.throws .invalidValue (snprintf 128 (lit "invalid string size, tag: " ++ byteText tag ++ lit ", size: " ++
        sizeText (UInt32.ofNat (fromBigEndian strLength)) ++ lit ", headTag: " ++ byteText head.tag)))
    else readStringBuf (fromBigEndian strLength)
  | _ =>
    throw (.throws .mismatch (snprintf 64 (lit "read 'string' type mismatch, tag: " ++ byteText tag ++ lit ", get type: " ++
      byteText head.type.code ++ lit ", tag: " ++ byteText head.tag ++ lit ".")))
/-- `read` of a `std::string`. -/
def readString (s : Bytes) (tag : UInt8) (isRequire : Bool) : TarsRead Bytes :=
  readField (skipToTag tag) (stringPayload tag) (lit "require field not exist, tag: " ++ byteText tag) s isRequire

/-- The text of a field of a container or a struct that is missed. -/
def notExistText (tag : UInt8) : Bytes := lit "require field not exist, tag: " ++ byteText tag ++ lit ", headTag: 0"
/-- The size of a container, which is at most that of the buffer. -/
def readSize (invalid : UInt32 → Bytes) : TarsRead UInt32 := do
  let size ← readUInt32 0 0 true
  let r ← get
  if r.buf.length < size.toNat then throw (.throws .invalidValue (snprintf 128 (invalid size))) else pure size

/-- The `switch` of `read` of a `std::vector<Char>`. -/
def charsPayload (tag : UInt8) (head : DataHead) : TarsRead Bytes :=
  match head.type with
  | .simpleList => do
    let inner ← readFromHead
    if inner.type ≠ .char then
      throw (.throws .mismatch (snprintf 128 (lit "type mismatch, tag: " ++ byteText tag ++ lit ", type: " ++
        byteText head.type.code ++ lit ", " ++ byteText inner.type.code ++ lit ", " ++ byteText inner.tag)))
    else do
      let size ← readSize (fun size => lit "invalid size, tag: " ++ byteText tag ++ lit ", type: " ++ byteText head.type.code ++
        lit ", " ++ byteText inner.type.code ++ lit ", size: " ++ sizeText size)
      readBuf size.toNat
  | .list => do
    let size ← readSize (fun size => lit "invalid size, tag: " ++ byteText tag ++ lit ", type: " ++ byteText head.type.code ++
      lit ", size: " ++ sizeText size)
    collect ((fun c => c.toUInt8) <$> readChar 0 0 true) size.toNat
  | _ =>
    throw (.throws .mismatch (snprintf 128 (lit "type mismatch, tag: " ++ byteText tag ++ lit ", type: " ++
      byteText head.type.code)))
/-- `read` of a `std::vector<Char>`. -/
def readChars (v : Bytes) (tag : UInt8) (isRequire : Bool) : TarsRead Bytes :=
  readField (skipToTag tag) (charsPayload tag) (notExistText tag) v isRequire

/-- The `switch` of `read` of a `std::vector`. -/
def vectorPayload (readElement : UInt8 → TarsRead α) (tag : UInt8) (head : DataHead) : TarsRead (List α) :=
  match head.type with
  | .list => do
    let size ← readSize (fun size => lit "invalid size, tag: " ++ byteText tag ++ lit ", type: " ++ byteText head.type.code ++
      lit ", size: " ++ sizeText size ++ lit ", headTag: " ++ byteText head.tag)
    collect (readElement 0) size.toNat
  | _ =>
    throw (.throws .mismatch (snprintf 64 (lit "read 'vector' type mismatch, tag: " ++ byteText tag ++ lit ", get type: " ++
      byteText head.type.code ++ lit ".")))
/-- `read` of a `std::vector` with the required read of an element. -/
def readVector (readElement : UInt8 → TarsRead α) (v : List α) (tag : UInt8) (isRequire : Bool) : TarsRead (List α) :=
  readField (skipToTag tag) (vectorPayload readElement tag) (notExistText tag) v isRequire

/-- `insert` of a `std::map` in the order of its keys, which leaves an entry with the key. -/
def insertNew (less : α → α → Bool) (key : α) (value : β) : List (α × β) → List (α × β)
  | [] => [(key,value)]
  | entry :: rest =>
    if less key entry.1 then (key,value) :: entry :: rest
    else if less entry.1 key then entry :: insertNew less key value rest
    else entry :: rest
/-- The `switch` of `read` of a `std::map`. -/
def mapPayload (less : α → α → Bool) (readKey : UInt8 → TarsRead α) (readValue : UInt8 → TarsRead β) (tag : UInt8)
    (head : DataHead) : TarsRead (List (α × β)) :=
  match head.type with
  | .map => do
    let size ← readSize (fun size => lit "invalid map, tag: " ++ byteText tag ++ lit ", size: " ++ sizeText size ++
      lit ", headTag: " ++ byteText head.tag)
    let entries ← collect (do
      let key ← readKey 0
      let value ← readValue 1
      pure (key,value)) size.toNat
    pure (entries.foldl (fun m entry => insertNew less entry.1 entry.2 m) [])
  | _ =>
    throw (.throws .mismatch (snprintf 64 (lit "read 'map' type mismatch, tag: " ++ byteText tag ++ lit ", get type: " ++
      byteText head.type.code ++ lit ".")))
/-- `read` of a `std::map`. -/
def readMap (less : α → α → Bool) (readKey : UInt8 → TarsRead α) (readValue : UInt8 → TarsRead β) (m : List (α × β))
    (tag : UInt8) (isRequire : Bool) : TarsRead (List (α × β)) :=
  readField (skipToTag tag) (mapPayload less readKey readValue tag) (notExistText tag) m isRequire

/-- The payload of a struct. -/
def structPayload (readFrom : TarsRead α) (tag : UInt8) (head : DataHead) : TarsRead α :=
  if head.type ≠ .structBegin then
    throw (.throws .mismatch (snprintf 64 (lit "read 'struct' type mismatch, tag: " ++ byteText tag ++ lit ", get type: " ++
      [head.type.code] ++ lit ", headTag: " ++ [head.tag] ++ lit ".")))
  else do
    let v ← readFrom
    skipToStructEnd
    pure v
/-- `read` of a struct. -/
def readStruct (readFrom : TarsRead α) (v : α) (tag : UInt8) (isRequire : Bool) : TarsRead α :=
  readField (skipToTag tag) (structPayload readFrom tag) (notExistText tag) v isRequire

/-! ### Writes -/

/-- A call of a writer, on the bytes that it holds. -/
abbrev TarsWrite := Method TarsFailure Bytes Unit

/-- `TarsWriteTypeBuf`. -/
def writeTypeBuf (bytes : Bytes) : TarsWrite := modify (fun written => written ++ bytes)
/-- `TarsWriteToHead`. -/
def writeToHead (type : HeadType) (tag : UInt8) : TarsWrite :=
  if tag < 15 then writeTypeBuf [type.code + (tag <<< 4)]
  else do
    writeTypeBuf [type.code + 240]
    writeTypeBuf [tag]

def writeChar (n : Int8) (tag : UInt8) : TarsWrite :=
  if n = 0 then writeToHead .zeroTag tag
  else do
    writeToHead .char tag
    writeTypeBuf (toBigEndian 1 n.toUInt8.toNat)
def writeShort (n : Int16) (tag : UInt8) : TarsWrite :=
  if -128 ≤ n ∧ n ≤ 127 then writeChar n.toInt8 tag
  else do
    writeToHead .short tag
    writeTypeBuf (toBigEndian 2 n.toUInt16.toNat)
def writeInt32 (n : Int32) (tag : UInt8) : TarsWrite :=
  if -32768 ≤ n ∧ n ≤ 32767 then writeShort n.toInt16 tag
  else do
    writeToHead .int32 tag
    writeTypeBuf (toBigEndian 4 n.toUInt32.toNat)
def writeInt64 (n : Int64) (tag : UInt8) : TarsWrite :=
  if -2147483648 ≤ n ∧ n ≤ 2147483647 then writeInt32 n.toInt32 tag
  else do
    writeToHead .int64 tag
    writeTypeBuf (toBigEndian 8 n.toUInt64.toNat)
def writeBool (b : Bool) (tag : UInt8) : TarsWrite := writeChar (if b then 1 else 0) tag
def writeUInt8 (n : UInt8) (tag : UInt8) : TarsWrite := writeShort n.toUInt16.toInt16 tag
def writeUInt16 (n : UInt16) (tag : UInt8) : TarsWrite := writeInt32 n.toUInt32.toInt32 tag
def writeUInt32 (n : UInt32) (tag : UInt8) : TarsWrite := writeInt64 n.toUInt64.toInt64 tag

/-- `write` of a `std::string`. -/
def writeString (s : Bytes) (tag : UInt8) : TarsWrite :=
  if 255 < s.length then
    if tarsMaxStringLength < s.length then
      throw (.throws .invalidValue (snprintf 128 (lit "invalid string size, tag: " ++ byteText tag ++ lit ", size: " ++
        stdToString (s.length % 4294967296))))
    else do
      writeToHead .string4 tag
      writeTypeBuf (toBigEndian 4 s.length)
      writeTypeBuf s
  else do
    writeToHead .string1 tag
    writeTypeBuf (toBigEndian 1 s.length)
    writeTypeBuf s
/-- `write` of a `std::vector<Char>`. -/
def writeChars (v : Bytes) (tag : UInt8) : TarsWrite := do
  writeToHead .simpleList tag
  writeToHead .char 0
  writeInt32 (Int32.ofNat v.length) 0
  writeTypeBuf v
/-- `write` of a `std::vector` with the write of an element. -/
def writeVector (writeElement : α → UInt8 → TarsWrite) (v : List α) (tag : UInt8) : TarsWrite := do
  writeToHead .list tag
  writeInt32 (Int32.ofNat v.length) 0
  v.forM (fun a => writeElement a 0)
/-- `write` of a `std::map` with the writes of a key and of a value. -/
def writeMap (writeKey : α → UInt8 → TarsWrite) (writeValue : β → UInt8 → TarsWrite) (m : List (α × β)) (tag : UInt8) :
    TarsWrite := do
  writeToHead .map tag
  writeInt32 (Int32.ofNat m.length) 0
  m.forM (fun entry => do
    writeKey entry.1 0
    writeValue entry.2 1)
/-- A write under a condition. -/
def writeIf (c : Prop) [Decidable c] (write : TarsWrite) : TarsWrite := if c then write else pure ()
/-- `write` of a struct. -/
def writeStruct (writeTo : TarsWrite) (tag : UInt8) : TarsWrite := do
  writeToHead .structBegin tag
  writeTo
  writeToHead .structEnd 0

end CppSdk.TarsStream

import CppSdk.TarsCodecs

/-!
`BufferWriter`: the memory behind a `TarsOutputStream`. Over any run of writes it refines the
byte string that `writeTypeBuf` appends to (`run_refines`), stays inside its allocations, and copies
no more than its size when it grows (`writes_stand`).
-/
namespace CppSdk.TarsBuffers
open CppSdk.ByteString CppSdk.Runtime CppSdk.TarsStream CppSdk.TarsCodecs

/-! ### The writer -/

/-- `BufferWriter`: the memory that `_buf` points to, `_len` and `_buf_len`. -/
structure BufferWriter where
  buf : Bytes
  len : Nat
  bufLen : Nat
  deriving DecidableEq

/-- A `BufferWriter` that is constructed. -/
def BufferWriter.empty : BufferWriter := ⟨[],0,0⟩

/-- The result of an operation on `size_t`. -/
def sizeT (n : Nat) : Nat := n % 18446744073709551616
/-- `new char[size]`, whose bytes are what they were before. -/
def allocate (garbage : Nat → UInt8) (size : Nat) : Bytes := (List.range size).map garbage
/-- `memcpy` to a position of the target; only memory that is allocated may be written. -/
def memcpy (target : Bytes) (start : Nat) (source : Bytes) : Except TarsFailure Bytes :=
  if start + source.length ≤ target.length then .ok (target.take start ++ source ++ target.drop (start + source.length))
  else .error .undefined
/-- The bytes at the start of a memory; only memory that is allocated may be read. -/
def front (memory : Bytes) (size : Nat) : Except TarsFailure Bytes :=
  if size ≤ memory.length then .ok (memory.take size) else .error .undefined

/-- `BufferWriter::reserve`. -/
def reserve (garbage : Nat → UInt8) (os : BufferWriter) (len : Nat) : Except TarsFailure Bytes := do
  let written ← front os.buf os.len
  memcpy (allocate garbage len) 0 written
/-- `TarsReserveBuf`. -/
def reserveBuf (garbage : Nat → UInt8) (os : BufferWriter) (len : Nat) : Except TarsFailure BufferWriter :=
  if os.bufLen < len then do
    let len1 := if sizeT (2 * len) < 128 then 128 else sizeT (2 * len)
    let buf ← reserve garbage os len1
    .ok { os with buf := buf,bufLen := len1 }
  else .ok os
/-- `BufferWriter::writeBuf`, and `TarsWriteTypeBuf`. -/
def writeBuf (garbage : Nat → UInt8) (os : BufferWriter) (bytes : Bytes) : Except TarsFailure BufferWriter := do
  let os ← reserveBuf garbage os (sizeT (os.len + bytes.length))
  let buf ← memcpy os.buf os.len bytes
  .ok { os with buf := buf,len := sizeT (os.len + bytes.length) }
/-- `getByteBuffer`. -/
def getByteBuffer (os : BufferWriter) : Except TarsFailure Bytes := front os.buf os.len

/-- The number of bytes that a write copies to larger memory. -/
def copied (os : BufferWriter) (bytes : Bytes) : Nat := if os.bufLen < sizeT (os.len + bytes.length) then os.len else 0

/-- A write with what the memory that it allocates holds. -/
structure Write where
  garbage : Nat → UInt8
  bytes : Bytes

/-- A run of writes: the writer behind it, and the number of bytes that were copied. -/
def run (os : BufferWriter) (total : Nat) : List Write → Except TarsFailure (BufferWriter × Nat)
  | [] => .ok (os,total)
  | w :: rest => do
    let next ← writeBuf w.garbage os w.bytes
    run next (total + copied os w.bytes) rest
/-- The bytes that are written. -/
def contents (writes : List Write) : Bytes := writes.flatMap Write.bytes
/-- The same writes to the stream of the encoders. -/
def streamed (writes : List Write) : TarsWrite := writes.forM (fun w => writeTypeBuf w.bytes)

/-! ### Refinement -/

/-- The writer stands for a byte string, and has copied no more than its size. -/
structure Stands (os : BufferWriter) (total : Nat) (content : Bytes) : Prop where
  allocated : os.buf.length = os.bufLen
  inside : content.length ≤ os.bufLen
  len : os.len = content.length
  holds : os.buf.take content.length = content
  size : os.bufLen ≤ max 128 (2 * content.length)
  total : total ≤ os.bufLen
/-- The writer has room for more bytes. -/
structure Room (os : BufferWriter) (total : Nat) (content : Bytes) (more : Nat) : Prop where
  allocated : os.buf.length = os.bufLen
  inside : content.length + more ≤ os.bufLen
  len : os.len = content.length
  holds : os.buf.take content.length = content
  size : os.bufLen ≤ max 128 (2 * (content.length + more))
  total : total ≤ os.bufLen

private theorem memcpy_inside (target source : Bytes) (start : Nat) (inside : start + source.length ≤ target.length) :
    memcpy target start source = .ok (target.take start ++ source ++ target.drop (start + source.length)) := if_pos inside
private theorem front_inside {memory : Bytes} {size : Nat} (inside : size ≤ memory.length) : front memory size = .ok (memory.take size) := if_pos inside

section
variable {os : BufferWriter} {total : Nat} {content : Bytes}

/-- What is written moves to larger memory. -/
theorem reserve_moves (stands : Stands os total content) (garbage : Nat → UInt8) (size : Nat) (enough : content.length ≤ size) :
    reserve garbage os size = .ok (content ++ (allocate garbage size).drop content.length) := by
  have written : front os.buf os.len = .ok content := by
    rw [stands.len,front_inside (by rw [stands.allocated]; exact stands.inside),stands.holds]
  have moved := memcpy_inside (allocate garbage size) content 0 (by simpa [allocate] using enough)
  rw [reserve,written]
  exact moved.trans (by simp)

/-- The reserve makes room, with at most one copy of what is written. -/
theorem room_reserveBuf (stands : Stands os total content) (garbage : Nat → UInt8) {more : Nat} (small : content.length + more < 2 ^ 63) :
    ∃ next, reserveBuf garbage os (content.length + more) = .ok next ∧
      Room next (total + if os.bufLen < content.length + more then os.len else 0) content more := by
  have inside := stands.inside
  have len := stands.len
  have size := stands.size
  have bound := stands.total
  unfold reserveBuf
  by_cases full : os.bufLen < content.length + more
  · have doubled : (if sizeT (2 * (content.length + more)) < 128 then 128 else sizeT (2 * (content.length + more))) =
        max 128 (2 * (content.length + more)) := by
      have whole : sizeT (2 * (content.length + more)) = 2 * (content.length + more) := by
        rw [sizeT]
        omega
      rw [whole]
      split <;> omega
    have moved := reserve_moves stands garbage (max 128 (2 * (content.length + more))) (by omega)
    simp only [if_pos full]
    rw [doubled,moved]
    refine ⟨_,rfl,?_,?_,len,?_,Nat.le_refl _,?_⟩
    · simp [allocate]
      omega
    · show content.length + more ≤ max 128 (2 * (content.length + more))
      omega
    · exact List.take_left
    · show total + os.len ≤ max 128 (2 * (content.length + more))
      omega
  · simp only [if_neg full]
    exact ⟨os,rfl,stands.allocated,by omega,len,stands.holds,by omega,by omega⟩

/-- A write appends its bytes. -/
theorem stands_write (stands : Stands os total content) (w : Write) (small : content.length + w.bytes.length < 2 ^ 63) :
    ∃ next, writeBuf w.garbage os w.bytes = .ok next ∧ Stands next (total + copied os w.bytes) (content ++ w.bytes) := by
  have whole : sizeT (content.length + w.bytes.length) = content.length + w.bytes.length := by
    rw [sizeT]
    omega
  obtain ⟨roomy,reserved,room⟩ := room_reserveBuf stands w.garbage small
  have stored := memcpy_inside roomy.buf w.bytes content.length (by rw [room.allocated]; exact room.inside)
  have inside := room.inside
  have size := room.size
  have paid : copied os w.bytes = if os.bufLen < content.length + w.bytes.length then os.len else 0 := by
    simp only [copied,stands.len,whole]
  rw [writeBuf,stands.len,whole,reserved,paid]
  refine ⟨{ roomy with
    buf := roomy.buf.take content.length ++ w.bytes ++ roomy.buf.drop (content.length + w.bytes.length)
    len := content.length + w.bytes.length },?_,?_,?_,?_,?_,?_,room.total⟩
  · show (memcpy roomy.buf roomy.len w.bytes >>= fun buf =>
      .ok { roomy with buf := buf,len := sizeT (roomy.len + w.bytes.length) }) = _
    rw [room.len,stored,whole]
    rfl
  · have allocated := room.allocated
    simp only [List.length_append,List.length_take,List.length_drop]
    omega
  · simpa using inside
  · simp
  · rw [room.holds,List.length_append]
    exact List.take_left' (by simp)
  · simpa using size

/-- One `writeBuf` refines one `writeTypeBuf`. -/
theorem write_refines (stands : Stands os total content) (w : Write) (small : content.length + w.bytes.length < 2 ^ 63) :
    ∃ next written, writeBuf w.garbage os w.bytes = .ok next ∧ (writeTypeBuf w.bytes).run content = (.ok (),written) ∧
      Stands next (total + copied os w.bytes) written := by
  obtain ⟨next,wrote,after⟩ := stands_write stands w small
  exact ⟨next,_,wrote,writes_typeBuf w.bytes content,after⟩

/-- What the stream holds after the writes. -/
theorem streamed_contents (writes : List Write) : Writes (streamed writes) (contents writes) :=
  writes_forM (fun w _ => writes_typeBuf w.bytes)

/-- A run of `writeBuf` refines the run of `writeTypeBuf`, as long as fewer than 2^63 bytes are written. -/
theorem run_refines (stands : Stands os total content) {writes : List Write} (small : (content ++ contents writes).length < 2 ^ 63) :
    ∃ last copies written, run os total writes = .ok (last,copies) ∧ (streamed writes).run content = (.ok (),written) ∧
      Stands last copies written := by
  induction writes generalizing os total content with
  | nil => exact ⟨os,total,content,rfl,rfl,stands⟩
  | cons w rest ih =>
    simp only [contents,List.flatMap_cons,← List.append_assoc] at small ih
    obtain ⟨next,written,wrote,streams,after⟩ := write_refines stands w (by simp only [List.length_append] at small; omega)
    obtain rfl : content ++ w.bytes = written := congrArg Prod.snd ((writes_typeBuf w.bytes content).symm.trans streams)
    obtain ⟨last,copies,more,ran,streamedRest,stands⟩ := ih after small
    refine ⟨last,copies,more,?_,(run_bind streams).trans streamedRest,stands⟩
    rw [run,wrote]
    exact ran

end

/-- Over any run of writes of fewer than 2^63 bytes, the writer holds what is written, no memory
    is accessed that is not allocated, and the size of the memory bounds what is copied. -/
theorem writes_stand {writes : List Write} (small : (contents writes).length < 2 ^ 63) :
    ∃ os total, run BufferWriter.empty 0 writes = .ok (os,total) ∧ getByteBuffer os = .ok (contents writes) ∧
      os.bufLen ≤ max 128 (2 * (contents writes).length) ∧ total ≤ os.bufLen := by
  have empty : Stands BufferWriter.empty 0 [] := ⟨rfl,Nat.le_refl _,rfl,rfl,Nat.zero_le _,Nat.le_refl _⟩
  obtain ⟨os,total,written,ran,streams,stands⟩ := run_refines empty small
  obtain rfl : contents writes = written := congrArg Prod.snd ((streamed_contents writes []).symm.trans streams)
  refine ⟨os,total,ran,?_,stands.size,stands.total⟩
  rw [getByteBuffer,front_inside (by rw [stands.len,stands.allocated]; exact stands.inside),stands.len,stands.holds]

/-- Two writes of which the second needs larger memory. -/
theorem writes_stand_grown :
    ∃ os total, run BufferWriter.empty 0 [⟨fun _ => 7,[1,2]⟩,⟨fun _ => 9,List.replicate 200 3⟩] = .ok (os,total) ∧
      getByteBuffer os = .ok (contents [⟨fun _ => 7,[1,2]⟩,⟨fun _ => 9,List.replicate 200 3⟩]) ∧
      os.bufLen ≤ max 128 (2 * (contents [⟨fun _ => 7,[1,2]⟩,⟨fun _ => 9,List.replicate 200 3⟩]).length) ∧ total ≤ os.bufLen :=
  writes_stand (by decide +kernel)

end CppSdk.TarsBuffers

import CppSdk.Runtime

/-!
The frame of an AMOP message: four bytes of version, two of the length of the topic,
the topic and the data. `encode` and `decode` are inverse to each other
(`encode_decode_inverse`), but `decode` lets the exception of a truncated frame escape,
with the fields before it already assigned (`decode_atomic_iff`).
-/
namespace CppSdk.AmopRequest
open CppSdk.ByteString CppSdk.Runtime

/-- The fields of an `AMOPRequest`. -/
structure AMOPRequest where
  version : UInt32 := 0
  topic : Bytes := []
  data : Bytes := []
  deriving DecidableEq

/-- `AMOPRequest::TOPIC_MAX_LENGTH`. -/
def topicMaxLength : Nat := 65535
/-- `AMOPRequest::MESSAGE_MIN_LENGTH`. -/
def messageMinLength : Nat := 2

/-- `getCroppedData` of bcos-utilities with one argument: the data from a position on. -/
structure Cropping where
  getCroppedData : Bytes → Nat → Bytes
  rest : ∀ data offset, offset ≤ data.length → getCroppedData data offset = data.drop offset
def Cropping.reference : Cropping := ⟨fun data offset => data.drop offset,fun _ _ _ => rfl⟩

/-! ### The source -/

/-- `AMOPRequest::encode`: whether it has written, and the buffer. -/
def encode (r : AMOPRequest) (buffer : Bytes) : Bool × Bytes :=
  if topicMaxLength < r.topic.length then (false,buffer)
  else (true,buffer ++ toBigEndian 4 r.version.toNat ++ toBigEndian 2 r.topic.length ++ r.topic ++ r.data)

/-- What can be thrown. A handler is chosen by the type. -/
inductive Thrown where
  | runtimeError (what : Bytes)
  | string (text : Bytes)
  deriving DecidableEq

/-- A method of `AMOPRequest`. -/
abbrev Body := Method Thrown AMOPRequest

/-- `OFFSET_CHECK`, and what it throws. -/
def overflow (offset step length : Nat) : Thrown :=
  .runtimeError (lit "offset overflow, offset: " ++ stdToString offset ++ lit ",step: " ++ stdToString step ++
    lit " ,length: " ++ stdToString length)
def offsetCheck (offset step length : Nat) : Body Unit :=
  if length < offset + step then throw (overflow offset step length) else pure ()

/-- The `try` block of `AMOPRequest::decode`. -/
def decodeBody (C : Cropping) (data : Bytes) : Body Int := do
  let length := data.length
  let versionLen := 4
  offsetCheck 0 versionLen length
  let offset := versionLen
  modify (fun r => { r with version := UInt32.ofNat (fromBigEndian (data.take 4)) })
  offsetCheck offset 2 length
  let topicLen := fromBigEndian ((data.drop versionLen).take 2)
  let offset := offset + 2
  offsetCheck offset topicLen length
  modify (fun r => { r with topic := (data.drop offset).take topicLen })
  let offset := offset + topicLen
  modify (fun r => { r with data := C.getCroppedData data offset })
  return length

/-- `AMOPRequest::decode`: how it ends, and the request it leaves. Only a string is caught. -/
def decode (C : Cropping) (r : AMOPRequest) (data : Bytes) : Except Thrown Int × AMOPRequest :=
  if data.length < messageMinLength then (.ok (-1),r)
  else match (decodeBody C data).run r with
    | (.error (.string _),after) => (.ok (-1),after)
    | ended => ended

/-! ### Frames -/

/-- The bytes of a request. -/
def frame (r : AMOPRequest) : Bytes :=
  toBigEndian 4 r.version.toNat ++ (toBigEndian 2 r.topic.length ++ (r.topic ++ r.data))

/-- The bytes are those of the request, whose topic fits its length. -/
structure Frames (r : AMOPRequest) (bytes : Bytes) : Prop where
  short : r.topic.length ≤ topicMaxLength
  spelled : bytes = frame r

/-- The length of the topic, as the bytes have it. -/
def topicLength (bytes : Bytes) : Nat := fromBigEndian ((bytes.drop 4).take 2)
/-- The bytes hold a version, the length of a topic and as many bytes more. -/
def Complete (bytes : Bytes) : Prop := 6 ≤ bytes.length ∧ 6 + topicLength bytes ≤ bytes.length
instance (bytes : Bytes) : Decidable (Complete bytes) := inferInstanceAs (Decidable (_ ∧ _))
/-- The fields of complete bytes. -/
def fields (bytes : Bytes) : AMOPRequest where
  version := UInt32.ofNat (fromBigEndian (bytes.take 4))
  topic := (bytes.drop 6).take (topicLength bytes)
  data := bytes.drop (6 + topicLength bytes)

private theorem topicLength_le (bytes : Bytes) : topicLength bytes ≤ topicMaxLength := by
  have digits : ((bytes.drop 4).take 2).length ≤ 2 := List.length_take_le 2 _
  have bound := fromBigEndian_lt ((bytes.drop 4).take 2)
  have width : 256 ^ ((bytes.drop 4).take 2).length ≤ 256 ^ 2 := Nat.pow_le_pow_right (by omega) digits
  simp only [topicLength,topicMaxLength]
  omega

private theorem complete_length {bytes : Bytes} (complete : Complete bytes) :
    ((bytes.drop 6).take (topicLength bytes)).length = topicLength bytes := by
  obtain ⟨_,inside⟩ := complete
  simp only [List.length_take,List.length_drop]
  omega

/-- Complete bytes are the frame of their fields. -/
theorem frames_fields {bytes : Bytes} (complete : Complete bytes) : Frames (fields bytes) bytes := by
  obtain ⟨header,inside⟩ := id complete
  have topic := complete_length complete
  refine ⟨by rw [fields,topic]; exact topicLength_le bytes,?_⟩
  have four : (bytes.take 4).length = 4 := by simp; omega
  have two : ((bytes.drop 4).take 2).length = 2 := by simp; omega
  have version : toBigEndian 4 (UInt32.ofNat (fromBigEndian (bytes.take 4))).toNat = bytes.take 4 := by
    have bound := fromBigEndian_lt (bytes.take 4)
    rw [four] at bound
    rw [UInt32.toNat_ofNat_of_lt' (by simpa using bound)]
    simpa only [four] using toBigEndian_fromBigEndian (bytes.take 4)
  have length : toBigEndian 2 (topicLength bytes) = (bytes.drop 4).take 2 := by
    simpa only [two,topicLength] using toBigEndian_fromBigEndian ((bytes.drop 4).take 2)
  simp only [frame,fields,topic,version,length]
  rw [← List.drop_drop,List.take_append_drop]
  have six : bytes.drop 6 = (bytes.drop 4).drop 2 := by rw [List.drop_drop]
  rw [six,List.take_append_drop,List.take_append_drop]

private theorem drop_frame (r : AMOPRequest) : (frame r).drop 6 = r.topic ++ r.data := by
  rw [frame,← List.append_assoc]
  exact List.drop_left' (by simp)

private theorem topicLength_frame {r : AMOPRequest} (short : r.topic.length ≤ topicMaxLength) :
    topicLength (frame r) = r.topic.length := by
  have dropped : (frame r).drop 4 = toBigEndian 2 r.topic.length ++ (r.topic ++ r.data) :=
    List.drop_left' (toBigEndian_length 4 _)
  rw [topicLength,dropped,List.take_left' (toBigEndian_length 2 _),fromBigEndian_toBigEndian]
  exact Nat.mod_eq_of_lt (by simp only [topicMaxLength] at short; omega)

/-- The frame of a request is complete, and has its fields. -/
theorem fields_frame {r : AMOPRequest} (short : r.topic.length ≤ topicMaxLength) :
    Complete (frame r) ∧ fields (frame r) = r := by
  have length := topicLength_frame short
  have front : (frame r).take 4 = toBigEndian 4 r.version.toNat := List.take_left' (toBigEndian_length 4 _)
  have size : (frame r).length = 6 + r.topic.length + r.data.length := by simp [frame]; omega
  refine ⟨⟨by omega,by omega⟩,?_⟩
  have version : UInt32.ofNat (fromBigEndian ((frame r).take 4)) = r.version := by
    rw [front,fromBigEndian_toBigEndian]
    apply UInt32.toNat_inj.mp
    have bound := r.version.toNat_lt
    simp
  have data : (frame r).drop (6 + r.topic.length) = r.data := by rw [← List.drop_drop,drop_frame,List.drop_left]
  rw [fields,version,length,data,drop_frame,List.take_left]

theorem complete_iff_frames {bytes : Bytes} : Complete bytes ↔ ∃ r, Frames r bytes := by
  constructor
  · exact fun complete => ⟨fields bytes,frames_fields complete⟩
  · rintro ⟨r,short,rfl⟩
    exact (fields_frame short).1
theorem fields_of_frames {r : AMOPRequest} {bytes : Bytes} (frames : Frames r bytes) : fields bytes = r := by
  rw [frames.spelled]
  exact (fields_frame frames.short).2

/-! ### How the calls end -/

theorem encode_short {r : AMOPRequest} (short : r.topic.length ≤ topicMaxLength) (buffer : Bytes) :
    encode r buffer = (true,buffer ++ frame r) := by
  simp [encode,frame,Nat.not_lt.mpr short]
theorem encode_long {r : AMOPRequest} (long : topicMaxLength < r.topic.length) (buffer : Bytes) :
    encode r buffer = (false,buffer) := if_pos long

/-- The body fails at the first check that does not hold, with what it has assigned before. -/
theorem run_decodeBody (C : Cropping) (r : AMOPRequest) (bytes : Bytes) :
    (decodeBody C bytes).run r =
      if bytes.length < 4 then (.error (overflow 0 4 bytes.length),r)
      else if bytes.length < 6 then (.error (overflow 4 2 bytes.length),{ r with version := (fields bytes).version })
      else if bytes.length < 6 + topicLength bytes then
        (.error (overflow 6 (topicLength bytes) bytes.length),{ r with version := (fields bytes).version })
      else (.ok bytes.length,fields bytes) := by
  unfold decodeBody offsetCheck
  split_ifs with four six whole
  · simp [four]
    rfl
  · simp [four,six]
    rfl
  · rw [topicLength] at whole
    simp [four,six,whole]
    rfl
  · have kept := C.rest bytes (6 + topicLength bytes) (by omega)
    rw [topicLength] at whole kept
    simp [four,six,whole,kept]
    rfl

variable {C : Cropping}

theorem decode_small {r : AMOPRequest} {bytes : Bytes} (small : bytes.length < messageMinLength) :
    decode C r bytes = (.ok (-1),r) := if_pos small
theorem decode_complete {r : AMOPRequest} {bytes : Bytes} (complete : Complete bytes) :
    decode C r bytes = (.ok bytes.length,fields bytes) := by
  obtain ⟨header,inside⟩ := complete
  rw [decode,if_neg (by rw [messageMinLength]; omega),run_decodeBody,if_neg (by omega),if_neg (by omega),if_neg (by omega)]

/-- On a truncated frame an exception escapes. -/
theorem decode_truncated {r : AMOPRequest} {bytes : Bytes} (enough : messageMinLength ≤ bytes.length)
    (truncated : ¬ Complete bytes) : ∃ offset step after, decode C r bytes = (.error (overflow offset step bytes.length),after) := by
  rw [decode,if_neg (Nat.not_lt.mpr enough),run_decodeBody]
  by_cases four : bytes.length < 4
  · exact ⟨0,4,_,by rw [if_pos four]; rfl⟩
  by_cases six : bytes.length < 6
  · exact ⟨4,2,_,by rw [if_neg four,if_pos six]; rfl⟩
  have whole : bytes.length < 6 + topicLength bytes := by
    by_contra inside
    exact truncated ⟨Nat.not_lt.mp six,Nat.not_lt.mp inside⟩
  exact ⟨6,topicLength bytes,_,by rw [if_neg four,if_neg six,if_pos whole]; rfl⟩

/-- `decode` gives the length exactly on complete bytes. -/
theorem decode_length_iff {r : AMOPRequest} {bytes : Bytes} :
    (decode C r bytes).1 = .ok (bytes.length : Int) ↔ Complete bytes := by
  constructor
  · intro returned
    by_contra truncated
    by_cases small : bytes.length < messageMinLength
    · rw [decode_small small] at returned
      injection returned with value
      omega
    · obtain ⟨offset,step,after,thrown⟩ := decode_truncated (C := C) (r := r) (Nat.not_lt.mp small) truncated
      rw [thrown] at returned
      cases returned
  · intro complete
    rw [decode_complete complete]

/-! ### Total and atomic decoding -/

/-- A call of `decode` on the bytes is total and atomic: it gives -1 or the length, the
    length exactly for a frame, whose fields it takes, and else it leaves the request. -/
structure Atomic (before : AMOPRequest) (bytes : Bytes) (call : Except Thrown Int × AMOPRequest) : Prop where
  total : call.1 = .ok (-1) ∨ call.1 = .ok (bytes.length : Int)
  exact_length : call.1 = .ok (bytes.length : Int) ↔ ∃ r, Frames r bytes
  taken : ∀ r, Frames r bytes → call.2 = r
  kept : (¬ ∃ r, Frames r bytes) → call.2 = before

/-- Decoding is total and atomic on complete frames and on what is too short for the first
    check: on every other input the exception escapes. -/
theorem decode_atomic_iff (C : Cropping) (before : AMOPRequest) (bytes : Bytes) :
    Atomic before bytes (decode C before bytes) ↔ bytes.length < messageMinLength ∨ Complete bytes := by
  constructor
  · intro atomic
    by_contra neither
    obtain ⟨enough,truncated⟩ := not_or.mp neither
    obtain ⟨offset,step,after,thrown⟩ := decode_truncated (C := C) (r := before) (Nat.not_lt.mp enough) truncated
    rcases atomic.total with returned | returned <;> simp [thrown] at returned
  · rintro (small | complete)
    · have truncated : ¬ Complete bytes := fun complete => absurd complete.1 (by rw [messageMinLength] at small; omega)
      refine ⟨.inl (by rw [decode_small small]),by rw [decode_length_iff,complete_iff_frames],?_,?_⟩
      · exact fun r frames => absurd (complete_iff_frames.mpr ⟨r,frames⟩) truncated
      · exact fun _ => by rw [decode_small small]
    · refine ⟨.inr (by rw [decode_complete complete]),by rw [decode_length_iff,complete_iff_frames],?_,?_⟩
      · exact fun r frames => by rw [decode_complete complete,fields_of_frames frames]
      · exact fun none => absurd (complete_iff_frames.mp complete) none

/-- Six bytes that announce a topic of three more: the exception escapes, with the version
    taken. -/
theorem decode_not_atomic : ¬ ∀ (before : AMOPRequest) (bytes : Bytes),
    Atomic before bytes (decode Cropping.reference before bytes) := by
  intro atomic
  have ended : decode Cropping.reference {} [0,0,0,1,0,3] = (.error (overflow 6 3 6),{ version := 1 }) := by decide +kernel
  rcases (atomic {} [0,0,0,1,0,3]).total with returned | returned <;> simp [ended] at returned

/-! ### Encoding and decoding -/

/-- `encode` appends bytes that `decode` takes the request from, `decode` accepts only what
    `encode` writes, and a topic that is too long is not written. -/
theorem encode_decode_inverse (C : Cropping) :
    (∀ (r : AMOPRequest) (buffer : Bytes), r.topic.length ≤ topicMaxLength →
      ∃ bytes, encode r buffer = (true,buffer ++ bytes) ∧ ∀ before, decode C before bytes = (.ok bytes.length,r)) ∧
    (∀ (before after : AMOPRequest) (bytes buffer : Bytes), decode C before bytes = (.ok bytes.length,after) →
      encode after buffer = (true,buffer ++ bytes)) ∧
    (∀ (r : AMOPRequest) (buffer : Bytes), topicMaxLength < r.topic.length → encode r buffer = (false,buffer)) := by
  refine ⟨?_,?_,fun r buffer long => encode_long long buffer⟩
  · intro r buffer short
    obtain ⟨complete,same⟩ := fields_frame short
    exact ⟨frame r,encode_short short buffer,fun before => by rw [decode_complete complete,same]⟩
  · intro before after bytes buffer decoded
    have complete : Complete bytes := decode_length_iff.mp (congrArg Prod.fst decoded)
    have frames := frames_fields complete
    rw [decode_complete complete,Prod.mk.injEq] at decoded
    rw [decoded.2] at frames
    rw [frames.spelled]
    exact encode_short frames.short buffer

end CppSdk.AmopRequest

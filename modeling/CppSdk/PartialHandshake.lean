import CppSdk.Handshake
import CppSdk.MemberLogs

/-!
The response to a handshake over an object. `decode` assigns the version first, appends the
groups to those that it holds and puts the block numbers among those that it holds: no trace
is left exactly if it held nothing that the text does not give or, where the text fails after
the version, what was read (`traceless_decode_iff`).
-/
namespace CppSdk.PartialHandshake
open CppSdk.ByteString CppSdk.Runtime CppSdk.Tables CppSdk.JsonValues CppSdk.WriteLogs CppSdk.Handshake
open CppSdk.EventParams (Reader)
open CppSdk.StagedParses (Traceless Thrown Raises ThrowsOnly raises_ok raises_throws raises_isMember)
open CppSdk.MemberLogs

variable {γ : Type}

/-! ### The values of a text -/

/-- An assignment of `decode`. -/
inductive Writing (γ : Type) where
  | version (protocolVersion : UInt32)
  | group (groupInfo : γ)
  | number (groupID : Bytes) (blockNumber : Int64)

/-- The response after an assignment. -/
def assign (r : HandshakeResponse γ) : Writing γ → HandshakeResponse γ
  | .version protocolVersion => { r with protocolVersion := protocolVersion }
  | .group groupInfo => { r with groupInfoList := r.groupInfoList ++ [groupInfo] }
  | .number groupID blockNumber => { r with groupBlockNumber := r.groupBlockNumber.insert groupID blockNumber }

/-- What a text holds of a response, value by value. -/
abbrev Input (γ : Type) := Log Failure (Writing γ)

section
variable (R : Reader) (C : Codec γ)

def logGroup (json : Json) : Input γ Unit := do
  let groupInfo ← (C.deserialize (R.write json) : Call γ)
  Log.write (.group groupInfo)
def logBlockNumber (json : Json) (groupID : Bytes) : Input γ Unit := do
  let blockNumber ← (R.asInt64 ((json.member groupID).getD .null) : Call Int64)
  Log.write (.number groupID blockNumber)
def logBlockNumbers (json : Json) : Input γ Unit := do
  (← (memberNames json : Call (List Bytes))).forM (logBlockNumber R json)
def logElements (log : Json → Input γ Unit) : Json → Input γ Unit
  | .array elements => elements.forM log
  | _ => pure ()
/-- The values that are read, up to the first that cannot be. -/
def logResponse (root : Json) : Input γ Bool := do
  if ← (root.isMember (lit "protocolVersion") : Call Bool) then
    let version ← (R.asInt ((root.member (lit "protocolVersion")).getD .null) : Call Int32)
    Log.write (.version version.toUInt32)
    logMember root "groupInfoList" (logElements (logGroup R C))
    logMember root "groupBlockNumber" (logElements (logBlockNumbers R))
    pure true
  else pure false
end

section
variable {R : Reader} {C : Codec γ}

private theorem logs_array {root : Json} {key : String} {read : Json → Reading γ Unit} {log : Json → Input γ Unit}
    (each : ∀ json, Logs assign (read json) (log json)) :
    Logs assign (readArray root key read) (logMember root key (logElements log)) := by
  refine logs_bind (logs_lift _) (fun found => ?_)
  cases found with
  | false => exact logs_pure ()
  | true =>
    simp only [if_true]
    cases (root.member (lit key)).getD .null with
    | array elements => exact logs_forM elements each
    | _ => exact logs_pure ()
/-- `decode` writes what the text holds, and ends as it says. -/
theorem logs_response (root : Json) : Logs assign (readResponse R C root) (logResponse R C root) := by
  have groups : ∀ json, Logs assign (readGroup R C json) (logGroup R C json) := fun json =>
    logs_bind (logs_lift _) (fun groupInfo => logs_write (Writing.group groupInfo))
  have numbers : ∀ json, Logs assign (readBlockNumbers R json) (logBlockNumbers (γ := γ) R json) := fun json =>
    logs_bind (logs_lift _) (fun names => logs_forM names (fun groupID =>
      logs_bind (logs_lift _) (fun blockNumber => logs_write (Writing.number groupID blockNumber))))
  refine logs_bind (logs_lift _) (fun found => ?_)
  cases found with
  | false => exact logs_pure false
  | true =>
    simp only [if_true]
    refine logs_bind (logs_lift _) (fun version => logs_bind (logs_write (Writing.version version.toUInt32)) (fun _ => ?_))
    exact logs_bind (logs_array groups) (fun _ => logs_bind (logs_array numbers) (fun _ => logs_pure true))

private theorem raises_memberNames (json : Json) : Raises (memberNames json) := by
  cases json with
  | object | null => exact raises_ok _
  | _ => exact raises_throws _
private theorem fails_elements {log : Json → Input γ Unit} (each : ∀ json, (log json).Fails Thrown) (json : Json) :
    (logElements log json).Fails Thrown := by
  cases json with
  | array elements => exact Log.fails_forM each
  | _ => exact Log.fails_pure ()
/-- What cannot be read is an exception. -/
theorem fails_response (throws : ThrowsOnly R) (codec : ∀ text, Raises (C.deserialize text)) (root : Json) :
    (logResponse R C root).Fails Thrown := by
  have groups : ∀ json, (logGroup R C json).Fails Thrown := fun json =>
    Log.fails_bind (Log.fails_lift (codec _)) (fun _ => Log.fails_write _)
  have numbers : ∀ json, (logBlockNumbers (γ := γ) R json).Fails Thrown := fun json =>
    Log.fails_bind (Log.fails_lift (raises_memberNames json)) (fun _ => Log.fails_forM (fun _ =>
      Log.fails_bind (Log.fails_lift (throws.asInt64 _)) (fun _ => Log.fails_write _)))
  refine Log.fails_bind (Log.fails_lift (raises_isMember root _)) (fun found => ?_)
  cases found with
  | false => exact Log.fails_pure false
  | true =>
    simp only [if_true]
    refine Log.fails_bind (Log.fails_lift (throws.asInt _)) (fun _ => Log.fails_bind (Log.fails_write _) (fun _ => ?_))
    exact Log.fails_bind (fails_member (fails_elements groups)) (fun _ => Log.fails_bind (fails_member (fails_elements numbers)) (fun _ => Log.fails_pure true))

/-! ### What the values are -/

def versions (input : List (Writing γ)) : List UInt32 := input.filterMap (fun | .version version => some version | _ => none)
def groupsIn (input : List (Writing γ)) : List γ := input.filterMap (fun | .group groupInfo => some groupInfo | _ => none)
def numbersIn (input : List (Writing γ)) : List (Bytes × Int64) :=
  input.filterMap (fun | .number groupID blockNumber => some (groupID,blockNumber) | _ => none)

/-- The response after the values. -/
theorem foldl_assign (input : List (Writing γ)) (r : HandshakeResponse γ) : input.foldl assign r =
    ⟨r.groupInfoList ++ groupsIn input,(numbersIn input).foldl (fun m e => m.insert e.1 e.2) r.groupBlockNumber,
      (versions input).getLast?.getD r.protocolVersion⟩ := by
  induction input generalizing r with
  | nil => simp [groupsIn,numbersIn,versions]
  | cons value rest ih =>
    rw [List.foldl_cons,ih]
    cases value with
    | version version => simp [assign,groupsIn,numbersIn,versions,List.getLast?_cons]
    | group groupInfo => simp [assign,groupsIn,numbersIn,versions]
    | number groupID blockNumber => simp [assign,groupsIn,numbersIn,versions]

private theorem writes_elements {P : Writing γ → Prop} {log : Json → Input γ Unit} (each : ∀ json, (log json).Writes P) (json : Json) :
    (logElements log json).Writes P := by
  cases json with
  | array elements => exact Log.writes_forM each
  | _ => exact Log.writes_pure ()
private theorem writes_groups (root : Json) :
    (logMember root "groupInfoList" (logElements (logGroup R C))).Writes (fun w => ∃ groupInfo, w = .group groupInfo) :=
  writes_member (writes_elements (fun _ => Log.writes_bind (Log.writes_lift _) (fun groupInfo => Log.writes_write ⟨groupInfo,rfl⟩)))
private theorem writes_numbers (root : Json) :
    (logMember root "groupBlockNumber" (logElements (logBlockNumbers (γ := γ) R))).Writes (fun w => ∃ groupID number, w = .number groupID number) :=
  writes_member (writes_elements (fun _ => Log.writes_bind (Log.writes_lift _) (fun _ => Log.writes_forM (fun groupID =>
    Log.writes_bind (Log.writes_lift _) (fun number => Log.writes_write ⟨groupID,number,rfl⟩)))))

/-- Each of the three is found again. -/
theorem projections_of_parts (version : UInt32) {groups numbers : List (Writing γ)} (one : ∀ w ∈ groups, ∃ groupInfo, w = .group groupInfo)
    (two : ∀ w ∈ numbers, ∃ groupID number, w = .number groupID number) :
    versions (.version version :: (groups ++ numbers)) = [version] ∧
    groupsIn (.version version :: (groups ++ numbers)) = groupsIn groups ∧
    numbersIn (.version version :: (groups ++ numbers)) = numbersIn numbers := by
  have group : ∀ {α : Type} {f : Writing γ → Option α}, (∀ g, f (.group g) = none) → groups.filterMap f = [] :=
    fun skips => List.filterMap_eq_nil_iff.mpr (fun w member => by obtain ⟨g,rfl⟩ := one w member; exact skips g)
  have number : ∀ {α : Type} {f : Writing γ → Option α}, (∀ i n, f (.number i n) = none) → numbers.filterMap f = [] :=
    fun skips => List.filterMap_eq_nil_iff.mpr (fun w member => by obtain ⟨i,n,rfl⟩ := two w member; exact skips i n)
  have others : versions groups = [] ∧ numbersIn groups = [] := ⟨group (fun _ => rfl),group (fun _ => rfl)⟩
  have another : versions numbers = [] ∧ groupsIn numbers = [] := ⟨number (fun _ _ => rfl),number (fun _ _ => rfl)⟩
  simp only [versions,groupsIn,numbersIn] at others another
  simp [versions,groupsIn,numbersIn,others,another]

/-- The version is given once at most. -/
theorem versions_once (root : Json) : (versions (logResponse R C root).writes).length ≤ 1 := by
  rw [logResponse,Log.lift_bind_writes]
  cases root.isMember (lit "protocolVersion") with
  | error failure => exact Nat.zero_le 1
  | ok found =>
    cases found with
    | false => exact Nat.zero_le 1
    | true =>
      simp only [if_true]
      rw [Log.lift_bind_writes]
      cases R.asInt ((root.member (lit "protocolVersion")).getD .null) with
      | error failure => exact Nat.zero_le 1
      | ok version =>
        have later : Log.Writes (fun w : Writing γ => ∀ v, w ≠ .version v) (do
            logMember root "groupInfoList" (logElements (logGroup R C))
            logMember root "groupBlockNumber" (logElements (logBlockNumbers R))
            pure true) := by
          refine Log.writes_bind (Log.writes_mono ?_ (writes_groups root)) (fun _ =>
            Log.writes_bind (Log.writes_mono ?_ (writes_numbers root)) (fun _ => Log.writes_pure true))
          · rintro _ ⟨_,rfl⟩ _ ⟨⟩
          · rintro _ ⟨_,_,rfl⟩ _ ⟨⟩
        dsimp only
        rw [Log.bind_of_ok rfl]
        refine Nat.le_of_eq (congrArg (· + 1) (List.length_eq_zero_iff.mpr (List.filterMap_eq_nil_iff.mpr ?_)))
        intro w member
        cases w with
        | version v => exact absurd rfl (later _ member v)
        | _ => rfl

/-! ### What a text says -/

/-- The groups of the elements. -/
def GroupsOf (R : Reader) (C : Codec γ) : List Json → List γ → Prop :=
  List.Forall₂ (fun json groupInfo => C.deserialize (R.write json) = .ok groupInfo)
/-- The block number of a name. -/
def NumberAt (R : Reader) (json : Json) (groupID : Bytes) (number : Bytes × Int64) : Prop :=
  number.1 = groupID ∧ R.asInt64 ((json.member groupID).getD .null) = .ok number.2
/-- The block numbers of one element, in the order of its names. -/
def NumbersAt (R : Reader) (json : Json) (numbers : List (Bytes × Int64)) : Prop :=
  ∃ names, memberNames json = .ok names ∧ List.Forall₂ (NumberAt R json) names numbers
/-- The block numbers of the elements, in their order. -/
def NumbersOf (R : Reader) (elements : List Json) (numbers : List (Bytes × Int64)) : Prop :=
  ∃ lists, List.Forall₂ (NumbersAt R) elements lists ∧ numbers = lists.flatten

/-- The response holds what the value says, in every field that it has. -/
structure HoldsResponse (R : Reader) (C : Codec γ) (root : Json) (r : HandshakeResponse γ) : Prop where
  version : ∃ json version, root.member (lit "protocolVersion") = some json ∧ R.asInt json = .ok version ∧
    r.protocolVersion = version.toUInt32
  groups : ∀ elements, root.member (lit "groupInfoList") = some (.array elements) → GroupsOf R C elements r.groupInfoList
  numbers : ∀ elements, root.member (lit "groupBlockNumber") = some (.array elements) →
    ∃ numbers, NumbersOf R elements numbers ∧ ∀ group, r.groupBlockNumber.lookup group = latest numbers group

private theorem numbersAt_unique {json : Json} {numbers others : List (Bytes × Int64)} (one : NumbersAt R json numbers)
    (two : NumbersAt R json others) : numbers = others := by
  obtain ⟨names,named,all⟩ := one
  obtain ⟨same,again,every⟩ := two
  rw [named,Except.ok.injEq] at again
  subst again
  exact List.right_unique_forall₂' (fun _ _ _ read again =>
    Prod.ext (read.1.trans again.1.symm) (Except.ok.inj (read.2.symm.trans again.2))) all every
private theorem numbersOf_unique {elements : List Json} {numbers others : List (Bytes × Int64)} (one : NumbersOf R elements numbers)
    (two : NumbersOf R elements others) : numbers = others := by
  obtain ⟨lists,all,rfl⟩ := one
  obtain ⟨same,every,rfl⟩ := two
  have unique : Relator.RightUnique (NumbersAt R) := fun _ _ _ => numbersAt_unique
  exact congrArg List.flatten (List.right_unique_forall₂' unique all every)

private theorem groups_ok {elements : List Json} (ends : (elements.forM (logGroup R C)).outcome = .ok ()) :
    ∃ groups, GroupsOf R C elements groups ∧ (elements.forM (logGroup R C)).writes = groups.map .group := by
  obtain ⟨groups,all,written⟩ := Log.forM_ok (P := fun json group => C.deserialize (R.write json) = .ok group) (fun json ended => by
    obtain ⟨group,read,_,written⟩ := Log.lift_bind_ok ended
    exact ⟨group,read,written⟩) ends
  exact ⟨groups,all,written.trans List.map_eq_flatMap.symm⟩
private theorem numbersAt_ok {json : Json} (ends : (logBlockNumbers (γ := γ) R json).outcome = .ok ()) :
    ∃ numbers, NumbersAt R json numbers ∧ (logBlockNumbers (γ := γ) R json).writes = numbers.map (fun e => .number e.1 e.2) := by
  obtain ⟨names,named,each,written⟩ := Log.lift_bind_ok ends
  have one : ∀ groupID, (logBlockNumber (γ := γ) R json groupID).outcome = .ok () → ∃ number, NumberAt R json groupID number ∧
      (logBlockNumber (γ := γ) R json groupID).writes = [.number number.1 number.2] := by
    intro groupID ended
    obtain ⟨number,read,_,made⟩ := Log.lift_bind_ok ended
    exact ⟨(groupID,number),⟨rfl,read⟩,made⟩
  obtain ⟨numbers,all,made⟩ := Log.forM_ok one each
  exact ⟨numbers,⟨names,named,all⟩,written.trans (made.trans List.map_eq_flatMap.symm)⟩
private theorem numbers_ok {elements : List Json} (ends : (elements.forM (logBlockNumbers (γ := γ) R)).outcome = .ok ()) :
    ∃ numbers, NumbersOf R elements numbers ∧
      (elements.forM (logBlockNumbers (γ := γ) R)).writes = numbers.map (fun e => .number e.1 e.2) := by
  obtain ⟨lists,all,written⟩ := Log.forM_ok (fun _ => numbersAt_ok) ends
  exact ⟨lists.flatten,⟨lists,all,rfl⟩,by rw [written,List.map_flatten,List.flatMap]⟩

/-- What has been read of a value whose every part can be read. -/
structure ReadsResponse (R : Reader) (C : Codec γ) (root : Json) (input : List (Writing γ)) : Prop where
  version : ∃ json version, root.member (lit "protocolVersion") = some json ∧ R.asInt json = .ok version ∧
    versions input = [version.toUInt32]
  groups : ∀ elements, root.member (lit "groupInfoList") = some (.array elements) → GroupsOf R C elements (groupsIn input)
  numbers : ∀ elements, root.member (lit "groupBlockNumber") = some (.array elements) → NumbersOf R elements (numbersIn input)

private theorem response_ok {root : Json} (ends : (logResponse R C root).outcome = .ok true) :
    ReadsResponse R C root (logResponse R C root).writes := by
  obtain ⟨found,isMember,ended,written⟩ := Log.lift_bind_ok ends
  rw [← logResponse] at written
  cases found with
  | false => cases ended
  | true =>
    simp only [if_true] at ended written
    obtain ⟨version,read,ended,writtenNext⟩ := Log.lift_bind_ok ended
    obtain ⟨_,one,rest⟩ := Log.bind_ok_iff.mp ended
    obtain ⟨_,two,rest⟩ := Log.bind_ok_iff.mp rest
    obtain ⟨_,three,_⟩ := Log.bind_ok_iff.mp rest
    have split : (logResponse R C root).writes = .version version.toUInt32 ::
        ((logMember root "groupInfoList" (logElements (logGroup R C))).writes ++ (logMember root "groupBlockNumber" (logElements (logBlockNumbers R))).writes) := by
      rw [written,writtenNext,Log.bind_of_ok one,Log.bind_of_ok two,Log.bind_of_ok three]
      change Writing.version version.toUInt32 :: (_ ++ (_ ++ [])) = _
      rw [List.append_nil]
    obtain ⟨only,groups,numbers⟩ := projections_of_parts version.toUInt32 (writes_groups (R := R) (C := C) root)
      (writes_numbers (γ := γ) (R := R) root)
    rw [split]
    constructor
    · cases root with
      | object members =>
        obtain ⟨json,listed⟩ := Option.isSome_iff_exists.mp (Except.ok.inj isMember)
        have member : (Json.object members).member (lit "protocolVersion") = some json := listed
        rw [member,Option.getD_some] at read
        exact ⟨json,version,member,read,only⟩
      | _ => cases isMember
    · intro elements found
      obtain ⟨each,made⟩ := member_ok two found
      obtain ⟨all,read,values⟩ := groups_ok each
      rw [groups,made.trans values,groupsIn,List.filterMap_map]
      simpa [Function.comp_def] using read
    · intro elements found
      obtain ⟨each,made⟩ := member_ok three found
      obtain ⟨all,read,values⟩ := numbers_ok each
      rw [numbers,made.trans values,numbersIn,List.filterMap_map]
      simpa [Function.comp_def] using read

/-! ### What is left of the response -/

/-- Two responses with the same version, groups and block numbers. -/
structure Alike (r s : HandshakeResponse γ) : Prop where
  groupInfoList : r.groupInfoList = s.groupInfoList
  groupBlockNumber : ∀ group, r.groupBlockNumber.lookup group = s.groupBlockNumber.lookup group
  protocolVersion : r.protocolVersion = s.protocolVersion

/-- The response held no groups and no block numbers but of groups that the text names, in
    the fields that the text has. -/
structure Covered (root : Json) (input : List (Writing γ)) (r : HandshakeResponse γ) : Prop where
  groups : ∀ elements, root.member (lit "groupInfoList") = some (.array elements) → r.groupInfoList = []
  numbers : ∀ elements, root.member (lit "groupBlockNumber") = some (.array elements) →
    ∀ group, latest (numbersIn input) group = none → r.groupBlockNumber.lookup group = none
/-- The values say what the response held, and there is no group among them. -/
structure Repeated (input : List (Writing γ)) (r : HandshakeResponse γ) : Prop where
  version : ∀ version ∈ versions input, version = r.protocolVersion
  groups : groupsIn input = []
  numbers : ∀ group number, latest (numbersIn input) group = some number → r.groupBlockNumber.lookup group = some number
/-- Of a text that can be read the response held nothing else, and of one that fails half way
    it held all that comes before the failure. -/
def Unmixed (R : Reader) (C : Codec γ) (r : HandshakeResponse γ) (text : Bytes) : Prop :=
  ∀ root, R.parse text = some root →
    ((logResponse R C root).outcome = .ok true → Covered root (logResponse R C root).writes r) ∧
    ((logResponse R C root).outcome ≠ .ok true → Repeated (logResponse R C root).writes r)

theorem holds_iff {root : Json} {input : List (Writing γ)} (reads : ReadsResponse R C root input) (r : HandshakeResponse γ) :
    HoldsResponse R C root (input.foldl assign r) ↔ Covered root input r := by
  rw [foldl_assign]
  constructor
  · intro holds
    constructor
    · intro elements found
      -- the groups are appended, so the sizes tell that there were none
      have here := (reads.groups elements found).length_eq
      have all := (holds.groups elements found).length_eq
      rw [List.length_append] at all
      exact List.eq_nil_of_length_eq_zero (by omega)
    · intro elements found group absent
      obtain ⟨numbers,read,same⟩ := holds.numbers elements found
      have looked := same group
      rw [numbersOf_unique read (reads.numbers elements found),lookup_foldl_insert,absent,Option.none_or] at looked
      exact looked
  · intro covered
    constructor
    · obtain ⟨json,version,found,read,only⟩ := reads.version
      exact ⟨json,version,found,read,by rw [only]; rfl⟩
    · intro elements found
      rw [covered.groups elements found]
      exact reads.groups elements found
    · intro elements found
      refine ⟨_,reads.numbers elements found,fun group => ?_⟩
      rw [lookup_foldl_insert]
      cases last : latest (numbersIn input) group with
      | some number => rfl
      | none => exact covered.numbers elements found group last

private theorem alike_iff {input : List (Writing γ)} (once : (versions input).length ≤ 1) (r : HandshakeResponse γ) :
    Alike (input.foldl assign r) r ↔ Repeated input r := by
  have version := getLast_repeats once r.protocolVersion
  rw [foldl_assign]
  constructor
  · intro alike
    refine ⟨version.mp alike.protocolVersion,List.append_right_eq_self.mp alike.groupInfoList,fun group number last => ?_⟩
    have looked := alike.groupBlockNumber group
    rw [lookup_foldl_insert,last,Option.some_or] at looked
    exact looked.symm
  · intro repeated
    refine ⟨List.append_right_eq_self.mpr repeated.groups,fun group => ?_,version.mpr repeated.version⟩
    rw [lookup_foldl_insert]
    cases last : latest (numbersIn input) group with
    | some number => exact (repeated.numbers group number last).symm
    | none => rfl

/-- `HandshakeResponse::decode` leaves no trace exactly if it mixes nothing. -/
theorem traceless_decode_iff (throws : ThrowsOnly R) (codec : ∀ text, Raises (C.deserialize text)) (r : HandshakeResponse γ)
    (text : Bytes) :
    Traceless Alike (fun after => ∃ root, R.parse text = some root ∧ HoldsResponse R C root after) r (decode R C r text) ↔
      Unmixed R C r text := by
  rw [decode,Unmixed]
  cases parsed : R.parse text with
  | none => exact iff_of_true (.inr ⟨rfl,⟨rfl,fun _ => rfl,rfl⟩⟩) (fun _ found => by cases found)
  | some root =>
    have ran := logs_response (R := R) (C := C) root r
    have once := versions_once (R := R) (C := C) root
    have fails := fails_response throws codec root
    simp only [ran,Option.some.injEq,forall_eq',exists_eq_left',Traceless]
    cases ends : (logResponse R C root).outcome with
    | ok result =>
      cases result with
      | true => simp [holds_iff (response_ok ends)]
      | false => simp [alike_iff once]
    | error failure =>
      obtain ⟨_,rfl⟩ := fails failure ends
      simp [alike_iff once]

end

end CppSdk.PartialHandshake

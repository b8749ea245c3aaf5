import CppSdk.SolidityAbi
import CppSdk.Runtime

/-!
The value trees of the ABI codec: the ten concrete classes derived from
`AbstractType`, their virtual functions, and what a tree stands for. A tree has a
Solidity type, which decides its place in a head (`HeadType`), stands for a value of that type (`Denotes`), or is a
template that the decoder fills (`Template`).
-/
namespace CppSdk.ContractABIType
open CppSdk.ByteString CppSdk.Runtime CppSdk.SolidityAbi

/-! ### The classes -/

/-- What `verifyExtent` accepts. -/
abbrev Extent := {extent : Nat // 1 ≤ extent ∧ extent ≤ 256 ∧ extent % 8 = 0}
/-- What `FixedBytes::verify` accepts as `N`. -/
abbrev FixedN := {size : Nat // 0 < size ∧ size ≤ 32}

/-- The concrete classes. `m_kvValue` of a `Struct` is left out: it maps the name of a
    member to that member. -/
inductive AbstractType where
  | boolean (name : Bytes) (value : Bool)
  | uint (name : Bytes) (extent : Extent) (value : U256)
  | int (name : Bytes) (extent : Extent) (value : Int)
  | fixedBytes (name : Bytes) (fixedN : FixedN) (value : Bytes)
  | addr (name : Bytes) (value : Bytes)
  | string (name : Bytes) (value : Bytes)
  | dynamicBytes (name : Bytes) (value : Bytes)
  | dynamicList (name : Bytes) (value : List AbstractType)
  | fixedList (name : Bytes) (dimension : UInt32) (value : List AbstractType)
  | struct (name : Bytes) (value : List AbstractType)

/-- Induction on trees with a hypothesis for every member. -/
@[elab_as_elim]
theorem AbstractType.induct {motive : AbstractType → Prop} (boolean : ∀ name b, motive (.boolean name b))
    (uint : ∀ name extent u, motive (.uint name extent u)) (int : ∀ name extent i, motive (.int name extent i))
    (fixedBytes : ∀ name fixedN content, motive (.fixedBytes name fixedN content))
    (addr : ∀ name text, motive (.addr name text)) (string : ∀ name content, motive (.string name content))
    (dynamicBytes : ∀ name content, motive (.dynamicBytes name content))
    (dynamicList : ∀ name vs, (∀ v ∈ vs, motive v) → motive (.dynamicList name vs))
    (fixedList : ∀ name dimension vs, (∀ v ∈ vs, motive v) → motive (.fixedList name dimension vs))
    (struct : ∀ name vs, (∀ v ∈ vs, motive v) → motive (.struct name vs)) (t : AbstractType) : motive t :=
  @AbstractType.rec motive (fun vs => ∀ v ∈ vs, motive v) boolean uint int fixedBytes addr string dynamicBytes
    dynamicList fixedList struct (by simp) (fun _ _ here later => List.forall_mem_cons.mpr ⟨here,later⟩) t

/-- `verifyExtent` of `Uint` and of `Int`, which name themselves in the error. -/
def verifyExtent (kind : String) (extent : Nat) : Call Extent :=
  if range : 1 ≤ extent ∧ extent ≤ 256 ∧ extent % 8 = 0 then .ok ⟨extent,range⟩
  else throws (lit "invalid " ++ lit kind ++ lit "N, it should be in format as " ++ lit kind ++ lit "8," ++ lit kind ++
    lit "16 ... " ++ lit kind ++ lit "248," ++ lit kind ++ lit "256, now extent is " ++ stdToString extent)

/-- `FixedBytes::verify(false)`: the bound on `N`, with the size of the value in the error. -/
def verifyFixedN (fixedN size : Nat) : Call FixedN :=
  if range : 0 < fixedN ∧ fixedN ≤ 32 then .ok ⟨fixedN,range⟩
  else throws (lit "bytesN length must be must be in range 0 < M <= 32, the real length is: " ++ stdToString size)
/-- `FixedBytes::setValue`. -/
def setFixedBytes (name : Bytes) (fixedN : FixedN) (value : Bytes) : Call AbstractType :=
  if value.length = fixedN.1 then .ok (.fixedBytes name fixedN value)
  else throws (lit "the bytes" ++ stdToString fixedN.1 ++ lit " data length does not match, data length is " ++
    stdToString value.length)

/-- `FixedList::verify`. -/
def verifyDimension (dimension : UInt32) (size : Nat) : Call Unit :=
  if dimension = 0 then throws (lit "invalid fixed array T[0], with dimension is zero")
  else if dimension.toNat = size then .ok ()
  else throws (lit "insufficient elements for fixed length array with dimension: " ++ stdToString dimension.toNat ++
    lit " ,but has elements: " ++ stdToString size)

/-! ### Virtual functions -/

mutual
/-- `dynamicType()`: a fixed list asks its first member. -/
def dynamicType : AbstractType → Call Bool
  | .string .. => .ok true
  | .dynamicBytes .. => .ok true
  | .dynamicList .. => .ok true
  | .fixedList _ dimension value => do
    verifyDimension dimension value.length
    firstDynamicType value
  | .struct _ value => anyDynamicType value
  | _ => .ok false
/-- `m_value[0]->dynamicType()`. -/
def firstDynamicType : List AbstractType → Call Bool
  | [] => .error .undefined
  | t :: _ => dynamicType t
/-- The loop of `Struct::dynamicType`, which stops at the first dynamic member. -/
def anyDynamicType : List AbstractType → Call Bool
  | [] => .ok false
  | t :: ts => do if ← dynamicType t then .ok true else anyDynamicType ts
end

mutual
/-- `offsetAsBytes()`, in the arithmetic of `unsigned`. -/
def offsetAsBytes : AbstractType → Call UInt32
  | .fixedList name dimension value => do
    if ← dynamicType (.fixedList name dimension value) then .ok 32
    else .ok (UInt32.ofNat (value.length * (← firstOffset value).toNat))
  | .struct name value => do
    if ← dynamicType (.struct name value) then .ok 32 else sumOffsets 0 value
  | _ => .ok 32
/-- `m_value[0]->offsetAsBytes()`. -/
def firstOffset : List AbstractType → Call UInt32
  | [] => .error .undefined
  | t :: _ => offsetAsBytes t
/-- The loop of `Struct::offsetAsBytes`. -/
def sumOffsets (offset : UInt32) : List AbstractType → Call UInt32
  | [] => .ok offset
  | t :: ts => do sumOffsets (offset + (← offsetAsBytes t)) ts
end

mutual
/-- `clone()`: the constructors check what they are given once more. -/
def clone : AbstractType → Call AbstractType
  | .fixedBytes name fixedN value => setFixedBytes name fixedN value
  | .dynamicList name value => do .ok (.dynamicList name (← cloneMembers value))
  | .fixedList name dimension value => do .ok (.fixedList name dimension (← cloneMembers value))
  | .struct name value => do .ok (.struct name (← cloneMembers value))
  | t => .ok t
/-- The loop over the members. -/
def cloneMembers : List AbstractType → Call (List AbstractType)
  | [] => .ok []
  | t :: ts => do .ok ((← clone t) :: (← cloneMembers ts))
end

mutual
/-- `isEqual`, which looks at neither names nor extents. The source exchanges the two
    sides at each level. -/
def isEqual : AbstractType → AbstractType → Bool
  | .boolean _ a, .boolean _ b => a == b
  | .uint _ _ a, .uint _ _ b => a == b
  | .int _ _ a, .int _ _ b => a == b
  | .fixedBytes _ _ a, .fixedBytes _ _ b => a == b
  | .addr _ a, .addr _ b => a == b
  | .string _ a, .string _ b => a == b
  | .dynamicBytes _ a, .dynamicBytes _ b => a == b
  | .dynamicList _ as, .dynamicList _ bs => membersEqual as bs
  | .fixedList _ m as, .fixedList _ n bs => m == n && membersEqual as bs
  | .struct _ as, .struct _ bs => membersEqual as bs
  | _, _ => false
/-- Equally many members, equal in order. -/
def membersEqual : List AbstractType → List AbstractType → Bool
  | [], [] => true
  | a :: as, b :: bs => isEqual a b && membersEqual as bs
  | _, _ => false
end

/-! ### Types of trees -/

/-- The tree has the Solidity type as far as heads go: fixed lists are full and not
    empty, what a list holds does not matter. -/
inductive HeadType : AbstractType → Ty → Prop where
  | boolean (name : Bytes) (b : Bool) : HeadType (.boolean name b) .bool
  | uint (name : Bytes) (extent : Extent) (u : U256) : HeadType (.uint name extent u) (.uint extent.1)
  | int (name : Bytes) (extent : Extent) (i : Int) : HeadType (.int name extent i) (.int extent.1)
  | fixedBytes (name : Bytes) (fixedN : FixedN) (content : Bytes) :
      HeadType (.fixedBytes name fixedN content) (.bytesN fixedN.1)
  | addr (name text : Bytes) : HeadType (.addr name text) .address
  | string (name content : Bytes) : HeadType (.string name content) .string
  | dynamicBytes (name content : Bytes) : HeadType (.dynamicBytes name content) .bytes
  | dynamicList (name : Bytes) (vs : List AbstractType) (t : Ty) : HeadType (.dynamicList name vs) (.list t)
  | fixedList (name : Bytes) {dimension : UInt32} {vs : List AbstractType} {t : Ty}
      (full : vs.length = dimension.toNat) (nonempty : 0 < dimension.toNat) (each : ∀ v ∈ vs, HeadType v t) :
      HeadType (.fixedList name dimension vs) (.fixed t dimension.toNat)
  | struct (name : Bytes) {vs : List AbstractType} {ts : List Ty} (count : vs.length = ts.length)
      (each : ∀ p ∈ vs.zip ts, HeadType p.1 p.2) : HeadType (.struct name vs) (.tuple ts)

private theorem verifyDimension_ok {dimension : UInt32} {size : Nat} (full : size = dimension.toNat)
    (nonempty : 0 < dimension.toNat) : verifyDimension dimension size = .ok () := by
  have nonzero : dimension ≠ 0 := by
    rintro rfl
    simp at nonempty
  rw [verifyDimension,if_neg nonzero,if_pos full.symm]

/-- `dynamicType()` is true of the types that the specification calls dynamic. -/
theorem dynamicType_eq {v : AbstractType} {t : Ty} (typed : HeadType v t) : dynamicType v = .ok t.dynamic := by
  induction typed with
  | @fixedList name dimension vs t full nonempty each ih =>
    cases vs with
    | nil => simp at full; omega
    | cons v vs =>
      simp only [dynamicType,verifyDimension_ok full nonempty,ok_bind,firstDynamicType,Ty.dynamic]
      exact ih v (by simp)
  | @struct name vs ts count each ih =>
    simp only [dynamicType,Ty.dynamic]
    have members := pairwise_of_zip (R := fun v t => dynamicType v = .ok t.dynamic) count ih
    clear each ih count
    induction members with
    | nil => rfl
    | @cons v t vs ts here later members =>
      simp only [anyDynamicType,here,ok_bind,anyDynamic]
      by_cases isDynamic : t.dynamic = true
      · simp [isDynamic]
      · simpa [isDynamic] using members
  | _ => rfl

/-- `offsetAsBytes()` is the size of the head modulo 2^32. -/
theorem offsetAsBytes_eq {v : AbstractType} {t : Ty} (typed : HeadType v t) :
    offsetAsBytes v = .ok (UInt32.ofNat t.headSize) := by
  induction typed with
  | @fixedList name dimension vs t full nonempty each ih =>
    have dynamic := dynamicType_eq (HeadType.fixedList name full nonempty each)
    cases vs with
    | nil => simp at full; omega
    | cons v vs =>
      have first := ih v (by simp)
      rw [offsetAsBytes,dynamic,ok_bind]
      by_cases isDynamic : t.dynamic = true
      · simp [Ty.dynamic,Ty.headSize,isDynamic]
      · simp only [Ty.dynamic,Ty.headSize,isDynamic,firstOffset,first]
        simp [full]
  | @struct name vs ts count each ih =>
    have dynamic := dynamicType_eq (HeadType.struct name count each)
    rw [offsetAsBytes,dynamic,ok_bind]
    by_cases isDynamic : anyDynamic ts = true
    · simp [Ty.dynamic,Ty.headSize,isDynamic]
    · have sum : ∀ offset, sumOffsets offset vs = .ok (offset + UInt32.ofNat (headSizes ts)) := by
        have members :=
          pairwise_of_zip (R := fun v t => offsetAsBytes v = .ok (UInt32.ofNat t.headSize)) count ih
        clear each ih count dynamic isDynamic
        induction members with
        | nil => simp [sumOffsets,headSizes]
        | cons here later members =>
          intro offset
          simp [sumOffsets,here,members,headSizes,UInt32.add_assoc]
      simp [Ty.dynamic,Ty.headSize,isDynamic,sum]
  | _ => rfl

/-! ### Values of trees -/

/-- The tree stands for a value of a type: signed numbers fit 256 bits, addresses are
    the text of 20 bytes, lists have fewer than `limit` elements. -/
inductive Denotes (limit : Nat) : AbstractType → Ty → Value → Prop where
  | boolean (name : Bytes) (b : Bool) : Denotes limit (.boolean name b) .bool (.bool b)
  | uint (name : Bytes) (extent : Extent) (u : U256) :
      Denotes limit (.uint name extent u) (.uint extent.1) (.nat u.toNat)
  | int (name : Bytes) (extent : Extent) {i : Int} (low : -2 ^ 255 ≤ i) (high : i < 2 ^ 255) :
      Denotes limit (.int name extent i) (.int extent.1) (.int i)
  | fixedBytes (name : Bytes) {fixedN : FixedN} {content : Bytes} (exact : content.length = fixedN.1) :
      Denotes limit (.fixedBytes name fixedN content) (.bytesN fixedN.1) (.bytes content)
  | addr (name : Bytes) {account : Bytes} (exact : account.length = 20) :
      Denotes limit (.addr name (addressText account)) .address (.bytes account)
  | string (name content : Bytes) : Denotes limit (.string name content) .string (.bytes content)
  | dynamicBytes (name content : Bytes) : Denotes limit (.dynamicBytes name content) .bytes (.bytes content)
  | dynamicList (name : Bytes) {vs : List AbstractType} {t : Ty} {xs : List Value} (count : vs.length = xs.length)
      (short : vs.length < limit) (each : ∀ p ∈ vs.zip xs, Denotes limit p.1 t p.2) :
      Denotes limit (.dynamicList name vs) (.list t) (.seq xs)
  | fixedList (name : Bytes) {dimension : UInt32} {vs : List AbstractType} {t : Ty} {xs : List Value}
      (full : vs.length = dimension.toNat) (nonempty : 0 < dimension.toNat) (count : vs.length = xs.length)
      (each : ∀ p ∈ vs.zip xs, Denotes limit p.1 t p.2) :
      Denotes limit (.fixedList name dimension vs) (.fixed t dimension.toNat) (.seq xs)
  | struct (name : Bytes) {vs : List AbstractType} {ts : List Ty} {xs : List Value} (types : vs.length = ts.length)
      (count : ts.length = xs.length) (each : ∀ p ∈ vs.zip (ts.zip xs), Denotes limit p.1 p.2.1 p.2.2) :
      Denotes limit (.struct name vs) (.tuple ts) (.seq xs)

mutual
/-- The `FixedBytes` leaves hold `N` bytes, as `clone()` demands. -/
def Exact : AbstractType → Prop
  | .fixedBytes _ fixedN value => value.length = fixedN.1
  | .dynamicList _ value => AllExact value
  | .fixedList _ _ value => AllExact value
  | .struct _ value => AllExact value
  | _ => True
/-- The members are exact. -/
def AllExact : List AbstractType → Prop
  | [] => True
  | t :: ts => Exact t ∧ AllExact ts
end

/-- A tree that the decoder can fill with a value of the type: a list holds an
    element, which is cloned, to decode each element into. -/
inductive Template : AbstractType → Ty → Prop where
  | boolean (name : Bytes) (b : Bool) : Template (.boolean name b) .bool
  | uint (name : Bytes) (extent : Extent) (u : U256) : Template (.uint name extent u) (.uint extent.1)
  | int (name : Bytes) (extent : Extent) (i : Int) : Template (.int name extent i) (.int extent.1)
  | fixedBytes (name : Bytes) (fixedN : FixedN) (content : Bytes) :
      Template (.fixedBytes name fixedN content) (.bytesN fixedN.1)
  | addr (name text : Bytes) : Template (.addr name text) .address
  | string (name content : Bytes) : Template (.string name content) .string
  | dynamicBytes (name content : Bytes) : Template (.dynamicBytes name content) .bytes
  | dynamicList (name : Bytes) {element : AbstractType} {others : List AbstractType} {t : Ty}
      (fillable : Template element t) (exact : Exact element) :
      Template (.dynamicList name (element :: others)) (.list t)
  | fixedList (name : Bytes) {dimension : UInt32} {vs : List AbstractType} {t : Ty}
      (full : vs.length = dimension.toNat) (nonempty : 0 < dimension.toNat) (each : ∀ v ∈ vs, Template v t) :
      Template (.fixedList name dimension vs) (.fixed t dimension.toNat)
  | struct (name : Bytes) {vs : List AbstractType} {ts : List Ty} (count : vs.length = ts.length)
      (each : ∀ p ∈ vs.zip ts, Template p.1 p.2) : Template (.struct name vs) (.tuple ts)

theorem denotes_headType {limit : Nat} {v : AbstractType} {t : Ty} {x : Value} (denotes : Denotes limit v t x) :
    HeadType v t := by
  induction denotes with
  | boolean name b => exact .boolean name b
  | uint name extent u => exact .uint name extent u
  | int name extent low high => exact .int name extent _
  | fixedBytes name exact => exact .fixedBytes name _ _
  | addr name exact => exact .addr name _
  | string name content => exact .string name content
  | dynamicBytes name content => exact .dynamicBytes name content
  | dynamicList name count short each ih => exact .dynamicList name _ _
  | fixedList name full nonempty count each ih => exact .fixedList name full nonempty (zip_left count ih)
  | struct name types count each ih =>
    exact .struct name types (rows_of_zip (R := fun v t _ => HeadType v t) types count ih).zip_left

/-- What a tree stands for is a value of its type. -/
theorem denotes_typed {limit : Nat} {v : AbstractType} {t : Ty} {x : Value} (denotes : Denotes limit v t x) :
    Typed t x := by
  induction denotes with
  | boolean name b => exact .bool b
  | uint name extent u => exact .uint u.isLt
  | int name extent low high => exact .int low high
  | @fixedBytes name fixedN content exact => exact .bytesN exact fixedN.2.1 fixedN.2.2
  | addr name exact => exact .address exact
  | string name content => exact .string content
  | dynamicBytes name content => exact .bytes content
  | dynamicList name count short each ih => exact .list (zip_right count ih)
  | fixedList name full nonempty count each ih => exact .fixed (by omega) (zip_right count ih)
  | struct name types count each ih =>
    exact .tuple count (rows_of_zip (R := fun _ t x => Typed t x) types count ih).zip_right

theorem template_headType {v : AbstractType} {t : Ty} (template : Template v t) : HeadType v t := by
  induction template with
  | boolean name b => exact .boolean name b
  | uint name extent u => exact .uint name extent u
  | int name extent i => exact .int name extent i
  | fixedBytes name fixedN content => exact .fixedBytes name fixedN content
  | addr name text => exact .addr name text
  | string name content => exact .string name content
  | dynamicBytes name content => exact .dynamicBytes name content
  | dynamicList name fillable exact' ih => exact .dynamicList name _ _
  | fixedList name full nonempty each ih => exact .fixedList name full nonempty ih
  | struct name count each ih => exact .struct name count ih

/-! ### Clones and equality -/

private theorem cloneMembers_eq {ts : List AbstractType} (each : ∀ t ∈ ts, Exact t → clone t = .ok t)
    (exact : AllExact ts) : cloneMembers ts = .ok ts := by
  induction ts with
  | nil => rfl
  | cons t ts ih =>
    obtain ⟨here,later⟩ := List.forall_mem_cons.mp each
    rw [AllExact] at exact
    simp [cloneMembers,here exact.1,ih later exact.2]

/-- An exact tree clones to itself. -/
theorem clone_eq {t : AbstractType} (exact : Exact t) : clone t = .ok t := by
  induction t using AbstractType.induct with
  | fixedBytes name fixedN content =>
    rw [Exact] at exact
    rw [clone,setFixedBytes,if_pos exact]
  | dynamicList name vs ih => simp [clone,cloneMembers_eq ih (by simpa [Exact] using exact)]
  | fixedList name dimension vs ih => simp [clone,cloneMembers_eq ih (by simpa [Exact] using exact)]
  | struct name vs ih => simp [clone,cloneMembers_eq ih (by simpa [Exact] using exact)]
  | _ => rfl

private theorem cloneMembers_same {ts cs : List AbstractType} (each : ∀ t ∈ ts, ∀ c, clone t = .ok c → c = t)
    (cloned : cloneMembers ts = .ok cs) : cs = ts := by
  induction ts generalizing cs with
  | nil => simpa [cloneMembers] using cloned.symm
  | cons t ts ih =>
    obtain ⟨here,later⟩ := List.forall_mem_cons.mp each
    obtain ⟨c,copied,more⟩ := bind_ok.mp (by simpa [cloneMembers] using cloned)
    obtain ⟨rest,copies,⟨⟩⟩ := bind_ok.mp more
    rw [here c copied,ih later copies]

/-- What `clone()` returns is the tree. -/
theorem clone_same {t : AbstractType} : ∀ c, clone t = .ok c → c = t := by
  induction t using AbstractType.induct with
  | fixedBytes name fixedN content =>
    intro c cloned
    by_cases exact : content.length = fixedN.1
    · simpa [clone,setFixedBytes,exact] using cloned.symm
    · simp [clone,setFixedBytes,exact,throws] at cloned
  | dynamicList name vs ih =>
    intro c cloned
    obtain ⟨copies,copied,⟨⟩⟩ := bind_ok.mp (by simpa [clone] using cloned)
    rw [cloneMembers_same ih copied]
  | fixedList name dimension vs ih =>
    intro c cloned
    obtain ⟨copies,copied,⟨⟩⟩ := bind_ok.mp (by simpa [clone] using cloned)
    rw [cloneMembers_same ih copied]
  | struct name vs ih =>
    intro c cloned
    obtain ⟨copies,copied,⟨⟩⟩ := bind_ok.mp (by simpa [clone] using cloned)
    rw [cloneMembers_same ih copied]
  | _ => exact fun c cloned => by simpa [clone] using cloned.symm

/-- A tree that can be cloned is exact. -/
theorem exact_of_clone {tv : AbstractType} : ∀ {copy : AbstractType}, clone tv = .ok copy → Exact tv := by
  have members : ∀ {vs copies : List AbstractType}, (∀ v ∈ vs, ∀ {copy}, clone v = .ok copy → Exact v) →
      cloneMembers vs = .ok copies → AllExact vs := by
    intro vs
    induction vs with
    | nil => exact fun _ _ => trivial
    | cons v rest more =>
      intro copies each cloned
      obtain ⟨here,later⟩ := List.forall_mem_cons.mp each
      rw [cloneMembers] at cloned
      obtain ⟨first,one,cloned⟩ := bind_ok.mp cloned
      obtain ⟨others,all,_⟩ := bind_ok.mp cloned
      exact ⟨here one,more later all⟩
  induction tv using AbstractType.induct with
  | fixedBytes name fixedN content =>
    intro copy cloned
    rw [clone,setFixedBytes] at cloned
    by_cases exact' : content.length = fixedN.1
    · exact exact'
    · cases (if_neg exact').symm.trans cloned
  | dynamicList name vs ih | fixedList name dimension vs ih | struct name vs ih =>
    intro copy cloned
    rw [clone] at cloned
    obtain ⟨copies,all,_⟩ := bind_ok.mp cloned
    exact members ih all
  | _ => exact fun _ => trivial

theorem allExact_iff {vs : List AbstractType} : AllExact vs ↔ ∀ v ∈ vs, Exact v := by
  induction vs with
  | nil => simp [AllExact]
  | cons v rest ih => rw [AllExact,ih,List.forall_mem_cons]

/-- Members that stand for the same, in order, are equal. -/
private theorem membersEqual_of {γ : Type} {S : AbstractType → γ → Prop} {vs ws : List AbstractType} {cs : List γ}
    (left : List.Forall₂ (fun v c => ∀ w, S w c → isEqual v w = true) vs cs) (right : List.Forall₂ S ws cs) :
    membersEqual vs ws = true := by
  induction left generalizing ws with
  | nil => cases right; rfl
  | cons here later ih =>
    cases right with
    | cons here' later' => simp [membersEqual,here _ here',ih later']

private theorem denotes_equal {limit : Nat} {v : AbstractType} {t : Ty} {x : Value} (left : Denotes limit v t x) :
    ∀ {w : AbstractType} {u : Ty} {y : Value}, Denotes limit w u y → t = u → x = y → isEqual v w = true := by
  induction left with
  | boolean name b =>
    intro w u y right types values
    cases right with
    | boolean name' b' => simpa [isEqual] using values
    | _ => simp at types
  | uint name extent n =>
    intro w u y right types values
    cases right with
    | uint name' extent' n' => simpa [isEqual,BitVec.toNat_inj] using values
    | _ => simp at types
  | int name extent low high =>
    intro w u y right types values
    cases right with
    | int name' extent' low' high' => simpa [isEqual] using values
    | _ => simp at types
  | fixedBytes name exact =>
    intro w u y right types values
    cases right with
    | fixedBytes name' exact' => simpa [isEqual] using values
    | _ => simp at types
  | addr name exact =>
    intro w u y right types values
    cases right with
    | addr name' exact' => simp only [Value.bytes.injEq] at values; simp [isEqual,values]
    | _ => simp at types
  | string name content =>
    intro w u y right types values
    cases right with
    | string name' content' => simpa [isEqual] using values
    | _ => simp at types
  | dynamicBytes name content =>
    intro w u y right types values
    cases right with
    | dynamicBytes name' content' => simpa [isEqual] using values
    | _ => simp at types
  | @dynamicList name vs t xs count short each ih =>
    intro w u y right types values
    cases right with
    | @dynamicList name' ws t' ys count' short' each' =>
      simp only [Ty.list.injEq,Value.seq.injEq] at types values
      subst types values
      rw [isEqual]
      exact membersEqual_of (S := fun w x => Denotes limit w t x)
        (pairwise_of_zip (R := fun v x => ∀ w, Denotes limit w t x → isEqual v w = true) count
          (fun p member w denotes => ih p member denotes rfl rfl))
        (pairwise_of_zip count' each')
    | _ => simp at types
  | @fixedList name dimension vs t xs full nonempty count each ih =>
    intro w u y right types values
    cases right with
    | @fixedList name' dimension' ws t' ys full' nonempty' count' each' =>
      simp only [Ty.fixed.injEq,Value.seq.injEq,UInt32.toNat_inj] at types values
      obtain ⟨rfl,rfl⟩ := types
      subst values
      simp only [isEqual,beq_self_eq_true,Bool.true_and]
      exact membersEqual_of (S := fun w x => Denotes limit w t x)
        (pairwise_of_zip (R := fun v x => ∀ w, Denotes limit w t x → isEqual v w = true) count
          (fun p member w denotes => ih p member denotes rfl rfl))
        (pairwise_of_zip count' each')
    | _ => simp at types
  | @struct name vs ts xs types count each ih =>
    intro w u y right sameTypes values
    cases right with
    | @struct name' ws ts' ys types' count' each' =>
      simp only [Ty.tuple.injEq,Value.seq.injEq] at sameTypes values
      subst sameTypes values
      rw [isEqual]
      have rows : ∀ {us : List AbstractType}, us.length = ts.length → us.length = (ts.zip xs).length := by
        intro us sizes
        rw [List.length_zip]
        omega
      exact membersEqual_of (S := fun w (c : Ty × Value) => Denotes limit w c.1 c.2)
        (pairwise_of_zip (R := fun v (c : Ty × Value) => ∀ w, Denotes limit w c.1 c.2 → isEqual v w = true)
          (rows types) (fun p member w denotes => ih p member denotes rfl rfl))
        (pairwise_of_zip (rows types') each')
    | _ => simp at sameTypes

/-- Trees that stand for one value are equal. -/
theorem denotes_isEqual {limit : Nat} {v w : AbstractType} {t : Ty} {x : Value} (left : Denotes limit v t x)
    (right : Denotes limit w t x) : isEqual v w = true := denotes_equal left right rfl rfl

end CppSdk.ContractABIType

import CppSdk.SolidityCodec
import CppSdk.Texts

/-!
The decoder of arguments whose types are named at run time. `abiOutByFuncSelector` walks
the heads as `abiOut` does, but nothing catches the exceptions and the results are pushed as
they come: it agrees with `abiOut` where this decodes the arguments, and on a list whose
first name is unknown (`abiOutByFuncSelector_agrees_iff`).
-/
namespace CppSdk.FuncSelector
open CppSdk.ByteString CppSdk.Runtime CppSdk.Texts CppSdk.SolidityCodec

/-! ### The source -/

section
variable (U : Utilities) (data : Bytes)

/-- The text of the value of a named type at an offset, for the types that are supported. -/
def valueText (type : Bytes) (offset : UInt64) : Option (Call Bytes) :=
  if type = lit "int" ∨ type = lit "int256" then some (do
    let s ← deserializeS256 U data offset
    .ok (intText s.1))
  else if type = lit "uint" ∨ type = lit "uint256" then some (do
    let u ← deserializeU256 U data offset
    .ok (stdToString u.toNat))
  else if type = lit "address" then some (do
    let addr ← deserializeAddress U data offset
    .ok (U.toHexString addr.1))
  else if type = lit "string" then some (do
    let stringOffset ← deserializeU256 U data offset
    deserializeBytes U data (sizeOfWord stringOffset))
  else none

/-- The loop over the types from an offset on. The object is the vector of the results. -/
def pushAll : List Bytes → UInt64 → Method Failure (List Bytes) Bool
  | [], _ => pure true
  | type :: types, offset =>
    match valueText U data type offset with
    | none => pure false
    | some call => do
      let text ← call
      modify (fun out => out ++ [text])
      pushAll types (offset + 32)

/-- `abiOutByFuncSelector`: how it ends, and the results. -/
def abiOutByFuncSelector (types out : List Bytes) : Call Bool × List Bytes := (pushAll U data types 0).run out

end

/-! ### The types of the names -/

/-- The type that a name stands for. -/
def argType (type : Bytes) : Option ArgType :=
  if type = lit "int" ∨ type = lit "int256" then some .s256
  else if type = lit "uint" ∨ type = lit "uint256" then some .u256
  else if type = lit "address" then some .address
  else if type = lit "string" then some .string
  else none

/-- The text of a value: a decimal number, a hexadecimal address or the string. -/
def shown : (T : ArgType) → T.Val → Bytes
  | .s256, i => intText i.1
  | .u256, u => stdToString (BitVec.toNat u)
  | .address, account => toHex account.1
  | .string, content => content
  | _, _ => []
/-- The texts of values. -/
def allShown : (Ts : List ArgType) → Vals Ts → List Bytes
  | [], _ => []
  | T :: Ts, (x,xs) => shown T x :: allShown Ts xs

/-! ### What has to be inside the data -/

section
variable (data : Bytes)

/-- The head of a value is inside the data and, for a string, its length and its last byte. -/
def Inside (T : ArgType) (position : UInt64) : Prop :=
  WordInside data position ∧ (abiDynamicType T = true → WordInside data (sizeOfWord (wordAt data position)) ∧
    WordInside data (sizeOfWord (wordAt data position) + sizeOfWord (wordAt data (sizeOfWord (wordAt data position)))))
/-- All values are inside the data, with heads of one word from the position on. -/
def AllInside : List ArgType → UInt64 → Prop
  | [], _ => True
  | T :: Ts, position => Inside data T position ∧ AllInside Ts (position + 32)

instance (T : ArgType) (position : UInt64) : Decidable (Inside data T position) := inferInstanceAs (Decidable (_ ∧ _))

end

/-! ### One value -/

section
variable {U : Utilities} {data : Bytes}

variable (U data) in
private theorem validOffset_cases (position : UInt64) :
    (WordInside data position ∧ validOffset U data (position + 31) = .ok ()) ∨
      (¬ WordInside data position ∧ ∃ what, validOffset U data (position + 31) = .error (.throws what)) := by
  by_cases inside : WordInside data position
  · exact .inl ⟨inside,if_neg (Nat.not_le.mpr inside)⟩
  · exact .inr ⟨inside,_,if_pos (Nat.not_lt.mp inside)⟩

variable (U data) in
/-- A read succeeds with the word at the position, or throws. -/
theorem deserializeU256_cases (position : UInt64) :
    (WordInside data position ∧ deserializeU256 U data position = .ok (wordAt data position)) ∨
      (¬ WordInside data position ∧ ∃ what, deserializeU256 U data position = .error (.throws what)) := by
  rcases validOffset_cases U data position with ⟨inside,valid⟩ | ⟨outside,what,invalid⟩
  · refine .inl ⟨inside,?_⟩
    rw [deserializeU256,last_word,valid]
    rfl
  · refine .inr ⟨outside,what,?_⟩
    rw [deserializeU256,last_word,invalid]
    rfl

/-- The types that have a name. -/
def Named (T : ArgType) : Prop := T = .s256 ∨ T = .u256 ∨ T = .address ∨ T = .string

private theorem named_of_argType {type : Bytes} {T : ArgType} (known : argType type = some T) : Named T := by
  unfold argType at known
  split_ifs at known <;> cases known <;> simp [Named]

/-- The component of `abiOut` of a type, at a position. -/
def component (U : Utilities) (data : Bytes) (T : ArgType) (position : UInt64) : Call T.Val :=
  deserializeComponent U data T (fun o => deserialize U data T o) 0 position

variable (U data) in
/-- A string is read when its length and its last byte are inside. -/
theorem deserializeBytes_cases (position : UInt64) :
    ((WordInside data position ∧ WordInside data (position + sizeOfWord (wordAt data position))) ∧
        ∃ x, deserializeBytes U data position = .ok x) ∨
      (¬ (WordInside data position ∧ WordInside data (position + sizeOfWord (wordAt data position))) ∧
        ∃ what, deserializeBytes U data position = .error (.throws what)) := by
  rcases deserializeU256_cases U data position with ⟨inside,read⟩ | ⟨outside,what,read⟩
  · have last : position + 32 + sizeOfWord (wordAt data position) - 1 = position + sizeOfWord (wordAt data position) + 31 := by grind
    rcases validOffset_cases U data (position + sizeOfWord (wordAt data position)) with
      ⟨within,valid⟩ | ⟨beyond,what,invalid⟩
    · refine .inl ⟨⟨inside,within⟩,?_⟩
      rw [deserializeBytes,read,ok_bind,last,valid]
      exact ⟨_,rfl⟩
    · refine .inr ⟨fun both => beyond both.2,what,?_⟩
      rw [deserializeBytes,read,ok_bind,last,invalid]
      rfl
  · refine .inr ⟨fun both => outside both.1,what,?_⟩
    rw [deserializeBytes,read]
    rfl

private theorem inside_static {T : ArgType} (static : abiDynamicType T = false) (position : UInt64) :
    Inside data T position ↔ WordInside data position := by
  simp [Inside,static]

/-- A string is read where the word of its head says, from the start of the data on. -/
theorem component_string (position : UInt64) : component U data .string position = (do
    let stringOffset ← deserializeU256 U data position
    deserializeBytes U data (sizeOfWord stringOffset)) := by
  simp [component,deserializeComponent,abiDynamicType,removeDimension,deserialize]
  rfl

variable (U data) in
/-- A value of a named type is decoded exactly when it is inside the data. -/
theorem component_cases {T : ArgType} (named : Named T) (position : UInt64) :
    (Inside data T position ∧ ∃ x, component U data T position = .ok x) ∨
      (¬ Inside data T position ∧ ∃ what, component U data T position = .error (.throws what)) := by
  have read := deserializeU256_cases U data position
  rcases named with rfl | rfl | rfl | rfl
  · rw [inside_static rfl]
    rcases read with ⟨inside,read⟩ | ⟨outside,what,read⟩
    · refine .inl ⟨inside,?_⟩
      change ∃ x, deserializeS256 U data position = .ok x
      rw [deserializeS256,read,ok_bind]
      split
      · exact ⟨_,rfl⟩
      · exact ⟨_,rfl⟩
    · refine .inr ⟨outside,what,?_⟩
      change deserializeS256 U data position = _
      rw [deserializeS256,read]
      rfl
  · rw [inside_static rfl]
    rcases read with ⟨inside,read⟩ | ⟨outside,what,read⟩
    · exact .inl ⟨inside,_,read⟩
    · exact .inr ⟨outside,what,read⟩
  · rw [inside_static rfl]
    change _ ∧ (∃ x, deserializeAddress U data position = .ok x) ∨ _ ∧ ∃ what, deserializeAddress U data position = _
    rcases validOffset_cases U data position with ⟨inside,valid⟩ | ⟨outside,what,invalid⟩
    · refine .inl ⟨inside,?_⟩
      rw [deserializeAddress,last_word,valid]
      exact ⟨_,rfl⟩
    · refine .inr ⟨outside,what,?_⟩
      rw [deserializeAddress,last_word,invalid]
      rfl
  · rw [component_string]
    rcases read with ⟨inside,read⟩ | ⟨outside,what,read⟩
    · rw [read,ok_bind]
      rcases deserializeBytes_cases U data (sizeOfWord (wordAt data position)) with
        ⟨within,x,decoded⟩ | ⟨beyond,what,thrown⟩
      · exact .inl ⟨⟨inside,fun _ => within⟩,x,decoded⟩
      · exact .inr ⟨fun all => beyond (all.2 rfl),what,thrown⟩
    · refine .inr ⟨fun all => outside all.1,what,?_⟩
      rw [read]
      rfl

/-! ### The loops -/

/-- The loop of `abiOut` over named types, whose heads are words. -/
theorem deserializeMembers_named {T : ArgType} (named : Named T) (Ts : List ArgType) (offset : UInt64) :
    deserializeMembers U data (T :: Ts) 0 offset = (do
      let x ← component U data T offset
      let xs ← deserializeMembers U data Ts 0 (offset + 32)
      .ok (x,xs)) := by
  have word : headBytes (lengthOf T) = .ok 32 := by
    rcases named with rfl | rfl | rfl | rfl <;> rfl
  rw [deserializeMembers,word,UInt64.zero_add]
  rfl

variable (U data) in
/-- The arguments of named types are decoded exactly when they are inside the data. -/
theorem members_cases {Ts : List ArgType} (named : ∀ T ∈ Ts, Named T) (offset : UInt64) :
    (AllInside data Ts offset ∧ ∃ xs, deserializeMembers U data Ts 0 offset = .ok xs) ∨
      (¬ AllInside data Ts offset ∧ ∃ what, deserializeMembers U data Ts 0 offset = .error (.throws what)) := by
  induction Ts generalizing offset with
  | nil => exact .inl ⟨trivial,(),rfl⟩
  | cons T Ts ih =>
    obtain ⟨first,others⟩ := List.forall_mem_cons.mp named
    rw [deserializeMembers_named first]
    rcases component_cases U data first offset with ⟨inside,x,decoded⟩ | ⟨outside,what,thrown⟩
    · rw [decoded,ok_bind]
      rcases ih others (offset + 32) with ⟨within,xs,rest⟩ | ⟨beyond,what,thrown⟩
      · exact .inl ⟨⟨inside,within⟩,(x,xs),by rw [rest]; rfl⟩
      · exact .inr ⟨fun all => beyond all.2,what,by rw [thrown]; rfl⟩
    · exact .inr ⟨fun all => outside all.1,what,by rw [thrown]; rfl⟩

/-- The types of the names, where all are known. -/
def argTypes (types : List Bytes) : Option (List ArgType) := types.mapM argType

private theorem argTypes_cons {type : Bytes} {types : List Bytes} {Ts : List ArgType} (known : argTypes (type :: types) = some Ts) :
    ∃ T rest, argType type = some T ∧ argTypes types = some rest ∧ Ts = T :: rest := by
  simp only [argTypes,List.mapM_cons,Option.bind_eq_bind,Option.bind_eq_some_iff,Option.pure_def,Option.some.injEq] at known
  obtain ⟨T,first,rest,others,rfl⟩ := known
  exact ⟨T,rest,first,others,rfl⟩
private theorem argTypes_named {types : List Bytes} {Ts : List ArgType} (known : argTypes types = some Ts) : ∀ T ∈ Ts, Named T := by
  induction types generalizing Ts with
  | nil =>
    cases known
    simp
  | cons type types ih =>
    obtain ⟨T,rest,first,others,rfl⟩ := argTypes_cons known
    exact List.forall_mem_cons.mpr ⟨named_of_argType first,ih others⟩

private theorem valueText_unknown {type : Bytes} (unknown : argType type = none) (offset : UInt64) : valueText U data type offset = none := by
  unfold argType at unknown
  unfold valueText
  split_ifs at unknown ⊢
  rfl

/-- The text of a known type is that of the component of `abiOut`. -/
theorem valueText_known (documented : U.Documented) {type : Bytes} {T : ArgType} (known : argType type = some T) (offset : UInt64) :
    valueText U data type offset = some (do
      let x ← component U data T offset
      .ok (shown T x)) := by
  unfold argType at known
  unfold valueText
  split_ifs at known ⊢ with int uint address string <;> cases known
  · rfl
  · rfl
  · have shows : ∀ addr : Exactly 20, U.toHexString addr.1 = shown .address addr := fun addr => documented.toHexString_writes addr.1
    simp only [shows]
    rfl
  · have whole : ∀ call : Call Bytes, (do
        let x ← call
        .ok (shown .string x)) = call := by
      intro call
      cases call <;> rfl
    exact congrArg some ((component_string offset).symm.trans (whole _).symm)

/-! ### The loop that pushes -/

variable (U data) in
/-- Nothing that is pushed is taken back. -/
theorem pushAll_grows (types : List Bytes) (offset : UInt64) (out : List Bytes) :
    ∃ pushed, ((pushAll U data types offset).run out).2 = out ++ pushed := by
  induction types generalizing offset out with
  | nil => exact ⟨[],(List.append_nil out).symm⟩
  | cons type types ih =>
    rw [pushAll]
    cases read : valueText U data type offset with
    | none => exact ⟨[],(List.append_nil out).symm⟩
    | some call =>
      dsimp only
      cases call with
      | error failure =>
        rw [run_bind_error (run_lift_error rfl)]
        exact ⟨[],(List.append_nil out).symm⟩
      | ok text =>
        obtain ⟨pushed,grown⟩ := ih (offset + 32) (out ++ [text])
        rw [run_bind (run_lift rfl),run_bind (run_modify _ _),grown]
        exact ⟨text :: pushed,by simp⟩

/-- The steps of the loop on a known type. -/
theorem pushAll_known (documented : U.Documented) {type : Bytes} {T : ArgType} (known : argType type = some T)
    (types : List Bytes) (offset : UInt64) (out : List Bytes) :
    (∀ x, component U data T offset = .ok x →
      (pushAll U data (type :: types) offset).run out = (pushAll U data types (offset + 32)).run (out ++ [shown T x])) ∧
    (∀ failure, component U data T offset = .error failure →
      (pushAll U data (type :: types) offset).run out = (.error failure,out)) := by
  refine ⟨fun x decoded => ?_,fun failure failed => ?_⟩
  · rw [pushAll,valueText_known documented known,decoded]
    exact (run_bind (run_lift rfl)).trans (run_bind (run_modify _ _))
  · rw [pushAll,valueText_known documented known,failed]
    exact run_bind_error (run_lift_error rfl)

variable (data) in
/-- On known types the loop ends as that of `abiOut` does, and an exception escapes. -/
theorem pushAll_members (documented : U.Documented) {types : List Bytes} {Ts : List ArgType} (known : argTypes types = some Ts)
    (offset : UInt64) (out : List Bytes) :
    (∀ xs, deserializeMembers U data Ts 0 offset = .ok xs →
      (pushAll U data types offset).run out = (.ok true,out ++ allShown Ts xs)) ∧
    (∀ failure, deserializeMembers U data Ts 0 offset = .error failure →
      ((pushAll U data types offset).run out).1 = .error failure) := by
  induction types generalizing Ts offset out with
  | nil =>
    cases known
    refine ⟨fun xs _ => ?_,fun failure failed => by cases failed⟩
    change _ = (_,out ++ [])
    rw [List.append_nil]
    rfl
  | cons type types ih =>
    obtain ⟨T,rest,first,others,rfl⟩ := argTypes_cons known
    obtain ⟨decoded,failed⟩ := pushAll_known documented first types offset out
    rw [deserializeMembers_named (named_of_argType first)]
    cases read : component U data T offset with
    | error failure =>
      rw [error_bind]
      refine ⟨fun xs whole => (by cases whole),fun failure' whole => ?_⟩
      cases whole
      rw [failed _ read]
    | ok x =>
      obtain ⟨accepted,thrown⟩ := ih others (offset + 32) (out ++ [shown T x])
      rw [ok_bind,decoded x read]
      refine ⟨fun xs whole => ?_,fun failure whole => ?_⟩
      · obtain ⟨ys,later,⟨⟩⟩ := bind_ok.mp whole
        rw [accepted ys later,allShown,List.append_assoc]
        rfl
      · cases later : deserializeMembers U data rest 0 (offset + 32) with
        | ok ys =>
          rw [later] at whole
          cases whole
        | error failure' =>
          rw [later] at whole
          cases whole
          exact thrown _ later

/-! ### Agreement -/

/-- A call agrees with `abiOut` on the types of the names: it returns true and adds the
    texts of the arguments that `abiOut` decodes, and where there are none it returns false
    and leaves the results as they were. -/
structure Agrees (U : Utilities) (data : Bytes) (types out : List Bytes) (ended : Call Bool × List Bytes) : Prop where
  accepted : ∀ Ts xs, argTypes types = some Ts → abiOut U data Ts = .ok (some xs) → ended = (.ok true,out ++ allShown Ts xs)
  rejected : (∀ Ts, argTypes types = some Ts → abiOut U data Ts = .ok none) → ended = (.ok false,out)

/-- The first name is that of no type. -/
def FirstUnknown (types : List Bytes) : Prop := ∃ type, types.head? = some type ∧ argType type = none
/-- All names are known, and all values are inside the data. -/
def WellFormed (data : Bytes) (types : List Bytes) : Prop := ∃ Ts, argTypes types = some Ts ∧ AllInside data Ts 0

omit U data in
private theorem first_known {types : List Bytes} {Ts : List ArgType} (known : argTypes types = some Ts) {type : Bytes}
    (first : types.head? = some type) (unknown : argType type = none) : False := by
  obtain ⟨rest,rfl⟩ := List.head?_eq_some_iff.mp first
  obtain ⟨T,_,named,_,_⟩ := argTypes_cons known
  cases unknown.symm.trans named

/-- Decoding by names agrees with `abiOut` exactly where this decodes the arguments, and
    where the first name is unknown. -/
theorem abiOutByFuncSelector_agrees_iff (documented : U.Documented) (types out : List Bytes) :
    Agrees U data types out (abiOutByFuncSelector U data types out) ↔ WellFormed data types ∨ FirstUnknown types := by
  cases known : argTypes types with
  | some Ts =>
    obtain ⟨accepts,escapes⟩ := pushAll_members data documented known 0 out
    rcases members_cases U data (argTypes_named known) 0 with ⟨inside,xs,decoded⟩ | ⟨outside,what,thrown⟩
    · refine iff_of_true ⟨fun Ts' ys known' accepted => ?_,fun rejects => ?_⟩ (.inl ⟨Ts,known,inside⟩)
      · cases known.symm.trans known'
        rw [abiOut,abiOutAux,decoded] at accepted
        cases accepted
        exact accepts xs decoded
      · have rejected := rejects Ts known
        rw [abiOut,abiOutAux,decoded] at rejected
        cases rejected
    · refine iff_of_false (fun agrees => ?_) ?_
      · have none_out : abiOut U data Ts = .ok none := by rw [abiOut,abiOutAux,thrown]
        have ended := agrees.rejected (fun Ts' known' => by cases known.symm.trans known'; exact none_out)
        have escaped := escapes _ thrown
        rw [abiOutByFuncSelector] at ended
        rw [ended] at escaped
        cases escaped
      · rintro (⟨Ts',known',inside⟩ | ⟨type,first,unknown⟩)
        · cases known.symm.trans known'
          exact outside inside
        · exact first_known known first unknown
  | none =>
    have other : ¬ WellFormed data types := by
      rintro ⟨Ts,known',_⟩
      cases known.symm.trans known'
    rw [or_iff_right other]
    constructor
    · intro agrees
      have ended := agrees.rejected (fun Ts known' => by cases known.symm.trans known')
      cases types with
      | nil => cases known
      | cons type types =>
        refine ⟨type,rfl,?_⟩
        cases named : argType type with
        | none => rfl
        | some T =>
          obtain ⟨decoded,failed⟩ := pushAll_known documented named types 0 out
          rw [abiOutByFuncSelector] at ended
          cases read : component U data T 0 with
          | error failure =>
            rw [failed failure read] at ended
            cases ended
          | ok x =>
            obtain ⟨pushed,grown⟩ := pushAll_grows U data types (0 + 32) (out ++ [shown T x])
            rw [decoded x read] at ended
            rw [ended] at grown
            simp at grown
    · rintro ⟨type,first,unknown⟩
      refine ⟨fun Ts xs known' => (by cases known.symm.trans known'),fun _ => ?_⟩
      obtain ⟨rest,rfl⟩ := List.head?_eq_some_iff.mp first
      rw [abiOutByFuncSelector,pushAll,valueText_unknown unknown]
      rfl

/-- The number 7, and the string "A" with its offset and its length. -/
def numberAndText : Bytes := word 7 ++ word 64 ++ word 1 ++ padRight (lit "A")

/-- A number and a string are decoded by their names. -/
theorem abiOutByFuncSelector_agrees_text : Agrees Utilities.reference numberAndText [lit "uint256",lit "string"] []
    (abiOutByFuncSelector Utilities.reference numberAndText [lit "uint256",lit "string"] []) := by
  refine (abiOutByFuncSelector_agrees_iff reference_documented _ _).mpr (.inl ⟨[.u256,.string],rfl,?_⟩)
  exact ⟨by decide +kernel,by decide +kernel,trivial⟩

/-- A number and a second one that is missing: the exception escapes after the first is pushed. -/
theorem abiOutByFuncSelector_disagrees :
    (abiOutByFuncSelector Utilities.reference (word 7) [lit "uint",lit "uint"] []).2 = [lit "7"] ∧
      ¬ Agrees Utilities.reference (word 7) [lit "uint",lit "uint"] []
        (abiOutByFuncSelector Utilities.reference (word 7) [lit "uint",lit "uint"] []) := by
  have escaped : (abiOutByFuncSelector Utilities.reference (word 7) [lit "uint",lit "uint"] []).2 = [lit "7"] := by decide +kernel
  refine ⟨escaped,fun agrees => ?_⟩
  have failed : (abiOut Utilities.reference (word 7) [.u256,.u256]).toOption.map Option.isNone = some true := by decide +kernel
  have none_out : abiOut Utilities.reference (word 7) [.u256,.u256] = .ok none := by
    cases decoded : abiOut Utilities.reference (word 7) [.u256,.u256] with
    | error failure => simp [decoded,Except.toOption] at failed
    | ok xs => cases xs <;> simp [decoded,Except.toOption] at failed ⊢
  have ended := agrees.rejected (fun Ts known => by cases known; exact none_out)
  rw [ended] at escaped
  cases escaped

end

end CppSdk.FuncSelector

import CppSdk.TreeHeads

/-!
The lists that a run of the decoder fills. `fills` gives the numbers of elements that its loops
append, whether the run returns or throws. The run ends where these are numbers of type `size_t`
(`deserializeUses_ends`), and a list that it returns has one of these lengths or is as it was
(`returned_fills`).
-/
namespace CppSdk.ListFills
open CppSdk.ByteString CppSdk.Runtime CppSdk.ContractABIType CppSdk.ContractABITypeCodec CppSdk.TreeHeads

/-! ### The loops of a run -/

section
variable (U : Utilities) (buffer : Bytes)

/-- The body of the loops over components, without the assertion. -/
def decodeComponent (t : AbstractType) (base : UInt64) (cursor : Cursor) : Call (AbstractType × List Use × Cursor) :=
  deserializeComponent U buffer (fun o => deserializeUses U true buffer t o) (dynamicType t) (fun _ => .ok ()) base cursor
/-- The body of the loop of `T[]`, which decodes into a clone. -/
def decodeElement (template : AbstractType) (base : UInt64) (cursor : Cursor) : Call (AbstractType × List Use × Cursor) := do
  let _ ← clone template
  decodeComponent U buffer template base cursor

/-- The lists of a component are filled from where it is decoded. -/
def componentFills (fills : UInt64 → List Nat) (dynamic : Call Bool) (base : UInt64) (cursor : Cursor) : List Nat :=
  match dynamic with
  | .ok true =>
    match deserializeU256 U buffer cursor.position with
    | .ok valueOffset => fills (base + sizeOfWord valueOffset)
    | .error _ => []
  | .ok false => fills cursor.position
  | .error _ => []
/-- The elements that a loop appends before it stops, and the lists in all that it begins. -/
def elementFills (element : Cursor → Call (AbstractType × List Use × Cursor)) (fills : Cursor → List Nat) : Nat → Cursor → Nat × List Nat
  | 0, _ => (0,[])
  | count + 1, cursor =>
    match element cursor with
    | .ok (_,_,next) =>
      let (size,later) := elementFills element fills count next
      (size + 1,fills cursor ++ later)
    | .error _ => (0,fills cursor)

mutual
/-- The numbers of elements that the loops append when the tree is decoded from the offset. -/
def fills : AbstractType → UInt64 → List Nat
  | .dynamicList _ value, offset =>
    match deserializeU256 U buffer offset, value with
    | .ok listSize, template :: _ =>
      let base := offset + 32
      let (size,inner) := elementFills (decodeElement U buffer template base) (fun cursor =>
        match clone template with
        | .ok _ => componentFills U buffer (fun o => fills template o) (dynamicType template) base cursor
        | .error _ => []) listSize.toNat (cursorAt base)
      size :: inner
    | _, _ => []
  | .fixedList _ dimension value, offset => memberFills offset value dimension.toNat (cursorAt offset)
  | .struct _ value, offset => memberFills offset value value.length (cursorAt offset)
  | _, _ => []
/-- The same for the first members of a fixed list or of a struct at the base. -/
def memberFills (base : UInt64) : List AbstractType → Nat → Cursor → List Nat
  | t :: ts, count + 1, cursor =>
    componentFills U buffer (fun o => fills t o) (dynamicType t) base cursor ++
      match decodeComponent U buffer t base cursor with
      | .ok (_,_,next) => memberFills base ts count next
      | .error _ => []
  | _, _, _ => []
end

/-- The lists of an element, if its template can be cloned. -/
def templateFills (template : AbstractType) (base : UInt64) (cursor : Cursor) : List Nat :=
  match clone template with
  | .ok _ => componentFills U buffer (fun o => fills U buffer template o) (dynamicType template) base cursor
  | .error _ => []
/-- The loop of a list with the template. -/
def listFills (template : AbstractType) (base : UInt64) (count : Nat) (cursor : Cursor) : Nat × List Nat :=
  elementFills (decodeElement U buffer template base) (templateFills U buffer template base) count cursor

end

section
variable {U : Utilities} {buffer : Bytes}

theorem fills_list {name : Bytes} {template : AbstractType} {others : List AbstractType} {offset : UInt64} {listSize : U256}
    (header : deserializeU256 U buffer offset = .ok listSize) :
    fills U buffer (.dynamicList name (template :: others)) offset =
      (listFills U buffer template (offset + 32) listSize.toNat (cursorAt (offset + 32))).1 ::
        (listFills U buffer template (offset + 32) listSize.toNat (cursorAt (offset + 32))).2 := by
  unfold fills
  simp only [header]
  rfl
theorem listFills_next {template out : AbstractType} {base : UInt64} {cursor next : Cursor} {uses : List Use}
    (one : decodeElement U buffer template base cursor = .ok (out,uses,next)) (count : Nat) :
    listFills U buffer template base (count + 1) cursor = ((listFills U buffer template base count next).1 + 1,
      templateFills U buffer template base cursor ++ (listFills U buffer template base count next).2) := by
  rw [listFills,elementFills,one]
  rfl
theorem listFills_stop {template : AbstractType} {base : UInt64} {cursor : Cursor} {failure : Failure}
    (failed : decodeElement U buffer template base cursor = .error failure) (count : Nat) :
    listFills U buffer template base (count + 1) cursor = (0,templateFills U buffer template base cursor) := by
  rw [listFills,elementFills,failed]

/-- A component is decoded from where its lists are filled from. -/
theorem component_fills {t out : AbstractType} {base : UInt64} {cursor next : Cursor} {uses : List Use}
    (decoded : decodeComponent U buffer t base cursor = .ok (out,uses,next)) :
    ∃ offset used, deserializeUses U true buffer t offset = .ok (out,used) ∧
      componentFills U buffer (fun o => fills U buffer t o) (dynamicType t) base cursor = fills U buffer t offset := by
  obtain ⟨dynamic,answered,component⟩ := bind_ok.mp decoded
  cases dynamic with
  | true =>
    simp only [if_true] at component
    obtain ⟨w,read,more⟩ := bind_ok.mp component
    obtain ⟨⟨⟩,_,rest⟩ := bind_ok.mp more
    obtain ⟨⟨tree,inner⟩,decodedTree,sized⟩ := bind_ok.mp rest
    obtain ⟨size,_,⟨⟩⟩ := bind_ok.mp sized
    exact ⟨_,inner,decodedTree,by simp only [componentFills,answered,read]⟩
  | false =>
    simp only [Bool.false_eq_true,if_false] at component
    obtain ⟨⟨tree,inner⟩,decodedTree,sized⟩ := bind_ok.mp component
    obtain ⟨size,_,⟨⟩⟩ := bind_ok.mp sized
    exact ⟨_,inner,decodedTree,by simp only [componentFills,answered]⟩
/-- An element is one of a template that can be cloned. -/
theorem element_fills {template out : AbstractType} {base : UInt64} {cursor next : Cursor} {uses : List Use}
    (decoded : decodeElement U buffer template base cursor = .ok (out,uses,next)) :
    ∃ offset used, deserializeUses U true buffer template offset = .ok (out,used) ∧
      templateFills U buffer template base cursor = fills U buffer template offset := by
  obtain ⟨copy,cloned,component⟩ := bind_ok.mp decoded
  rw [templateFills,cloned]
  exact component_fills component

/-! ### The decoder ends -/

private theorem dynamicType_ends (t : AbstractType) : Ends (dynamicType t) := by
  induction t using AbstractType.induct with
  | fixedList name dimension value ih =>
    rw [dynamicType]
    refine ends_bind ?_ (fun _ _ => ?_)
    · unfold verifyDimension
      split
      · exact ends_throws _
      · split
        · exact ends_ok ()
        · exact ends_throws _
    · cases value with
      | nil => exact ends_undefined
      | cons t ts => exact ih t List.mem_cons_self
  | struct name value ih =>
    rw [dynamicType]
    induction value with
    | nil => exact ends_ok false
    | cons t ts later =>
      obtain ⟨here,others⟩ := List.forall_mem_cons.mp ih
      refine ends_bind here (fun dynamic _ => ?_)
      split
      · exact ends_ok true
      · exact later others
  | _ => exact ends_ok _

private theorem offsetAsBytes_ends (t : AbstractType) : Ends (offsetAsBytes t) := by
  induction t using AbstractType.induct with
  | fixedList name dimension value ih =>
    rw [offsetAsBytes]
    refine ends_bind (dynamicType_ends _) (fun dynamic _ => ?_)
    split
    · exact ends_ok 32
    · refine ends_bind ?_ (fun size _ => ends_ok _)
      cases value with
      | nil => exact ends_undefined
      | cons t ts => exact ih t List.mem_cons_self
  | struct name value ih =>
    have sums : ∀ offset, Ends (sumOffsets offset value) := by
      induction value with
      | nil => exact fun offset => ends_ok offset
      | cons t ts later =>
        intro offset
        obtain ⟨here,others⟩ := List.forall_mem_cons.mp ih
        exact ends_bind here (fun size _ => later others _)
    rw [offsetAsBytes]
    refine ends_bind (dynamicType_ends _) (fun dynamic _ => ?_)
    split
    · exact ends_ok 32
    · exact sums 0
  | _ => exact ends_ok 32

private theorem setFixedBytes_ends (name : Bytes) (fixedN : FixedN) (content : Bytes) : Ends (setFixedBytes name fixedN content) := by
  unfold setFixedBytes
  split
  · exact ends_ok _
  · exact ends_throws _

private theorem clone_ends (t : AbstractType) : Ends (clone t) := by
  have members : ∀ ts : List AbstractType, (∀ t ∈ ts, Ends (clone t)) → Ends (cloneMembers ts) := by
    intro ts
    induction ts with
    | nil => exact fun _ => ends_ok []
    | cons t ts later =>
      intro all
      obtain ⟨here,others⟩ := List.forall_mem_cons.mp all
      exact ends_bind here (fun copy _ => ends_bind (later others) (fun copies _ => ends_ok _))
  induction t using AbstractType.induct with
  | fixedBytes name fixedN content => exact setFixedBytes_ends name fixedN content
  | dynamicList name value ih => exact ends_bind (members value ih) (fun copies _ => ends_ok _)
  | fixedList name dimension value ih => exact ends_bind (members value ih) (fun copies _ => ends_ok _)
  | struct name value ih => exact ends_bind (members value ih) (fun copies _ => ends_ok _)
  | _ => exact ends_ok _

private theorem verifyBufferOffset_ends (offset : UInt64) : Ends (verifyBufferOffset U buffer offset) := by
  unfold verifyBufferOffset
  split
  · exact ends_throws _
  · exact ends_ok ()
private theorem deserializeU256_ends (offset : UInt64) : Ends (deserializeU256 U buffer offset) :=
  ends_bind (verifyBufferOffset_ends _) (fun _ _ => ends_ok _)
private theorem deserializeBytes_ends (offset : UInt64) : Ends (deserializeBytes U buffer offset) :=
  ends_bind (deserializeU256_ends offset) (fun _ _ => ends_bind (verifyBufferOffset_ends _) (fun _ _ => ends_ok _))

/-- The numbers are of type `size_t`. -/
def Sized (sizes : List Nat) : Prop := ∀ size ∈ sizes, size < 2 ^ 64

/-- The tree is decoded in finite time where its lists stay in what `size_t` counts. -/
def EndsSized (U : Utilities) (buffer : Bytes) (t : AbstractType) : Prop :=
  ∀ offset, Sized (fills U buffer t offset) → Ends (deserializeUses U true buffer t offset)

private theorem component_ends {t : AbstractType} (ends : EndsSized U buffer t) {base : UInt64} {cursor : Cursor}
    (sized : Sized (componentFills U buffer (fun o => fills U buffer t o) (dynamicType t) base cursor)) :
    Ends (decodeComponent U buffer t base cursor) := by
  refine ends_bind (dynamicType_ends t) (fun dynamic answered => ?_)
  cases dynamic with
  | true =>
    refine ends_bind (deserializeU256_ends _) (fun w read => ends_bind (ends_ok ()) (fun _ _ => ?_))
    simp only [componentFills,answered,read] at sized
    exact ends_bind (ends _ sized) (fun tv _ => ends_bind (offsetAsBytes_ends tv.1) (fun size _ => ends_ok _))
  | false =>
    simp only [componentFills,answered] at sized
    exact ends_bind (ends _ sized) (fun tv _ => ends_bind (offsetAsBytes_ends tv.1) (fun size _ => ends_ok _))

private theorem elements_ends {template : AbstractType} (ends : EndsSized U buffer template) {base : UInt64} (count : Nat) {cursor : Cursor}
    (sized : Sized (listFills U buffer template base count cursor).2) :
    Ends (deserializeElements (decodeElement U buffer template base) count cursor) := by
  induction count generalizing cursor with
  | zero => exact ends_ok ([],[])
  | succ count ih =>
    have here : Sized (templateFills U buffer template base cursor) := by
      cases one : decodeElement U buffer template base cursor with
      | error failure => exact fun size member => sized size (by rw [listFills_stop one]; exact member)
      | ok tv => exact fun size member => sized size (by rw [listFills_next one]; exact List.mem_append_left _ member)
    have element : Ends (decodeElement U buffer template base cursor) := by
      refine ends_bind (clone_ends template) (fun copy cloned => component_ends ends ?_)
      rwa [templateFills,cloned] at here
    refine ends_bind element (fun tv one => ends_bind (ih (fun size member => sized size ?_)) (fun rest _ => ends_ok _))
    rw [listFills_next one]
    exact List.mem_append_right _ member

private theorem members_ends {ts : List AbstractType} (ends : ∀ t ∈ ts, EndsSized U buffer t) {base : UInt64} (count : Nat) {cursor : Cursor}
    (sized : Sized (memberFills U buffer base ts count cursor)) :
    Ends (deserializeMembers U true buffer (fun _ => .ok ()) base ts count cursor) := by
  induction ts generalizing count cursor with
  | nil =>
    cases count with
    | zero => exact ends_ok _
    | succ count => exact ends_undefined
  | cons t ts ih =>
    cases count with
    | zero => exact ends_ok _
    | succ count =>
      obtain ⟨here,later⟩ := List.forall_mem_cons.mp ends
      rw [memberFills] at sized
      refine ends_bind (component_ends here (fun size member => sized size (List.mem_append_left _ member))) (fun tv one => ?_)
      have component : decodeComponent U buffer t base cursor = .ok tv := one
      rw [component] at sized
      exact ends_bind (ih later count (fun size member => sized size (List.mem_append_right _ member))) (fun rest _ => ends_ok _)

/-- A loop that ends has appended as many elements as it was to append. -/
theorem listFills_size {template : AbstractType} {base : UInt64} {count : Nat} {cursor : Cursor} {outs : List AbstractType}
    {uses : List Use} (decoded : deserializeElements (decodeElement U buffer template base) count cursor = .ok (outs,uses)) :
    (listFills U buffer template base count cursor).1 = count ∧ outs.length = count := by
  induction count generalizing cursor outs uses with
  | zero =>
    cases decoded
    exact ⟨rfl,rfl⟩
  | succ count ih =>
    obtain ⟨⟨out,first,next⟩,one,more⟩ := bind_ok.mp decoded
    obtain ⟨⟨rest,others⟩,looped,⟨⟩⟩ := bind_ok.mp more
    obtain ⟨size,length⟩ := ih looped
    exact ⟨by rw [listFills_next one,size],by rw [List.length_cons,length]⟩

/-- The decoder ends where its lists stay in what `size_t` counts. -/
theorem deserializeUses_ends (t : AbstractType) : EndsSized U buffer t := by
  induction t using AbstractType.induct with
  | boolean name b | int name extent i =>
    exact fun _ _ => ends_bind (ends_bind (deserializeU256_ends _) (fun _ _ => ends_ok _)) (fun _ _ => ends_ok _)
  | uint name extent u => exact fun _ _ => ends_bind (deserializeU256_ends _) (fun _ _ => ends_ok _)
  | addr name text =>
    exact fun _ _ => ends_bind (ends_bind (verifyBufferOffset_ends _) (fun _ _ => ends_ok _)) (fun _ _ => ends_ok _)
  | string name content | dynamicBytes name content =>
    exact fun _ _ => ends_bind (deserializeBytes_ends _) (fun _ _ => ends_ok _)
  | fixedBytes name fixedN content =>
    refine fun _ _ => ends_bind ?_ (fun _ _ => ends_bind (setFixedBytes_ends _ _ _) (fun _ _ => ends_ok _))
    unfold deserializeBytesN
    split
    · exact ends_throws _
    · exact ends_bind (verifyBufferOffset_ends _) (fun _ _ => ends_ok _)
  | dynamicList name value ih =>
    intro offset sized
    rw [deserializeUses]
    refine ends_bind (deserializeU256_ends _) (fun listSize header => ends_bind (ends_ok ()) (fun _ _ => ?_))
    cases value with
    | nil => exact ends_ok _
    | cons template others =>
      rw [fills_list header] at sized
      obtain ⟨size,inner⟩ := List.forall_mem_cons.mp sized
      refine ends_bind (elements_ends (ih template List.mem_cons_self) listSize.toNat inner) (fun filled looped => ?_)
      rw [(listFills_size looped).1] at size
      show Ends (if 2 ^ 64 ≤ listSize.toNat then .error .diverges else .ok (AbstractType.dynamicList name filled.1,filled.2))
      rw [if_neg (by omega)]
      exact ends_ok _
  | fixedList name dimension value ih =>
    intro offset sized
    rw [deserializeUses]
    exact ends_bind (ends_ok ()) (fun _ _ => ends_bind (members_ends ih dimension.toNat sized) (fun _ _ => ends_ok _))
  | struct name value ih =>
    intro offset sized
    rw [deserializeUses]
    exact ends_bind (members_ends ih value.length sized) (fun _ _ => ends_ok _)

/-! ### What is returned -/

mutual
/-- What the lists in a tree hold. -/
def listsIn : AbstractType → List (List AbstractType)
  | .dynamicList _ value => value :: listsAmong value
  | .fixedList _ _ value => listsAmong value
  | .struct _ value => listsAmong value
  | _ => []
/-- What the lists in the members hold. -/
def listsAmong : List AbstractType → List (List AbstractType)
  | [] => []
  | t :: ts => listsIn t ++ listsAmong ts
end

theorem mem_listsAmong {value : List AbstractType} {ts : List AbstractType} :
    value ∈ listsAmong ts ↔ ∃ t ∈ ts, value ∈ listsIn t := by
  induction ts with
  | nil => simp [listsAmong]
  | cons t ts ih => simp [listsAmong,ih]

/-- The lists of what is decoded are those of the tree, or have a length that a loop gave them. -/
def Returns (U : Utilities) (buffer : Bytes) (t : AbstractType) : Prop :=
  ∀ offset out uses, deserializeUses U true buffer t offset = .ok (out,uses) →
    ∀ value ∈ listsIn out, value ∈ listsIn t ∨ value.length ∈ fills U buffer t offset

private theorem elements_returned {template : AbstractType} (returns : Returns U buffer template) {base : UInt64} {count : Nat}
    {cursor : Cursor} {outs : List AbstractType} {uses : List Use}
    (decoded : deserializeElements (decodeElement U buffer template base) count cursor = .ok (outs,uses)) :
    ∀ value ∈ listsAmong outs, value ∈ listsIn template ∨ value.length ∈ (listFills U buffer template base count cursor).2 := by
  induction count generalizing cursor outs uses with
  | zero =>
    cases decoded
    simp [listsAmong]
  | succ count ih =>
    obtain ⟨⟨out,first,next⟩,one,more⟩ := bind_ok.mp decoded
    obtain ⟨⟨rest,others⟩,looped,⟨⟩⟩ := bind_ok.mp more
    obtain ⟨offset,used,decodedTree,same⟩ := element_fills one
    intro value inside
    rw [listFills_next one,same]
    rcases List.mem_append.mp inside with here | later
    · exact (returns _ _ _ decodedTree value here).imp_right (List.mem_append_left _)
    · exact (ih looped value later).imp_right (List.mem_append_right _)

private theorem members_returned {ts : List AbstractType} (returns : ∀ t ∈ ts, Returns U buffer t) {base : UInt64} {count : Nat}
    {cursor : Cursor} {outs : List AbstractType} {uses : List Use}
    (decoded : deserializeMembers U true buffer (fun _ => .ok ()) base ts count cursor = .ok (outs,uses)) :
    ∀ value ∈ listsAmong outs, value ∈ listsAmong ts ∨ value.length ∈ memberFills U buffer base ts count cursor := by
  induction ts generalizing count cursor outs uses with
  | nil =>
    cases count with
    | zero => cases decoded; simp [listsAmong]
    | succ count => simp [deserializeMembers] at decoded
  | cons t ts ih =>
    cases count with
    | zero =>
      cases decoded
      exact fun value inside => .inl inside
    | succ count =>
      obtain ⟨here,later⟩ := List.forall_mem_cons.mp returns
      obtain ⟨⟨out,first,next⟩,one,more⟩ := bind_ok.mp (by simpa only [deserializeMembers] using decoded)
      obtain ⟨⟨rest,others⟩,looped,⟨⟩⟩ := bind_ok.mp more
      have component : decodeComponent U buffer t base cursor = .ok (out,first,next) := one
      obtain ⟨offset,used,decodedTree,same⟩ := component_fills component
      intro value inside
      rw [memberFills,component,same]
      rcases List.mem_append.mp inside with first | second
      · exact (here _ _ _ decodedTree value first).imp (List.mem_append_left _) (List.mem_append_left _)
      · exact (ih later looped value second).imp (List.mem_append_right _) (List.mem_append_right _)

theorem returned_fills (t : AbstractType) : Returns U buffer t := by
  induction t using AbstractType.induct with
  | boolean name b | uint name extent u | int name extent i | addr name text =>
    intro offset out uses decoded
    obtain ⟨value,_,⟨⟩⟩ := bind_ok.mp decoded
    simp [listsIn]
  | string name content | dynamicBytes name content =>
    intro offset out uses decoded
    obtain ⟨⟨value,use⟩,_,⟨⟩⟩ := bind_ok.mp decoded
    simp [listsIn]
  | fixedBytes name fixedN content =>
    intro offset out uses decoded
    obtain ⟨bytes,_,rfl,_⟩ := decoded_fixedBytes decoded
    simp [listsIn]
  | dynamicList name value ih =>
    intro offset out uses decoded
    obtain ⟨listSize,header,⟨rfl,rfl,_⟩ | ⟨template,others,elements,rfl,looped,rfl⟩⟩ := decoded_dynamicList decoded
    · exact fun value inside => .inl inside
    · rw [fills_list header]
      have loop : deserializeElements (decodeElement U buffer template (offset + 32)) listSize.toNat (cursorAt (offset + 32)) =
        .ok (elements,uses) := looped
      obtain ⟨size,length⟩ := listFills_size loop
      refine List.forall_mem_cons.mpr ⟨.inr (by rw [size,length]; exact List.mem_cons_self),fun value inside => ?_⟩
      rcases elements_returned (ih template List.mem_cons_self) loop value inside with same | filled
      · exact .inl (List.mem_cons_of_mem _ (List.mem_append_left _ same))
      · exact .inr (List.mem_cons_of_mem _ filled)
  | fixedList name dimension value ih =>
    intro offset out uses decoded
    obtain ⟨members,looped,rfl⟩ := decoded_fixedList decoded
    exact members_returned ih looped
  | struct name value ih =>
    intro offset out uses decoded
    obtain ⟨members,looped,rfl⟩ := decoded_struct decoded
    exact members_returned ih looped

end

end CppSdk.ListFills

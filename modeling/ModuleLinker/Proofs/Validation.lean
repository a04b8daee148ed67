import ModuleLinker.Proofs.Image.Closed

/-!
# What validation accepts

A module is *well formed* when every id that it stores stands inside the table it belongs to, and
the declaring types of every type and the scopes of every type reference come to an end. That is
said here entry by entry, in the shape of the entries, and of chains of any length; validation reads
a list of mentions and counts links. The two agree: a chain that ends repeats no entry, so it has no
more links than its table has entries, less one.

The names of types descend along the same chains, so in an accepted module they are found within the
same number of links.
-/

namespace ModuleLinker

/-! ## Ids inside their tables -/

/-- Every id in a signature stands inside its table. -/
inductive TypeSig.InRange (m : Module) : TypeSig → Prop
  | definition {id : TypeId} (h : id.index < m.types.length) : InRange m (.definition id)
  | reference {id : TypeRefId} (h : id.index < m.typeRefs.length) : InRange m (.reference id)
  | array {element : TypeSig} (h : InRange m element) : InRange m (.array element)
  | generic {base : TypeSig} {args : List TypeSig} (hbase : InRange m base)
      (hargs : ∀ arg ∈ args, InRange m arg) : InRange m (.generic base args)

/-- The same for the parameters and the result of a call. -/
def SignatureInRange (m : Module) (params : List TypeSig) (ret : Option TypeSig) : Prop :=
  (∀ sig ∈ params, sig.InRange m) ∧ ∀ sig ∈ ret, sig.InRange m

/-- The same for the operand of an instruction; positions in the body and slots are not ids. -/
def Operand.InRange (m : Module) : Operand → Prop
  | .type sig => sig.InRange m
  | .method (.definition id) => id.index < m.methods.length
  | .method (.reference id) => id.index < m.memberRefs.length
  | .field (.definition id) => id.index < m.fields.length
  | .field (.reference id) => id.index < m.memberRefs.length
  | .signature sig => SignatureInRange m sig.params sig.ret
  | .none | .int32 _ | .int64 _ | .float64 _ | .string _ | .branch _ | .switch _ | .local _
  | .argument _ => True

structure Body.InRange (m : Module) (b : Body) : Prop where
  locals : ∀ sig ∈ b.locals, sig.InRange m
  operands : ∀ i ∈ b.instructions, i.operand.InRange m

structure TypeDef.InRange (m : Module) (t : TypeDef) : Prop where
  declaring : ∀ outer ∈ t.declaring, outer.index < m.types.length
  nested : ∀ inner ∈ t.nested, inner.index < m.types.length
  fields : ∀ id ∈ t.fields, id.index < m.fields.length
  methods : ∀ id ∈ t.methods, id.index < m.methods.length
  base : ∀ sig ∈ t.base, sig.InRange m
  interfaces : ∀ sig ∈ t.interfaces, sig.InRange m

structure MethodDef.InRange (m : Module) (d : MethodDef) : Prop where
  declaring : d.declaring.index < m.types.length
  signature : SignatureInRange m d.params d.ret
  body : ∀ b ∈ d.body, b.InRange m

structure FieldDef.InRange (m : Module) (d : FieldDef) : Prop where
  declaring : d.declaring.index < m.types.length
  fieldType : d.fieldType.InRange m

def Scope.InRange (m : Module) : Scope → Prop
  | .assembly id => id.index < m.assemblyRefs.length
  | .nested outer => outer.index < m.typeRefs.length
  | .local => True

def MemberKind.InRange (m : Module) : MemberKind → Prop
  | .method params ret => SignatureInRange m params ret
  | .field type => type.InRange m

structure MemberRef.InRange (m : Module) (r : MemberRef) : Prop where
  parent : r.parent.InRange m
  kind : r.kind.InRange m

def ExportTarget.InRange (m : Module) : ExportTarget → Prop
  | .assembly id => id.index < m.assemblyRefs.length
  | .declaring outer => outer.index < m.exportedTypes.length
  | .local => True

/-! ## Well-formed modules -/

/-- Every id that an entry stores is in range, and the chains of declaring types and of reference
scopes end. -/
structure Module.WellFormed (m : Module) : Prop where
  types : ∀ t ∈ m.types, t.InRange m
  methods : ∀ d ∈ m.methods, d.InRange m
  fields : ∀ d ∈ m.fields, d.InRange m
  typeRefs : ∀ r ∈ m.typeRefs, r.scope.InRange m
  memberRefs : ∀ r ∈ m.memberRefs, r.InRange m
  exportedTypes : ∀ e ∈ m.exportedTypes, e.implementation.InRange m
  declaring : ∀ i < m.types.length, Chain.Ends (fun t ↦ (m.typeDef t).declaring) ⟨i⟩
  scopes : ∀ i < m.typeRefs.length, Chain.Ends (fun r ↦ (m.typeRef r).scope.outer?) ⟨i⟩

/-- What a fault says of a module is so: the module stores the id, which its table does not have, or
the chain has no end. -/
def Fault.Holds (m : Module) : Fault → Prop
  | .outOfRange mention size =>
    mention ∈ m.mentions ∧ size = m.tableSize mention.table ∧ size ≤ mention.index
  | .declaringCycle type =>
    type < m.types.length ∧ ¬Chain.Ends (fun t ↦ (m.typeDef t).declaring) ⟨type⟩
  | .scopeCycle ref =>
    ref < m.typeRefs.length ∧ ¬Chain.Ends (fun r ↦ (m.typeRef r).scope.outer?) ⟨ref⟩

/-! ## The ids an entry stores

Validation collects the ids of an entry and checks all of them. For each kind of entry, all of its
ids are in their tables exactly if its parts are. -/

variable {m : Module}

mutual

theorem TypeSig.inRange_iff :
    (sig : TypeSig) → (sig.InRange m ↔ ∀ x ∈ sig.ids, m.Has x)
  | .definition id => by
    simp only [TypeSig.ids, List.mem_singleton, forall_eq]
    exact ⟨fun | .definition h => h, .definition⟩
  | .reference id => by
    simp only [TypeSig.ids, List.mem_singleton, forall_eq]
    exact ⟨fun | .reference h => h, .reference⟩
  | .array element => by
    rw [TypeSig.ids, ← TypeSig.inRange_iff element]
    exact ⟨fun | .array h => h, .array⟩
  | .generic base args => by
    rw [TypeSig.ids, List.forall_mem_append, ← TypeSig.inRange_iff base,
      ← TypeSig.forall_inRange_iff args]
    exact ⟨fun | .generic hbase hargs => ⟨hbase, hargs⟩, fun h ↦ .generic h.1 h.2⟩

theorem TypeSig.forall_inRange_iff :
    (sigs : List TypeSig) → ((∀ sig ∈ sigs, sig.InRange m) ↔ ∀ x ∈ TypeSig.idsOf sigs, m.Has x)
  | [] => by simp [TypeSig.idsOf]
  | sig :: rest => by
    rw [TypeSig.idsOf, List.forall_mem_append, ← TypeSig.inRange_iff sig,
      ← TypeSig.forall_inRange_iff rest, List.forall_mem_cons]

end

theorem signatureInRange_iff {params : List TypeSig} {ret : Option TypeSig} :
    SignatureInRange m params ret ↔ ∀ x ∈ signatureIds params ret, m.Has x := by
  rw [signatureIds, ← TypeSig.idsOf_eq_flatMap, ← TypeSig.forall_inRange_iff,
    List.forall_mem_append]
  simp only [SignatureInRange, Option.mem_toList, Option.mem_def]

theorem Operand.inRange_iff (operand : Operand) :
    operand.InRange m ↔ ∀ x ∈ operand.ids, m.Has x := by
  cases operand with
  | type sig => exact sig.inRange_iff
  | signature sig => exact signatureInRange_iff
  | method handle => cases handle <;> simp [InRange, ids, Module.Has, Module.tableSize]
  | field handle => cases handle <;> simp [InRange, ids, Module.Has, Module.tableSize]
  | _ => simp [InRange, ids]

theorem Body.inRange_iff (b : Body) : b.InRange m ↔ ∀ x ∈ b.ids, m.Has x := by
  rw [Body.ids, List.forall_mem_append, ← TypeSig.idsOf_eq_flatMap, ← TypeSig.forall_inRange_iff]
  simp only [List.forall_mem_flatMap, ← Operand.inRange_iff]
  exact ⟨fun h ↦ ⟨h.locals, h.operands⟩, fun h ↦ ⟨h.1, h.2⟩⟩

theorem TypeDef.inRange_iff (t : TypeDef) : t.InRange m ↔ ∀ x ∈ t.ids, m.Has x := by
  simp only [TypeDef.ids, List.forall_mem_append, ← TypeSig.idsOf_eq_flatMap,
    ← TypeSig.forall_inRange_iff, List.forall_mem_map, Option.mem_toList]
  constructor
  · intro h
    exact ⟨⟨⟨⟨h.declaring, h.nested⟩, h.fields⟩, h.methods⟩, h.base, h.interfaces⟩
  · rintro ⟨⟨⟨⟨hdeclaring, hnested⟩, hfields⟩, hmethods⟩, hbase, hinterfaces⟩
    exact ⟨hdeclaring, hnested, hfields, hmethods, hbase, hinterfaces⟩

theorem MethodDef.inRange_iff (d : MethodDef) : d.InRange m ↔ ∀ x ∈ d.ids, m.Has x := by
  have hbody : (∀ b ∈ d.body, b.InRange m) ↔ ∀ x ∈ (d.body.map Body.ids).getD [], m.Has x := by
    cases d.body with
    | none => simp
    | some b => simpa using b.inRange_iff
  rw [MethodDef.ids, List.forall_mem_append, List.forall_mem_cons, ← signatureInRange_iff, ← hbody]
  constructor
  · intro h
    exact ⟨⟨h.declaring, h.signature⟩, h.body⟩
  · rintro ⟨⟨hdeclaring, hsignature⟩, hb⟩
    exact ⟨hdeclaring, hsignature, hb⟩

theorem FieldDef.inRange_iff (d : FieldDef) : d.InRange m ↔ ∀ x ∈ d.ids, m.Has x := by
  rw [FieldDef.ids, List.forall_mem_cons, ← TypeSig.inRange_iff]
  exact ⟨fun h ↦ ⟨h.declaring, h.fieldType⟩, fun h ↦ ⟨h.1, h.2⟩⟩

theorem TypeRef.inRange_iff (r : TypeRef) : r.scope.InRange m ↔ ∀ x ∈ r.ids, m.Has x := by
  unfold TypeRef.ids Scope.InRange
  cases r.scope <;> simp [Module.Has, Module.tableSize]

theorem MemberRef.inRange_iff (r : MemberRef) : r.InRange m ↔ ∀ x ∈ r.ids, m.Has x := by
  obtain ⟨parent, name, kind⟩ := r
  have hparts : MemberRef.InRange m ⟨parent, name, kind⟩ ↔ parent.InRange m ∧ kind.InRange m :=
    ⟨fun h ↦ ⟨h.parent, h.kind⟩, fun h ↦ ⟨h.1, h.2⟩⟩
  rw [hparts, MemberRef.ids, List.forall_mem_append, parent.inRange_iff]
  cases kind with
  | method params ret => rw [MemberKind.InRange, signatureInRange_iff]
  | field type => rw [MemberKind.InRange, type.inRange_iff]

theorem ExportedType.inRange_iff (e : ExportedType) :
    e.implementation.InRange m ↔ ∀ x ∈ e.ids, m.Has x := by
  unfold ExportedType.ids ExportTarget.InRange
  cases e.implementation <;> simp [Module.Has, Module.tableSize]

namespace Module

theorem closed_iff_inRange : m.Closed
    ↔ (∀ t ∈ m.types, t.InRange m) ∧ (∀ d ∈ m.methods, d.InRange m)
      ∧ (∀ d ∈ m.fields, d.InRange m) ∧ (∀ r ∈ m.typeRefs, r.scope.InRange m)
      ∧ (∀ r ∈ m.memberRefs, r.InRange m) ∧ ∀ e ∈ m.exportedTypes, e.implementation.InRange m := by
  simp only [TypeDef.inRange_iff, MethodDef.inRange_iff, FieldDef.inRange_iff, TypeRef.inRange_iff,
    MemberRef.inRange_iff, ExportedType.inRange_iff]
  exact ⟨fun h ↦ ⟨h.types, h.methods, h.fields, h.typeRefs, h.memberRefs, h.exportedTypes⟩,
    fun ⟨h₁, h₂, h₃, h₄, h₅, h₆⟩ ↦ ⟨h₁, h₂, h₃, h₄, h₅, h₆⟩⟩

/-! ## Chains within a table

Validation follows links for as many steps as the table has entries. If a chain has not ended by
then, it never does, since it would have to repeat an entry. -/

/-- The ids of the type references, in table order. -/
def typeRefIds (m : Module) : List TypeRefId := (List.range m.typeRefs.length).map TypeRefId.mk

@[simp] theorem mem_typeRefIds {id : TypeRefId} :
    id ∈ m.typeRefIds ↔ id.index < m.typeRefs.length := by
  cases id
  simp [typeRefIds]

section Closed

variable (h : m.Closed)
include h

theorem Closed.declaring_mem {t : TypeId} (ht : t ∈ m.typeIds) :
    ∀ outer, (m.typeDef t).declaring = some outer → outer ∈ m.typeIds := by
  have hrange := (TypeDef.inRange_iff _).mpr (h.types _ (typeDef_mem (mem_typeIds.mp ht)))
  exact fun outer houter ↦ mem_typeIds.mpr (hrange.declaring outer houter)

theorem Closed.outer_mem {r : TypeRefId} (hr : r ∈ m.typeRefIds) :
    ∀ outer, (m.typeRef r).scope.outer? = some outer → outer ∈ m.typeRefIds := by
  intro outer houter
  have hscope := (TypeRef.inRange_iff _).mpr (h.typeRefs _ (typeRef_mem (mem_typeRefIds.mp hr)))
  cases hs : (m.typeRef r).scope with
  | nested o =>
    obtain rfl : o = outer := by simpa [hs, Scope.outer?] using houter
    rw [hs] at hscope
    exact mem_typeRefIds.mpr hscope
  | assembly _ | «local» => simp [hs, Scope.outer?] at houter

theorem Closed.declaring_ends_iff {i : Nat} (hi : i < m.types.length) :
    Chain.Ends (fun t ↦ (m.typeDef t).declaring) ⟨i⟩
      ↔ Chain.endsWithin (fun t : TypeId ↦ (m.typeDef t).declaring) m.types.length ⟨i⟩ = true :=
  Chain.ends_iff_endsWithin (by simp [typeIds]) (fun _ ↦ h.declaring_mem) (mem_typeIds.mpr hi)

theorem Closed.scope_ends_iff {i : Nat} (hi : i < m.typeRefs.length) :
    Chain.Ends (fun r ↦ (m.typeRef r).scope.outer?) ⟨i⟩
      ↔ Chain.endsWithin (fun r : TypeRefId ↦ (m.typeRef r).scope.outer?) m.typeRefs.length ⟨i⟩
        = true :=
  Chain.ends_iff_endsWithin (by simp [typeRefIds]) (fun _ ↦ h.outer_mem) (mem_typeRefIds.mpr hi)

end Closed

theorem fault?_eq_none_iff_wellFormed : m.fault? = none ↔ m.WellFormed := by
  rw [fault?_eq_none_iff]
  constructor
  · rintro ⟨hclosed, hdeclaring, hscopes⟩
    obtain ⟨htypes, hmethods, hfields, htypeRefs, hmemberRefs, hexports⟩ :=
      closed_iff_inRange.mp hclosed
    exact ⟨htypes, hmethods, hfields, htypeRefs, hmemberRefs, hexports,
      fun i hi ↦ (hclosed.declaring_ends_iff hi).mpr (hdeclaring i hi),
      fun i hi ↦ (hclosed.scope_ends_iff hi).mpr (hscopes i hi)⟩
  · intro h
    have hclosed : m.Closed := closed_iff_inRange.mpr
      ⟨h.types, h.methods, h.fields, h.typeRefs, h.memberRefs, h.exportedTypes⟩
    exact ⟨hclosed, fun i hi ↦ (hclosed.declaring_ends_iff hi).mp (h.declaring i hi),
      fun i hi ↦ (hclosed.scope_ends_iff hi).mp (h.scopes i hi)⟩

theorem holds_of_fault? {fault : Fault} (h : m.fault? = some fault) : fault.Holds m := by
  unfold fault? at h
  cases hmention : m.mentions.find? fun r ↦ !decide (r.index < m.tableSize r.table) with
  | some mention =>
    rw [hmention] at h
    cases h
    have hout := List.find?_some hmention
    exact ⟨List.mem_of_find?_eq_some hmention, rfl, by simpa using hout⟩
  | none =>
    have hclosed : m.Closed := by
      refine closed_iff_forall_mentions.mpr fun x hx ↦ ?_
      simpa using List.find?_eq_none.mp hmention x hx
    rw [hmention] at h
    cases htype : m.declaringCycle? with
    | some i =>
      rw [htype] at h
      cases h
      have hi := List.mem_range.mp (List.mem_of_find?_eq_some htype)
      refine ⟨hi, fun hends ↦ ?_⟩
      have hcycle := List.find?_some htype
      simp [(hclosed.declaring_ends_iff hi).mp hends] at hcycle
    | none =>
      rw [htype] at h
      obtain ⟨i, href, rfl⟩ := Option.map_eq_some_iff.mp h
      have hi := List.mem_range.mp (List.mem_of_find?_eq_some href)
      refine ⟨hi, fun hends ↦ ?_⟩
      have hcycle := List.find?_some href
      simp [(hclosed.scope_ends_iff hi).mp hends] at hcycle

end Module

/-! ## Names found along a chain

A name is put together from the entries of a chain. There are no more of them than the table has,
so the number of links is one less at most. -/

/-- The name of an entry, found by descending a number of links at most: an entry without a link has
its own name, any other the name of the entry that it is linked to and its own behind it. -/
def nameWithin {α : Type} (next : α → Option α) (label : α → String × String) :
    (links : Nat) → α → Option String
  | links, a =>
    match next a, links with
    | none, _ => some (joinNamespace (label a).1 (label a).2)
    | some _, 0 => none
    | some b, links + 1 =>
      (nameWithin next label links b).map fun outer ↦ outer ++ "/" ++ (label a).2

theorem nameWithin_of_complete {α : Type} {next : α → Option α} {label : α → String × String}
    {n : Nat} {a : α} {rest : List α} (h : Chain.Complete next (a :: rest))
    (hlen : rest.length ≤ n) :
    nameWithin next label n a = some (chainName ((a :: rest).map label)) := by
  induction n generalizing a rest with
  | zero =>
    obtain rfl := List.length_eq_zero_iff.mp (Nat.le_zero.mp hlen)
    cases h with
    | last hn => simp [nameWithin, hn, chainName]
  | succ n ih =>
    cases h with
    | last hn => simp [nameWithin, hn, chainName]
    | link hn hrest =>
      have houter := ih hrest (Nat.le_of_succ_le_succ hlen)
      simp [nameWithin, hn, houter, chainName_cons_cons]

/-- In a table that links do not leave, a chain that ends gives its name within one link less than
the table has entries. -/
theorem nameWithin_eq_chainName {α : Type} {next : α → Option α} {label : α → String × String}
    {table : List α} {n : Nat} (hn : table.length = n)
    (hnext : ∀ a ∈ table, ∀ b, next a = some b → b ∈ table) {a : α} (ha : a ∈ table)
    (h : Chain.Complete next (Chain.follow next n a)) :
    nameWithin next label (n - 1) a = some (chainName ((Chain.follow next n a).map label)) := by
  obtain ⟨rest, hrest⟩ := Chain.follow_eq_cons next n a
  rw [hrest] at h ⊢
  have hlen := h.length_le hnext ha
  rw [List.length_cons] at hlen
  exact nameWithin_of_complete h (by omega)

namespace Module

/-- Qualified name of a type, found by descending a number of declaring links at most. -/
def qualifiedNameWithin (m : Module) (links : Nat) (id : TypeId) : Option String :=
  nameWithin (fun t ↦ (m.typeDef t).declaring)
    (fun t ↦ ((m.typeDef t).nspace, (m.typeDef t).name)) links id

/-- Qualified name of a type reference, found by descending a number of scopes at most. -/
def typeRefNameWithin (m : Module) (links : Nat) (id : TypeRefId) : Option String :=
  nameWithin (fun r ↦ (m.typeRef r).scope.outer?)
    (fun r ↦ ((m.typeRef r).nspace, (m.typeRef r).name)) links id

/-! ## Validation -/

/-- Validation accepts exactly the well-formed modules. Any other is refused as malformed, for a
fault that it has, and an accepted module names its types and references by descending one link
less than its table has entries, at most. -/
theorem validate_iff_wellFormed (m : Module) :
    (m.validate = .ok () ↔ m.WellFormed)
      ∧ (¬m.WellFormed ↔ ∃ fault, m.validate = .error (.malformedModule m.name fault)
          ∧ fault.Holds m)
      ∧ (m.validate = .ok () →
          (∀ t ∈ m.typeIds,
            m.qualifiedNameWithin (m.types.length - 1) t = some (m.qualifiedName t))
          ∧ ∀ r ∈ m.typeRefIds,
            m.typeRefNameWithin (m.typeRefs.length - 1) r = some (m.typeRefName r)) := by
  have haccepts : m.validate = .ok () ↔ m.WellFormed := by
    rw [validate_eq_ok_iff, fault?_eq_none_iff_wellFormed]
  refine ⟨haccepts, ⟨fun hnot ↦ ?_, ?_⟩, fun hok ↦ ?_⟩
  · cases hfault : m.fault? with
    | none => exact absurd (fault?_eq_none_iff_wellFormed.mp hfault) hnot
    | some fault => exact ⟨fault, by simp [validate, hfault], holds_of_fault? hfault⟩
  · rintro ⟨fault, herror, -⟩ hwell
    rw [haccepts.mpr hwell] at herror
    cases herror
  · have hnone := validate_eq_ok_iff.mp hok
    have hclosed := closed_of_accepted hnone
    exact ⟨fun t ht ↦ nameWithin_eq_chainName (by simp [typeIds]) (fun _ ↦ hclosed.declaring_mem) ht
        (complete_declaringChain hnone t),
      fun r hr ↦ nameWithin_eq_chainName (by simp [typeRefIds]) (fun _ ↦ hclosed.outer_mem) hr
        (complete_scopeChain hnone r)⟩

/-! ## The longest chains -/

/-- Three types, each nested in the next, and two references, one nested in the other. -/
def nest : Module where
  name := "Lib"
  types := [
    { name := "Inner", declaring := some ⟨1⟩ },
    { name := "Middle", declaring := some ⟨2⟩, nested := [⟨0⟩] },
    { nspace := "Lib", name := "Outer", nested := [⟨1⟩] }]
  typeRefs := [
    { scope := .nested ⟨1⟩, nspace := "", name := "Entry" },
    { scope := .assembly ⟨0⟩, nspace := "System", name := "Table" }]
  assemblyRefs := [{ name := "System", version := {} }]

/-- Chains through the whole table are accepted, and no name takes more links than there are. -/
theorem validate_nest :
    nest.validate = .ok () ∧ nest.WellFormed
      ∧ nest.qualifiedNameWithin 2 ⟨0⟩ = some "Lib.Outer/Middle/Inner"
      ∧ nest.qualifiedNameWithin 1 ⟨0⟩ = none
      ∧ nest.typeRefNameWithin 1 ⟨0⟩ = some "System.Table/Entry" := by
  have hok : nest.validate = .ok () := by decide +kernel
  obtain ⟨haccepts, -, hnames⟩ := validate_iff_wellFormed nest
  obtain ⟨htypes, hrefs⟩ := hnames hok
  refine ⟨hok, haccepts.mp hok, ?_, by decide +kernel, ?_⟩
  · exact (htypes ⟨0⟩ (by decide)).trans (by decide +kernel)
  · exact (hrefs ⟨0⟩ (by decide)).trans (by decide +kernel)

/-- A circle is refused from outside too: the first type is in none, but comes to one. -/
example : Module.validate
    { name := "Lib"
      types := [{ name := "A", declaring := some ⟨1⟩ }, { name := "B", declaring := some ⟨2⟩ },
        { name := "C", declaring := some ⟨1⟩ }] }
      = .error (.malformedModule "Lib" (.declaringCycle 0)) := by
  decide +kernel

end Module

end ModuleLinker

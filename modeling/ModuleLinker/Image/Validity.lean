import ModuleLinker.Chain
import ModuleLinker.Image.Names

/-!
# Well-formed modules

Everything else in the library follows ids into tables without looking back, so a module is accepted
only when every id it stores stands inside its table and every chain of declaring types and of
reference scopes ends.

Ids are collected as *mentions*, in the order in which the tables and their entries store them; the
first mention that leaves its table is the fault that is reported. Chains are looked at only when no
mention is at fault. Circles among exported types are accepted here: following a forwarder reports
them.
-/

namespace ModuleLinker

/-- The tables of a module. -/
inductive TableKind
  | type
  | method
  | field
  | typeRef
  | memberRef
  | assemblyRef
  | exportedType
deriving DecidableEq, Inhabited

/-- What an entry of a table is called in diagnostics. -/
def TableKind.noun : TableKind → String
  | .type => "type"
  | .method => "method"
  | .field => "field"
  | .typeRef => "type reference"
  | .memberRef => "member reference"
  | .assemblyRef => "assembly reference"
  | .exportedType => "exported type"

/-- An entry of a table. -/
structure Site where
  table : TableKind
  index : Nat
deriving DecidableEq, Inhabited

def Site.text (s : Site) : String := s.table.noun ++ " #" ++ toString s.index

/-- An id that an entry stores. -/
structure Mention where
  /-- The entry that stores the id. -/
  site : Site
  /-- The table the id belongs to. -/
  table : TableKind
  index : Nat
deriving DecidableEq, Inhabited

/-- Why a module is not well formed. -/
inductive Fault
  /-- A mention of an entry that its table, of the given size, does not have. -/
  | outOfRange (mention : Mention) (size : Nat)
  /-- A type whose declaring types never end. -/
  | declaringCycle (type : Nat)
  /-- A type reference whose scopes never end. -/
  | scopeCycle (typeRef : Nat)
deriving DecidableEq, Inhabited

def Fault.text : Fault → String
  | .outOfRange mention size =>
    mention.site.text ++ " refers to " ++ mention.table.noun ++ " " ++ toString mention.index
      ++ ", but only " ++ toString size ++ " exist"
  | .declaringCycle type => "declaring types of " ++ Site.text ⟨.type, type⟩ ++ " form a cycle"
  | .scopeCycle ref => "declaring references of " ++ Site.text ⟨.typeRef, ref⟩ ++ " form a cycle"

/-! ## The ids an entry stores -/

mutual

/-- The ids in a signature, from left to right. -/
def TypeSig.ids : TypeSig → List (TableKind × Nat)
  | .definition id => [(.type, id.index)]
  | .reference id => [(.typeRef, id.index)]
  | .array element => element.ids
  | .generic base args => base.ids ++ TypeSig.idsOf args

/-- The ids in several signatures. -/
def TypeSig.idsOf : List TypeSig → List (TableKind × Nat)
  | [] => []
  | sig :: rest => sig.ids ++ TypeSig.idsOf rest

end

theorem TypeSig.idsOf_eq_flatMap (sigs : List TypeSig) :
    TypeSig.idsOf sigs = sigs.flatMap TypeSig.ids := by
  induction sigs with
  | nil => rfl
  | cons sig rest ih => simp [TypeSig.idsOf, ih]

/-- The ids in a parameter list and a return type. -/
def signatureIds (params : List TypeSig) (ret : Option TypeSig) : List (TableKind × Nat) :=
  (params ++ ret.toList).flatMap TypeSig.ids

def Operand.ids : Operand → List (TableKind × Nat)
  | .type sig => sig.ids
  | .method (.definition id) => [(.method, id.index)]
  | .method (.reference id) => [(.memberRef, id.index)]
  | .field (.definition id) => [(.field, id.index)]
  | .field (.reference id) => [(.memberRef, id.index)]
  | .signature sig => signatureIds sig.params sig.ret
  | _ => []

def Body.ids (b : Body) : List (TableKind × Nat) :=
  b.locals.flatMap TypeSig.ids ++ b.instructions.flatMap fun i ↦ i.operand.ids

def TypeDef.ids (t : TypeDef) : List (TableKind × Nat) :=
  t.declaring.toList.map (fun id ↦ (.type, id.index))
    ++ t.nested.map (fun id ↦ (.type, id.index))
    ++ t.fields.map (fun id ↦ (.field, id.index))
    ++ t.methods.map (fun id ↦ (.method, id.index))
    ++ (t.base.toList ++ t.interfaces).flatMap TypeSig.ids

def MethodDef.ids (d : MethodDef) : List (TableKind × Nat) :=
  (.type, d.declaring.index) :: signatureIds d.params d.ret
    ++ (d.body.map Body.ids).getD []

def FieldDef.ids (d : FieldDef) : List (TableKind × Nat) :=
  (.type, d.declaring.index) :: d.fieldType.ids

def TypeRef.ids (r : TypeRef) : List (TableKind × Nat) :=
  match r.scope with
  | .assembly id => [(.assemblyRef, id.index)]
  | .nested outer => [(.typeRef, outer.index)]
  | .local => []

def MemberRef.ids (r : MemberRef) : List (TableKind × Nat) :=
  r.parent.ids ++ match r.kind with
    | .method params ret => signatureIds params ret
    | .field type => type.ids

def ExportedType.ids (e : ExportedType) : List (TableKind × Nat) :=
  match e.implementation with
  | .assembly id => [(.assemblyRef, id.index)]
  | .declaring outer => [(.exportedType, outer.index)]
  | .local => []

/-! ## Validation -/

/-- The mentions of one table, entry by entry. -/
def mentionsOf {α : Type} (table : TableKind) (ids : α → List (TableKind × Nat))
    (entries : List α) : List Mention :=
  entries.zipIdx.flatMap fun (entry, i) ↦ (ids entry).map fun (t, index) ↦ ⟨⟨table, i⟩, t, index⟩

namespace Module

/-- The number of entries of a table. -/
def tableSize (m : Module) : TableKind → Nat
  | .type => m.types.length
  | .method => m.methods.length
  | .field => m.fields.length
  | .typeRef => m.typeRefs.length
  | .memberRef => m.memberRefs.length
  | .assemblyRef => m.assemblyRefs.length
  | .exportedType => m.exportedTypes.length

/-- Every id the module stores, in storage order. -/
def mentions (m : Module) : List Mention :=
  mentionsOf .type TypeDef.ids m.types
    ++ mentionsOf .method MethodDef.ids m.methods
    ++ mentionsOf .field FieldDef.ids m.fields
    ++ mentionsOf .typeRef TypeRef.ids m.typeRefs
    ++ mentionsOf .memberRef MemberRef.ids m.memberRefs
    ++ mentionsOf .exportedType ExportedType.ids m.exportedTypes

/-- The first type whose declaring types never end. -/
def declaringCycle? (m : Module) : Option Nat :=
  (List.range m.types.length).find? fun i ↦
    !Chain.endsWithin (fun t : TypeId ↦ (m.typeDef t).declaring) m.types.length ⟨i⟩

/-- The first type reference whose scopes never end. -/
def scopeCycle? (m : Module) : Option Nat :=
  (List.range m.typeRefs.length).find? fun i ↦
    !Chain.endsWithin (fun r : TypeRefId ↦ (m.typeRef r).scope.outer?) m.typeRefs.length ⟨i⟩

/-- The first fault of a module, if it has one. -/
def fault? (m : Module) : Option Fault :=
  match m.mentions.find? fun r ↦ !decide (r.index < m.tableSize r.table) with
  | some mention => some (.outOfRange mention (m.tableSize mention.table))
  | none =>
    match m.declaringCycle? with
    | some i => some (.declaringCycle i)
    | none => m.scopeCycle?.map .scopeCycle

end Module

end ModuleLinker

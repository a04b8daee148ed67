import ModuleLinker.Registry
import ModuleLinker.Report

/-!
# The symbol map

The map says what became of every symbol of every input module. It is written while a link runs and
read by every later stage. The first entry of a symbol stays, so the order in which modules are
imported is the order in which they take precedence.

Besides the counterparts the map remembers origins: which input types share a type of the output,
which module a method came from, and which module each stretch of a folded routine came from.
-/

namespace ModuleLinker

/-- A symbol of an input module. -/
inductive Symbol
  | type (id : TypeId)
  | method (id : MethodId)
  | field (id : FieldId)
  | typeRef (id : TypeRefId)
  | memberRef (id : MemberRefId)
  /-- An exported type, by its qualified name. -/
  | «export» (qualified : String)
deriving DecidableEq

/-- What a symbol became in the output. -/
inductive Counterpart
  | type (sig : TypeSig)
  | method (handle : MethodHandle)
  | field (handle : FieldHandle)
deriving DecidableEq

/-- The method that a symbol became, if it became one. -/
def Counterpart.method? : Counterpart → Option MethodHandle
  | .method handle => some handle
  | _ => none

/-- The field that a symbol became, if it became one. -/
def Counterpart.field? : Counterpart → Option FieldHandle
  | .field handle => some handle
  | _ => none

/-- A stretch of instructions, from a first position up to but without a last one, and the module it
was copied from. -/
structure Block where
  first : Nat
  last : Nat
  origin : ModuleId
deriving DecidableEq

/-- What became of the symbols of the input modules. -/
structure SymbolMap where
  entries : Table (ModuleId × Symbol) Counterpart := {}
  /-- For each type of the output the input types mapped onto it, the earliest first. -/
  sources : Table TypeId (List (ModuleId × TypeId)) := {}
  /-- For each method of the output the module whose definition made it. -/
  methodOrigins : Table MethodId ModuleId := {}
  /-- For each method of the output the blocks copied into it. -/
  blocks : Table MethodId (List Block) := {}
  /-- Exports that lead to a type of the output. -/
  resolved : List (ModuleId × String) := []
  /-- Initializers that were folded into the output's. -/
  folded : List (ModuleId × MethodId) := []
deriving DecidableEq

namespace SymbolMap

/-! ## Counterparts -/

/-- Enter the counterpart of a symbol that has none yet. -/
def record (s : SymbolMap) (m : ModuleId) (symbol : Symbol) (c : Counterpart) : SymbolMap :=
  { s with entries := s.entries.insertNew (m, symbol) c }

def find? (s : SymbolMap) (m : ModuleId) (symbol : Symbol) : Option Counterpart :=
  s.entries.find? (m, symbol)

def contains (s : SymbolMap) (m : ModuleId) (symbol : Symbol) : Bool :=
  s.entries.contains (m, symbol)

/-- The type of the output that a type became. -/
def typeOf? (s : SymbolMap) (m : ModuleId) (id : TypeId) : Option TypeId :=
  match s.find? m (.type id) with
  | some (.type (.definition target)) => some target
  | _ => none

def typeRefOf? (s : SymbolMap) (m : ModuleId) (id : TypeRefId) : Option TypeSig :=
  match s.find? m (.typeRef id) with
  | some (.type sig) => some sig
  | _ => none

def methodOf? (s : SymbolMap) (m : ModuleId) (id : MethodId) : Option MethodHandle :=
  match s.find? m (.method id) with
  | some (.method handle) => some handle
  | _ => none

def fieldOf? (s : SymbolMap) (m : ModuleId) (id : FieldId) : Option FieldHandle :=
  match s.find? m (.field id) with
  | some (.field handle) => some handle
  | _ => none

def memberRefOf? (s : SymbolMap) (m : ModuleId) (id : MemberRefId) : Option Counterpart :=
  s.find? m (.memberRef id)

/-- Where an exported name of a module leads. -/
def exportOf? (s : SymbolMap) (m : ModuleId) (qualified : String) : Option TypeSig :=
  match s.find? m (.export qualified) with
  | some (.type sig) => some sig
  | _ => none

theorem find?_record (s : SymbolMap) (m m' : ModuleId) (symbol symbol' : Symbol)
    (c : Counterpart) :
    (s.record m symbol c).find? m' symbol'
      = if (m', symbol') = (m, symbol) then some ((s.find? m symbol).getD c)
        else s.find? m' symbol' :=
  Table.find?_insertNew s.entries (m, symbol) (m', symbol') c

theorem contains_record (s : SymbolMap) (m m' : ModuleId) (symbol symbol' : Symbol)
    (c : Counterpart) :
    (s.record m symbol c).contains m' symbol'
      = (decide ((m', symbol') = (m, symbol)) || s.contains m' symbol') :=
  Table.contains_insertNew s.entries (m, symbol) (m', symbol') c

/-! ## Origins of types -/

/-- The input types mapped onto a type of the output, the earliest first. -/
def sourcesOf (s : SymbolMap) (target : TypeId) : List (ModuleId × TypeId) :=
  (s.sources.find? target).getD []

/-- Remember that an input type was mapped onto a type of the output. -/
def recordSource (s : SymbolMap) (target : TypeId) (m : ModuleId) (id : TypeId) : SymbolMap :=
  let known := s.sourcesOf target
  let sources := if (m, id) ∈ known then known else known ++ [(m, id)]
  { s with sources := s.sources.insert target sources }

/-- The module whose declaration made a type of the output. -/
def typeOrigin? (s : SymbolMap) (target : TypeId) : Option ModuleId :=
  (s.sourcesOf target).head?.map Prod.fst

/-! ## Origins of methods and instructions -/

/-- Remember which module's definition made a method of the output. -/
def recordMethodOrigin (s : SymbolMap) (target : MethodId) (m : ModuleId) : SymbolMap :=
  { s with methodOrigins := s.methodOrigins.insertNew target m }

def methodOrigin? (s : SymbolMap) (target : MethodId) : Option ModuleId :=
  s.methodOrigins.find? target

def blocksOf (s : SymbolMap) (target : MethodId) : List Block := (s.blocks.find? target).getD []

/-- Remember where a block of a method of the output came from. -/
def recordBlock (s : SymbolMap) (target : MethodId) (b : Block) : SymbolMap :=
  { s with blocks := s.blocks.insert target (s.blocksOf target ++ [b]) }

/-- The module that the instruction at a position was copied from, if it lies in a block. -/
def blockOrigin? (s : SymbolMap) (target : MethodId) (position : Nat) : Option ModuleId :=
  ((s.blocksOf target).find? fun b ↦ b.first ≤ position && position < b.last).map Block.origin

/-! ## Exports and initializers -/

def markResolved (s : SymbolMap) (m : ModuleId) (qualified : String) : SymbolMap :=
  { s with resolved := s.resolved.insert (m, qualified) }

def isResolved (s : SymbolMap) (m : ModuleId) (qualified : String) : Bool :=
  s.resolved.contains (m, qualified)

def markFolded (s : SymbolMap) (m : ModuleId) (id : MethodId) : SymbolMap :=
  { s with folded := s.folded.insert (m, id) }

def isFolded (s : SymbolMap) (m : ModuleId) (id : MethodId) : Bool := s.folded.contains (m, id)

/-! ## Counts -/

/-- How many symbols of each kind have a counterpart. -/
def counts (s : SymbolMap) : Counts :=
  let count (p : Symbol → Bool) : Nat := s.entries.keys.countP fun k ↦ p k.2
  { types := count fun | .type _ => true | _ => false
    methods := count fun | .method _ => true | _ => false
    fields := count fun | .field _ => true | _ => false
    typeRefs := count fun | .typeRef _ => true | _ => false
    memberRefs := count fun | .memberRef _ => true | _ => false
    exports := count fun | .export _ => true | _ => false
    resolvedExports := s.resolved.length }

end SymbolMap

end ModuleLinker

/-!
# Identifiers and attributes of a module image

A module image keeps its definitions and references in flat tables. Entries name one another by
their position in a table, and each table has its own type of position, so that a method cannot be
looked up by the position of a field.

Positions are numbers without a bound here. An image stores them in 32 bits, so what is said of
tables is meant of tables with fewer than 2³² entries, and nothing longer fits into memory.
-/

namespace ModuleLinker

/-! ## Positions -/

/-- Position of a type definition in its module. -/
structure TypeId where
  index : Nat
deriving DecidableEq, Inhabited

/-- Position of a method definition in its module. -/
structure MethodId where
  index : Nat
deriving DecidableEq, Inhabited

/-- Position of a field definition in its module. -/
structure FieldId where
  index : Nat
deriving DecidableEq, Inhabited

/-- Position of a reference to a type defined elsewhere. -/
structure TypeRefId where
  index : Nat
deriving DecidableEq, Inhabited

/-- Position of a reference to a member defined elsewhere. -/
structure MemberRefId where
  index : Nat
deriving DecidableEq, Inhabited

/-- Position of a reference to another module. -/
structure AssemblyRefId where
  index : Nat
deriving DecidableEq, Inhabited

/-- Position of an exported type. -/
structure ExportId where
  index : Nat
deriving DecidableEq, Inhabited

/-! ## Versions -/

/-- A four-part module version. -/
structure Version where
  major : UInt16 := 0
  minor : UInt16 := 0
  build : UInt16 := 0
  revision : UInt16 := 0
deriving DecidableEq, Inhabited

namespace Version

/-- The parts as the digits of one number in base 2¹⁶, most significant first. -/
def weight (v : Version) : Nat :=
  ((v.major.toNat * 65536 + v.minor.toNat) * 65536 + v.build.toNat) * 65536 + v.revision.toNat

/-- Versions compare part by part, as their weights do: a part is less than the base. -/
instance : LT Version := ⟨fun v w ↦ v.weight < w.weight⟩

instance (v w : Version) : Decidable (v < w) := inferInstanceAs (Decidable (v.weight < w.weight))

instance : LE Version := ⟨fun v w ↦ v.weight ≤ w.weight⟩

instance (v w : Version) : Decidable (v ≤ w) := inferInstanceAs (Decidable (v.weight ≤ w.weight))

theorem le_refl (v : Version) : v ≤ v := Nat.le_refl _

theorem le_trans {u v w : Version} (h : u ≤ v) (h' : v ≤ w) : u ≤ w := Nat.le_trans h h'

/-- The parts in decimal, separated by points. -/
def text (v : Version) : String :=
  ".".intercalate ([v.major, v.minor, v.build, v.revision].map fun part ↦ toString part.toNat)

/-- The higher of two versions. -/
def highest (v w : Version) : Version := if v < w then w else v

theorem highest_eq_or (v w : Version) : v.highest w = v ∨ v.highest w = w := by
  unfold highest
  split
  · exact .inr rfl
  · exact .inl rfl

theorem le_highest_left (v w : Version) : v ≤ v.highest w := by
  unfold highest
  split
  · next h => exact Nat.le_of_lt h
  · exact le_refl v

theorem le_highest_right (v w : Version) : w ≤ v.highest w := by
  unfold highest
  split
  · exact le_refl w
  · next h => exact Nat.le_of_not_lt h

end Version

/-! ## Attributes -/

/-- What a module is loaded as. -/
inductive ModuleKind
  | library
  | console
  | windows
deriving DecidableEq, Inhabited

/-- Visibility of a type definition. -/
inductive Visibility
  /-- Top-level, visible inside its module only. -/
  | notPublic
  /-- Top-level, visible to every consumer. -/
  | «public»
  | nestedPublic
  | nestedPrivate
  | nestedFamily
  | nestedAssembly
  | nestedFamilyOrAssembly
  | nestedFamilyAndAssembly
deriving DecidableEq, Inhabited

namespace Visibility

/-- Whether consumers outside the module can see the type. -/
def isPublic : Visibility → Bool
  | .public | .nestedPublic => true
  | _ => false

/-- The visibility of a hidden type. Only public visibilities change. -/
def internalized : Visibility → Visibility
  | .public => .notPublic
  | .nestedPublic => .nestedAssembly
  | other => other

@[simp] theorem isPublic_internalized (v : Visibility) : v.internalized.isPublic = false := by
  cases v <;> rfl

end Visibility

/-- Accessibility of a field or method. -/
inductive Access
  | «private»
  | familyAndAssembly
  | assembly
  | family
  | familyOrAssembly
  | «public»
deriving DecidableEq, Inhabited

end ModuleLinker

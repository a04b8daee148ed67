import ModuleLinker.Proofs.Finished
import ModuleLinker.Proofs.Import.Makers
import ModuleLinker.Proofs.Import.Named

/-!
# The types of fields

A field of the output has the type of the field that it was made for. Other fields and references
are mapped onto it by name alone, whatever types they have. So fields keep their types exactly when
those that meet agree: the map makes the same of the types of any two that are mapped onto one
field.
-/

namespace ModuleLinker

/-- The type that a module gives to a field that it uses: that of its own field, or the one that its
reference asks for. -/
def Module.fieldTypeOf? (m : Module) : FieldHandle → Option TypeSig
  | .definition id => some (m.field id).fieldType
  | .reference id =>
    match (m.memberRef id).kind with
    | .field type => some type
    | .method _ _ => none

namespace ImportState

/-- Fields of the output have the types of the fields and references that are mapped onto them. -/
def KeepsFieldTypes (s : ImportState) (ctx : Context) : Prop :=
  ∀ m handle type g, (ctx.module m).fieldTypeOf? handle = some type →
    s.map.remapField? m handle = some (.definition g) →
    s.map.remapSig? m type = some (Module.field s.target g).fieldType

/-- The map makes the same of the types of any two that are mapped onto one field. -/
def FieldsAgree (s : ImportState) (ctx : Context) : Prop :=
  ∀ m l handle handle' type type' g, (ctx.module m).fieldTypeOf? handle = some type →
    (ctx.module l).fieldTypeOf? handle' = some type' →
    s.map.remapField? m handle = some (.definition g) →
    s.map.remapField? l handle' = some (.definition g) →
    s.map.remapSig? m type = s.map.remapSig? l type'

/-- Which fields meet, and which types they end up with. -/
structure TypesByMakers (s : ImportState) (ctx : Context) : Prop where
  /-- A field of the output was made for a field of an input and has the type of that one. -/
  makers : ∀ g ∈ Module.fieldIds s.target, ∃ m id, s.FieldMaker ctx m id g
  /-- Two fields meet exactly when they have one name and their types share a place. -/
  meet : ∀ {m l id id' g g'}, s.map.fieldOf? m id = some (.definition g) →
    s.map.fieldOf? l id' = some (.definition g') →
    (g = g' ↔ ((ctx.module m).field id).name = ((ctx.module l).field id').name
      ∧ (Module.field s.target g).declaring = (Module.field s.target g').declaring)
  /-- References lead to fields of their names. -/
  named : ∀ {m id g}, s.map.remapField? m (.reference id) = some (.definition g) →
    (Module.field s.target g).name = ((ctx.module m).memberRef id).name
  /-- Types are kept exactly where those that meet agree. -/
  kept : s.KeepsFieldTypes ctx ↔ s.FieldsAgree ctx

variable {s s₁ : ImportState} {ctx : Context}

/-- Where every field has a maker, types are kept exactly when those that meet agree: they all agree
with the maker, which has the type. -/
theorem keepsFieldTypes_iff (hs : s.Sound ctx)
    (hmakers : ∀ g ∈ Module.fieldIds s.target, ∃ m id, s.FieldMaker ctx m id g) :
    s.KeepsFieldTypes ctx ↔ s.FieldsAgree ctx := by
  constructor
  · intro hkeeps m l handle handle' type type' g htype htype' hg hg'
    exact (hkeeps m handle type g htype hg).trans (hkeeps l handle' type' g htype' hg').symm
  · intro hagree m handle type g htype hg
    have hin : g ∈ Module.fieldIds s.target :=
      Module.mem_fieldIds.mpr (hs.has_of_brings
        (SymbolMap.brings_of_find? (SymbolMap.remapField?_eq_some.mp hg) _ (.head _)))
    obtain ⟨l, id, hmaker⟩ := hmakers g hin
    have hsame : s.map.remapSig? m type = s.map.remapSig? l ((ctx.module l).field id).fieldType :=
      hagree m l handle (.definition id) type _ g htype rfl hg hmaker.entry
    exact hsame.trans hmaker.type

/-- Two fields that were mapped while types were imported meet exactly when they have one name and
their types share a place. -/
theorem meet_iff (h : s₁.Faithful ctx) (hmade : s₁.MembersMade ctx) (hlate : s₁.LateFrame s)
    {m l : ModuleId} {id id' g g' : FieldId} (hg : s.map.fieldOf? m id = some (.definition g))
    (hg' : s.map.fieldOf? l id' = some (.definition g')) :
    g = g' ↔ ((ctx.module m).field id).name = ((ctx.module l).field id').name
      ∧ (Module.field s.target g).declaring = (Module.field s.target g').declaring := by
  have hsame : ∀ g, Module.field s.target g = Module.field s₁.target g :=
    Module.field_congr hlate.fields
  rw [hlate.fieldEntries] at hg hg'
  obtain ⟨_, o, t, heq, himage⟩ := h.fields hg
  cases heq
  obtain ⟨_, o', t', heq, himage'⟩ := h.fields hg'
  cases heq
  rw [hsame, hsame, ← himage.name, ← himage'.name]
  constructor
  · rintro rfl
    exact ⟨rfl, rfl⟩
  · rintro ⟨hname, howner⟩
    exact hmade.fields g g' himage.inRange himage'.inRange howner hname

theorem RefsNamed.field_name (h : s.RefsNamed ctx) {m : ModuleId} {id : MemberRefId} {g : FieldId}
    (hg : s.map.remapField? m (.reference id) = some (.definition g)) :
    (Module.field s.target g).name = ((ctx.module m).memberRef id).name :=
  Option.some.inj (h m id _ (SymbolMap.remapField?_eq_some.mp hg))

end ImportState

/-- In every finished import the fields have the types of their makers, and keep their types exactly
when those that meet agree. -/
theorem typesByMakers_of_finished {inputs : List Input} {ctx : Context} {s : ImportState}
    (hinputs : Registry.ofInputs inputs = .ok ctx.registry) (hdone : Import.Finished ctx s) :
    s.TypesByMakers ctx := by
  have hctx := (Registry.accepted_of_ofInputs hinputs).1
  obtain ⟨s₁, hrun, hlate⟩ := hdone.exists_run hctx
  have himported := Import.imported_of_run hctx hrun
  have hmade := Import.membersMade_of_run hctx hrun
  have hframe := Import.LateStep.lateFrame_steps hlate himported.placed
  have hnamed := Import.LateStep.refsNamed_steps hlate himported.sound
    (Import.refsNamed_of_run hctx hrun)
  have hmakers : ∀ g ∈ Module.fieldIds s.target, ∃ m id, s.FieldMaker ctx m id g := by
    intro g hg
    -- nothing after the import of types makes a field
    rw [Module.mem_fieldIds, hframe.fields] at hg
    obtain ⟨m, id, hmaker⟩ := hmade.makers g hg
    exact ⟨m, id, hmaker.mono (Import.LateStep.grows_steps hlate) hg⟩
  exact {
    makers := hmakers
    meet := ImportState.meet_iff himported.faithful hmade hframe
    named := hnamed.field_name
    kept := ImportState.keepsFieldTypes_iff (Import.LateStep.sound_steps hlate himported.sound)
      hmakers }

/-! ## A box in two modules -/

/-- A program and a library that each have a box with a content. The program's holds a box, and the
library's what is given. The library takes the content out of its box. -/
def boxes (content : TypeSig) : List Input :=
  [{ isPrimary := true
     module :=
      { name := "App"
        types := [{ name := "Box", visibility := .public, fields := [⟨0⟩] }]
        fields := [
          { name := "content", access := .public, isStatic := true, fieldType := .definition ⟨0⟩
            declaring := ⟨0⟩ }] } },
   { isPrimary := false
     module :=
      { name := "Lib"
        types := [
          { name := "Box", visibility := .public, fields := [⟨0⟩], methods := [⟨0⟩] },
          { name := "Part", visibility := .public }]
        fields := [
          { name := "content", access := .public, isStatic := true, fieldType := content
            declaring := ⟨0⟩ }]
        methods := [
          { name := "Take", access := .public, isStatic := true, ret := some content
            body := some
              { instructions := [⟨.ldsfld, .field (.definition ⟨0⟩)⟩, .ret], locals := [] }
            declaring := ⟨0⟩ }] } }]

/-- The link of the two, with nothing hidden. -/
def boxesLink (content : TypeSig) : Context where
  registry := ⟨boxes content⟩
  policy := ⟨false, [], [], [], false⟩
  targetName := "App"

/-- What importing the two leaves. -/
def boxesImported (content : TypeSig) : ImportState :=
  Import.finalState (Import.run (boxesLink content)) (boxesLink content).startImport

/-- When both hold a box, the two fields meet and agree. -/
theorem typesByMakers_boxes :
    Registry.ofInputs (boxes (.definition ⟨0⟩)) = .ok (boxesLink (.definition ⟨0⟩)).registry
    ∧ Import.Finished (boxesLink (.definition ⟨0⟩)) (boxesImported (.definition ⟨0⟩))
    ∧ (boxesImported (.definition ⟨0⟩)).TypesByMakers (boxesLink (.definition ⟨0⟩))
    ∧ (boxesImported (.definition ⟨0⟩)).map.fieldOf? ⟨0⟩ ⟨0⟩ = some (.definition ⟨0⟩)
    ∧ (boxesImported (.definition ⟨0⟩)).map.fieldOf? ⟨1⟩ ⟨0⟩ = some (.definition ⟨0⟩) := by
  have hinputs : Registry.ofInputs (boxes (.definition ⟨0⟩))
    = .ok (boxesLink (.definition ⟨0⟩)).registry := rfl
  have hdone : Import.Finished (boxesLink (.definition ⟨0⟩)) (boxesImported (.definition ⟨0⟩)) :=
    .types (Import.eq_ok_of_succeeds (by decide +kernel))
  refine ⟨hinputs, hdone, typesByMakers_of_finished hinputs hdone, ?_, ?_⟩
  all_goals decide +kernel

/-- When the library's holds a part, its field is mapped onto the program's all the same, and the
body that takes the part out loads a box. -/
theorem not_keepsFieldTypes_boxes :
    Registry.ofInputs (boxes (.definition ⟨1⟩)) = .ok (boxesLink (.definition ⟨1⟩)).registry
    ∧ Import.Finished (boxesLink (.definition ⟨1⟩)) (boxesImported (.definition ⟨1⟩))
    ∧ ¬(boxesImported (.definition ⟨1⟩)).KeepsFieldTypes (boxesLink (.definition ⟨1⟩)) := by
  refine ⟨rfl, .types (Import.eq_ok_of_succeeds (by decide +kernel)), fun h ↦ ?_⟩
  have hentry : (boxesImported (.definition ⟨1⟩)).map.fieldOf? ⟨1⟩ ⟨0⟩
      = some (.definition ⟨0⟩) := by
    decide +kernel
  have hpart : (boxesImported (.definition ⟨1⟩)).map.remapSig? ⟨1⟩ (.definition ⟨1⟩)
      = some (.definition ⟨1⟩) := by decide +kernel
  have hbox : (Module.field (boxesImported (.definition ⟨1⟩)).target ⟨0⟩).fieldType
      = .definition ⟨0⟩ := by decide +kernel
  have hkept := h ⟨1⟩ (.definition ⟨0⟩) (.definition ⟨1⟩) ⟨0⟩ rfl hentry
  rw [hpart, hbox] at hkept
  cases hkept

end ModuleLinker

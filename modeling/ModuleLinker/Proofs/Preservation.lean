import Mathlib.Data.Set.Function
import ModuleLinker.Proofs.BlobOffset
import ModuleLinker.Proofs.Finished
import ModuleLinker.Proofs.Import.Single

/-!
# A module linked alone

A link of one module goes through all stages: types are numbered anew, in the order in which they
are declared, references are looked up, exports resolved, resources merged and the code revised.
None of them adds, drops or reorders anything. The symbol map is a bijection from the types, the
methods and the fields of the module onto those of the output, and what it makes of the module is
the output.

The reserved type that owns module-level members is made afresh, so nothing is said about the
outside of it; what is inside is preserved like the rest.
-/

namespace ModuleLinker

open Relation (ReflTransGen)

/-! ## What it means that a module is preserved -/

/-- Whether an operand is built from symbols. -/
def Operand.isSymbolic : Operand → Bool
  | .type _ | .method _ | .field _ | .signature _ => true
  | .none | .int32 _ | .int64 _ | .float64 _ | .string _ | .branch _ | .switch _ | .local _
    | .argument _ => false

/-- Two bodies have the same number of instructions, with the same operations and, but for operands
that are built from symbols, the same operands. -/
def Body.SameCode (b b' : Body) : Prop :=
  List.Forall₂ (fun i i' : Instruction ↦ i'.opcode = i.opcode
    ∧ (i.operand.isSymbolic = false → i'.operand = i.operand)) b.instructions b'.instructions

namespace SymbolMap

/-- A type of a module and a type of the output are the same under a map. -/
structure PreservesType (s : SymbolMap) (p : ModuleId) (d d' : TypeDef) : Prop where
  nspace : d.isModuleType = false → d'.nspace = d.nspace
  name : d.isModuleType = false → d'.name = d.name
  visibility : d.isModuleType = false → d'.visibility = d.visibility
  isSerializable : d.isModuleType = false → d'.isSerializable = d.isSerializable
  attributes : d.isModuleType = false → d'.attributes = d.attributes
  declaring : Option.Rel (fun o o' ↦ s.typeOf? p o = some o') d.declaring d'.declaring
  nested : List.Forall₂ (fun t t' ↦ s.typeOf? p t = some t') d.nested d'.nested
  fields : List.Forall₂ (fun f f' ↦ s.fieldOf? p f = some (.definition f')) d.fields d'.fields
  methods : List.Forall₂ (fun m m' ↦ s.methodOf? p m = some (.definition m')) d.methods d'.methods
  base : s.remapOption? p d.base = some d'.base
  interfaces : s.remapSigs? p d.interfaces = some d'.interfaces

/-- A field of a module and a field of the output are the same under a map. -/
structure PreservesField (s : SymbolMap) (p : ModuleId) (d d' : FieldDef) : Prop where
  name : d'.name = d.name
  access : d'.access = d.access
  isStatic : d'.isStatic = d.isStatic
  fieldType : s.remapSig? p d.fieldType = some d'.fieldType
  declaring : s.typeOf? p d.declaring = some d'.declaring

/-- A method of a module and a method of the output are the same under a map. -/
structure PreservesMethod (s : SymbolMap) (p : ModuleId) (d d' : MethodDef) : Prop where
  name : d'.name = d.name
  access : d'.access = d.access
  isStatic : d'.isStatic = d.isStatic
  params : s.remapSigs? p d.params = some d'.params
  ret : s.remapOption? p d.ret = some d'.ret
  declaring : s.typeOf? p d.declaring = some d'.declaring
  body : Option.Rel (fun b b' ↦ s.remapBody? p b = some b' ∧ b.SameCode b') d.body d'.body

/-- A map is a bijection from the types, the methods and the fields of a module onto those of the
output, and under it the output is the module. -/
structure Preserves (s : SymbolMap) (p : ModuleId) (m target : Module) : Prop where
  types : Set.BijOn (s.typeOf? p) {t | t ∈ m.typeIds} (some '' {t | t ∈ target.typeIds})
  methods : Set.BijOn (s.methodOf? p) {d | d ∈ m.methodIds}
    ((fun d ↦ some (.definition d)) '' {d | d ∈ target.methodIds})
  fields : Set.BijOn (s.fieldOf? p) {f | f ∈ m.fieldIds}
    ((fun f ↦ some (.definition f)) '' {f | f ∈ target.fieldIds})
  typeDef : ∀ {t t'}, s.typeOf? p t = some t' → s.PreservesType p (m.typeDef t) (target.typeDef t')
  field : ∀ {f f'}, s.fieldOf? p f = some (.definition f') →
    s.PreservesField p (m.field f) (target.field f')
  method : ∀ {d d'}, s.methodOf? p d = some (.definition d') →
    s.PreservesMethod p (m.method d) (target.method d')
  resources : target.resources = m.resources

variable {s s' : SymbolMap} {p : ModuleId}

theorem eq_of_remapOperand? {o o' : Operand} (h : s.remapOperand? p o = some o')
    (hsymbolic : o.isSymbolic = false) : o' = o := by
  cases o with
  | type _ | method _ | field _ | signature _ => cases hsymbolic
  | none | int32 _ | int64 _ | float64 _ | string _ | branch _ | switch _ | «local» _
    | argument _ => exact (Option.some.inj h).symm

theorem sameCode_of_remapBody? {b b' : Body} (h : s.remapBody? p b = some b') : b.SameCode b' := by
  simp only [remapBody?, Option.bind_eq_bind, Option.bind_eq_some_iff] at h
  obtain ⟨is, his, locals, -, heq⟩ := h
  cases heq
  refine (mapM_eq_some_iff.mp his).imp fun i i' hi ↦ ?_
  obtain ⟨operand, ho, rfl⟩ := Option.map_eq_some_iff.mp hi
  exact ⟨rfl, eq_of_remapOperand? ho⟩

end SymbolMap

theorem bijOn_of_total {α β γ : Type} {f : α → Option β} {g : γ → β} {A : Set α} {B : Set γ}
    (htotal : ∀ a ∈ A, ∃ b ∈ B, f a = some (g b))
    (hinj : ∀ {a a' b}, f a = some (g b) → f a' = some (g b) → a = a')
    (honto : ∀ b ∈ B, ∃ a ∈ A, f a = some (g b)) :
    Set.BijOn f A ((fun b ↦ some (g b)) '' B) := by
  refine ⟨fun a ha ↦ ?_, fun a ha a' _ heq ↦ ?_, ?_⟩
  · obtain ⟨b, hb, hab⟩ := htotal a ha
    exact ⟨b, hb, hab.symm⟩
  · obtain ⟨b, -, hab⟩ := htotal a ha
    exact hinj hab (heq.symm.trans hab)
  · rintro _ ⟨b, hb, rfl⟩
    exact honto b hb

/-! ## After the import of types

With no other module around, every place has one source and every member one maker. So nothing is
shared, and totality of the map gives bijections. -/

namespace Import.Single

variable {ctx : Context} {p : ModuleId} {s : ImportState} (h : Single ctx p s)
include h

theorem bijOn_types : Set.BijOn (s.map.typeOf? p) {t | t ∈ (ctx.module p).typeIds}
    (some '' {t | t ∈ Module.typeIds s.target}) := by
  refine bijOn_of_total (fun t ht ↦ ?_) h.typeOf?_inj fun t' ht' ↦ ?_
  · obtain ⟨t', ht', -⟩ := h.leads t (Module.mem_typeIds.mp ht)
    exact ⟨t', Module.mem_typeIds.mpr (h.imported.sound.typeOf?_lt ht'), ht'⟩
  · obtain ⟨t, ht⟩ := h.exists_typeOf? (Module.mem_typeIds.mp ht')
    exact ⟨t, Module.mem_typeIds.mpr (h.imported.sound.inputs ht), ht⟩

theorem bijOn_fields (hfields : (ctx.module p).FieldsDistinct) :
    Set.BijOn (s.map.fieldOf? p) {f | f ∈ (ctx.module p).fieldIds}
      ((fun f ↦ some (.definition f)) '' {f | f ∈ Module.fieldIds s.target}) := by
  refine bijOn_of_total (fun f hf ↦ h.exists_fieldOf? hf) (h.fieldOf?_inj hfields) fun q hq ↦ ?_
  obtain ⟨f, hmaker⟩ := h.exists_maker_of_field (Module.mem_fieldIds.mp hq)
  have hlisted := (h.fieldImage hmaker.entry).listed.listed
  exact ⟨f, Module.mem_fieldIds.mpr (field_lt h.accepted hlisted), hmaker.entry⟩

section Methods

variable {map : SymbolMap} (hmap : s.map.Extends map)
  (hmethods : map.MethodsDistinct p (ctx.module p))
include hmap hmethods

theorem bijOn_methods : Set.BijOn (s.map.methodOf? p) {d | d ∈ (ctx.module p).methodIds}
    ((fun d ↦ some (.definition d)) '' {d | d ∈ Module.methodIds s.target}) := by
  refine bijOn_of_total (fun d hd ↦ h.exists_methodOf? hd) (h.methodOf?_inj hmap hmethods)
    fun q hq ↦ ?_
  obtain ⟨d, hmaker⟩ := h.exists_maker_of_method (Module.mem_methodIds.mp hq)
  have hlisted := (h.methodImage hmaker.entry).listed.listed
  exact ⟨d, Module.mem_methodIds.mpr (method_lt h.accepted hlisted), hmaker.entry⟩

theorem preservesMethod {d q : MethodId} (hd : s.map.methodOf? p d = some (.definition q)) :
    map.PreservesMethod p ((ctx.module p).method d) (Module.method s.target q) := by
  have himage := h.methodImage hd
  have horigin := h.imported.primary h.primary hd
  have hsole : ∀ d', s.map.methodOf? p d' = some (.definition q) → d' = d := fun d' hd' ↦
    h.methodOf?_inj hmap hmethods hd' hd
  obtain ⟨haccess, hstatic⟩ := h.imported.sole_shell horigin hsole
  refine ⟨himage.name, haccess, hstatic, hmap.remapSigs? _ himage.params,
    hmap.remapOption? himage.ret, hmap.typeOf? himage.listed.place, ?_⟩
  have hbody := h.imported.sole_body h.accepted hd horigin hsole
  cases hsource : ((ctx.module p).method d).body with
  | none =>
    rw [hsource] at hbody
    rw [hbody]
    exact .none
  | some source =>
    rw [hsource] at hbody
    obtain ⟨body, hremap, hbody⟩ := hbody
    rw [hbody]
    exact .some ⟨hmap.remapBody? hremap, SymbolMap.sameCode_of_remapBody? hremap⟩

end Methods

theorem preservesField (hfields : (ctx.module p).FieldsDistinct) {f q : FieldId}
    (hf : s.map.fieldOf? p f = some (.definition q)) :
    s.map.PreservesField p ((ctx.module p).field f) (Module.field s.target q) := by
  have himage := h.fieldImage hf
  obtain ⟨g, hmaker⟩ := h.exists_maker_of_field himage.inRange
  obtain rfl : g = f := h.fieldOf?_inj hfields hmaker.entry hf
  exact ⟨himage.name, hmaker.access, hmaker.isStatic, hmaker.type, himage.listed.place⟩

/-- The type is first in its place, which is dressed like it and has what the map makes of its base
and its interfaces. -/
theorem preservesType (hfields : (ctx.module p).FieldsDistinct) {map : SymbolMap}
    (hmap : s.map.Extends map) (hmethods : map.MethodsDistinct p (ctx.module p)) {t t' : TypeId}
    (ht : s.map.typeOf? p t = some t') :
    s.map.PreservesType p ((ctx.module p).typeDef t) (Module.typeDef s.target t') := by
  have hfirst := h.head?_sourcesOf ht
  have hmirrored := h.mirrors t t' ht
  have hlooks := (looks_of_run h.accepted h.run).dressed hfirst
  obtain ⟨t'', hfilled⟩ := h.imported.filled (Registry.primary?_lt h.primary)
    (h.imported.sound.inputs ht)
  cases hfilled.place.symm.trans ht
  obtain ⟨hbase, hinterfaces⟩ := hfilled.inherits hfirst
  have hplacement := Step.placement_steps ((reaches_run h.accepted).of_ok h.run).1
    ctx.sound_startImport ctx.placement_startImport
  refine ⟨fun _ ↦ hmirrored.nspace, fun _ ↦ hmirrored.name, fun hmod ↦ ?_,
    fun hmod ↦ (hlooks hmod).2.1, fun hmod ↦ (hlooks hmod).2.2, hmirrored.declaring,
    h.forall₂_nested ht, h.forall₂_fields ht hfields, h.forall₂_methods ht hmap hmethods, hbase,
    hinterfaces⟩
  rw [hplacement.visibility hfirst hmod, Context.shownAs, ctx.internalizesType_primary h.primary]
  rfl

theorem secondaries_eq : ctx.registry.secondaries = [] :=
  Registry.secondaries_of_only h.primary h.only

end Import.Single

/-! ## The stages that come after

No initializers are folded and no locators are moved when there are no secondary modules. What
remains is the identity, which is not part of what is compared, and the resources, which are taken
as they are. -/

namespace SymbolMap

variable {s s' : SymbolMap} {p : ModuleId}

theorem PreservesType.mono {d d' : TypeDef} (h : s.PreservesType p d d') (hext : s.Extends s') :
    s'.PreservesType p d d' where
  nspace := h.nspace
  name := h.name
  visibility := h.visibility
  isSerializable := h.isSerializable
  attributes := h.attributes
  declaring := by
    have hrel := h.declaring
    generalize d.declaring = c, d'.declaring = c' at hrel
    cases hrel with
    | none => exact .none
    | some ht => exact .some (hext.typeOf? ht)
  nested := h.nested.imp fun _ _ ↦ hext.typeOf?
  fields := h.fields.imp fun _ _ ↦ hext.fieldOf?
  methods := h.methods.imp fun _ _ ↦ hext.methodOf?
  base := hext.remapOption? h.base
  interfaces := hext.remapSigs? _ h.interfaces

theorem PreservesField.mono {d d' : FieldDef} (h : s.PreservesField p d d')
    (hext : s.Extends s') : s'.PreservesField p d d' where
  name := h.name
  access := h.access
  isStatic := h.isStatic
  fieldType := hext.remapSig? _ h.fieldType
  declaring := hext.typeOf? h.declaring

end SymbolMap

/-- A locator is only revised in the code of a secondary module, or if it could name one. -/
theorem patchLocator_of_alone {ctx : Context} {map : SymbolMap} (m : Module)
    (hsecondaries : ctx.registry.secondaries = []) (hblocks : map.blocks = {})
    (hsources : ∀ {t origin}, map.typeOrigin? t = some origin →
      ctx.registry.primary? = some origin)
    (id : MethodId) (is : List Instruction) (position : Nat) :
    patchLocator ctx map m id is position = none := by
  refine Option.eq_none_iff_forall_ne_some.mpr fun j hj ↦ ?_
  simp only [patchLocator, Option.bind_eq_bind, Option.bind_eq_some_iff] at hj
  obtain ⟨⟨opcode, operand⟩, -, hj⟩ := hj
  cases operand with
  | string literal =>
    obtain ⟨origin, horigin, hj⟩ := Option.bind_eq_some_iff.mp hj
    have hnoBlock : map.blockOrigin? id position = none := by
      rw [SymbolMap.blockOrigin?, SymbolMap.blocksOf, hblocks]
      rfl
    rw [hnoBlock] at horigin
    have hprimary := hsources horigin
    split at hj
    · obtain ⟨patched, hpatched, -⟩ := Option.bind_eq_some_iff.mp hj
      have hname : ctx.secondaryName? origin = none := by
        simp [Context.secondaryName?, Registry.isPrimary, hprimary]
      have hnames : ctx.locatorNames.relocateAll? literal = none := by
        rw [LocatorNames.relocateAll?, Context.locatorNames, hsecondaries]
        rfl
      simp [LocatorNames.patchLiteral?, hname, hnames] at hpatched
    · cases hj
  | none | int32 _ | int64 _ | float64 _ | type _ | method _ | field _ | branch _ | switch _
    | «local» _ | argument _ | signature _ => cases hj

theorem mergeResources_of_alone {ctx : Context} {p : ModuleId}
    (horder : ctx.registry.importOrder = [p]) :
    mergeResources ctx = ((ctx.module p).resources, {}) := by
  rw [mergeResources, horder, List.foldl_cons, List.foldl_nil]
  cases hresources : (ctx.module p).resources <;> simp only [mergeModuleResources, hresources]

namespace Import.Single

variable {ctx : Context} {p : ModuleId} {s s' : ImportState} (h : Single ctx p s)
  (hexports : ReflTransGen (ExportStep ctx) s s')
include h hexports

theorem lateFrame : s.LateFrame s' :=
  LateStep.lateFrame_steps (ExportStep.late_steps hexports) h.imported.placed

theorem finish_eq : s'.finish ctx = { s'.target with resources := (ctx.module p).resources } := by
  have hs' := ExportStep.sound_steps hexports h.imported.sound
  have horder : ctx.registry.importOrder = [p] := by
    simp [Registry.importOrder, h.primary, h.secondaries_eq]
  have hblocks : s'.map.blocks = {} :=
    (ExportStep.frame_steps hexports).2.trans (blocks_of_run h.accepted h.run)
  have hsources : ∀ {t origin}, s'.map.typeOrigin? t = some origin →
      ctx.registry.primary? = some origin := by
    intro t origin ho
    obtain ⟨⟨m, id⟩, hfirst, rfl⟩ := Option.map_eq_some_iff.mp ho
    rw [h.only (Registry.lt_of_type (hs'.inputs (hs'.sources.mp (List.mem_of_head? hfirst))))]
    exact h.primary
  rw [ImportState.finish, mergeResources_of_alone horder]
  exact Module.revise_of_none _
    (patchLocator_of_alone _ h.secondaries_eq hblocks hsources)

theorem preserves (hfields : (ctx.module p).FieldsDistinct)
    (hmethods : s'.map.MethodsDistinct p (ctx.module p)) {target : Module}
    (htypes : target.types = s'.target.types) (hmethodTable : target.methods = s'.target.methods)
    (hfieldTable : target.fields = s'.target.fields)
    (hresources : target.resources = (ctx.module p).resources) :
    s'.map.Preserves p (ctx.module p) target := by
  have hs := h.imported.sound
  have hframe := h.lateFrame hexports
  have hmap := (LateStep.grows_steps (ExportStep.late_steps hexports)).map
  -- the tables and the entries are those of the import of types
  replace htypes := htypes.trans (ExportStep.types_steps hexports h.imported.placed)
  replace hmethodTable := hmethodTable.trans (ExportStep.frame_steps hexports).1
  replace hfieldTable := hfieldTable.trans hframe.fields
  have htypeOf : s'.map.typeOf? p = s.map.typeOf? p := funext fun id ↦
    hframe.typeOf?_eq hs (ExportStep.sound_steps hexports hs) p id
  have hmethodOf : s'.map.methodOf? p = s.map.methodOf? p := funext (hframe.methodEntries p)
  have hfieldOf : s'.map.fieldOf? p = s.map.fieldOf? p := funext (hframe.fieldEntries p)
  refine ⟨?_, ?_, ?_, fun {t t'} ht ↦ ?_, fun {f f'} hf ↦ ?_, fun {d d'} hd ↦ ?_, hresources⟩
  · rw [htypeOf, Module.typeIds_congr s.target (congrArg List.length htypes)]
    exact h.bijOn_types
  · rw [hmethodOf, Module.methodIds_congr s.target (congrArg List.length hmethodTable)]
    exact h.bijOn_methods hmap hmethods
  · rw [hfieldOf, Module.fieldIds_congr s.target (congrArg List.length hfieldTable)]
    exact h.bijOn_fields hfields
  · rw [htypeOf] at ht
    rw [Module.typeDef_congr htypes]
    exact (h.preservesType hfields hmap hmethods ht).mono hmap
  · rw [hfieldOf] at hf
    rw [Module.field_congr hfieldTable]
    exact (h.preservesField hfields hf).mono hmap
  · rw [hmethodOf] at hd
    rw [Module.method_congr hmethodTable]
    exact h.preservesMethod hmap hmethods hd

end Import.Single

/-- A module with an initializer, a type around two others, one of which stands before it in the
table, and two methods that differ in their signatures alone. It refers to one of its own types by
name, and its code holds what looks like a locator. -/
def solo : Module where
  name := "App"
  types := [
    { name := "Part", visibility := .nestedPublic, declaring := some ⟨2⟩, fields := [⟨0⟩] },
    { name := "<Module>", methods := [⟨0⟩] },
    { nspace := "App", name := "Tool", visibility := .public, isSerializable := true
      attributes := ["System.Xml.Serialization.XmlTypeAttribute"], base := some (.reference ⟨0⟩)
      interfaces := [.generic (.reference ⟨0⟩) [.definition ⟨0⟩]], nested := [⟨3⟩, ⟨0⟩]
      fields := [⟨2⟩, ⟨1⟩], methods := [⟨2⟩, ⟨1⟩] },
    { name := "Leaf", visibility := .nestedPrivate, base := some (.reference ⟨1⟩)
      declaring := some ⟨2⟩ }]
  methods := [
    { name := ".cctor", access := .private, isStatic := true, declaring := ⟨1⟩
      body := some { instructions :=
        [.loadString "/App;component/View.xaml", .storeStatic (.reference ⟨1⟩), .ret] } },
    { name := "Get", access := .public, isStatic := true, params := [.array (.definition ⟨0⟩)]
      declaring := ⟨2⟩
      body := some { instructions := [.loadInt 3, .call (.definition ⟨2⟩), .ret]
                     locals := [.definition ⟨3⟩] } },
    { name := "Get", access := .family, isStatic := false, ret := some (.definition ⟨0⟩)
      declaring := ⟨2⟩ }]
  fields := [
    { name := "a", access := .public, isStatic := false, fieldType := .definition ⟨2⟩
      declaring := ⟨0⟩ },
    { name := "a", access := .private, isStatic := true, fieldType := .array (.definition ⟨3⟩)
      declaring := ⟨2⟩ },
    { name := "b", access := .public, isStatic := true, fieldType := .reference ⟨0⟩
      declaring := ⟨2⟩ }]
  typeRefs := [⟨.assembly ⟨0⟩, "System", "Object"⟩, ⟨.assembly ⟨1⟩, "App", "Tool"⟩]
  memberRefs := [⟨.reference ⟨0⟩, "Equals", .method [] none⟩,
    ⟨.reference ⟨1⟩, "b", .field (.reference ⟨0⟩)⟩]
  assemblyRefs := [⟨"System", {}⟩, ⟨"App", {}⟩, ⟨"PresentationFramework", {}⟩]
  resources := some [(blobType, .directory [(blobName, .data [1, 2, 3])])]

/-- Hide everything but contracts, and give the output another name. -/
def hideMost : Settings where
  targetName := some "Out"
  internalize := { enabled := true, includes := ["App"], excludeSerializable := true }

def soloLink : Context where
  registry := ⟨[⟨solo, true⟩]⟩
  policy := ⟨true, ["App"], [], [], true⟩
  targetName := "Out"

/-- What the link leaves. -/
def soloLinked : ImportState := Import.finalState (Import.all soloLink) soloLink.startImport

end ModuleLinker

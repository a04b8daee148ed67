import ModuleLinker.Proofs.Homomorphism
import ModuleLinker.Proofs.Import.Placement
import ModuleLinker.Proofs.Import.SideBySide

/-!
# One more module

A secondary module that is appended to the inputs comes last in the import order. All types are
declared before anything else is imported, so when its turn comes every type of the other modules
has its place, if what each type lists agrees with what declares it; and how a type is placed
depends on the types that are there, and on nothing that the new module could change. So the new
module moves no type of the others: each has the same place with and without it, and the place looks
the same.
-/

namespace ModuleLinker

/-! ## The registry

A module that is appended gets the last id, so all ids that were there keep their modules. It is
imported last, too, behind the modules of the other link in their order. -/

/-- A registry with one secondary module more, which comes last. -/
def Registry.Appends (r r' : Registry) : Prop :=
  ∃ added : Module, r'.inputs = r.inputs ++ [⟨added, false⟩]

namespace Registry.Appends

variable {r r' : Registry}

theorem module_eq (h : r.Appends r') {m : ModuleId} (hm : m.index < r.size) :
    r'.module m = r.module m := by
  obtain ⟨added, hinputs⟩ := h
  rw [Registry.module, Registry.module, input, input, hinputs, List.getD_append _ _ _ _ hm]

theorem size_eq (h : r.Appends r') : r'.size = r.size + 1 := by
  obtain ⟨added, hinputs⟩ := h
  rw [size, hinputs, List.length_append]
  rfl

theorem primary?_eq (h : r.Appends r') : r'.primary? = r.primary? := by
  obtain ⟨added, hinputs⟩ := h
  rw [primary?, primary?, hinputs, List.findIdx?_append]
  simp

theorem isPrimary_eq (h : r.Appends r') : r'.isPrimary = r.isPrimary := by
  funext m
  rw [isPrimary, isPrimary, h.primary?_eq]

theorem importOrder_eq (h : r.Appends r') : r'.importOrder = r.importOrder ++ [⟨r.size⟩] := by
  have hids : r'.ids = r.ids ++ [⟨r.size⟩] := by
    have hsize : r'.inputs.length = r.inputs.length + 1 := h.size_eq
    rw [ids, hsize, List.range_succ, List.map_append]
    rfl
  have hlast : r.isPrimary ⟨r.size⟩ = false := by
    rw [← Bool.not_eq_true]
    intro hp
    exact Nat.lt_irrefl _ (primary?_lt (of_decide_eq_true hp))
  rw [importOrder, importOrder, secondaries, secondaries, h.primary?_eq, h.isPrimary_eq, hids,
    List.filter_append, ← List.append_assoc]
  simp [hlast]

end Registry.Appends

/-! ## Placing types

Placing a type reads the types of the output, the places that types have, and what the policy says
of the type. Two states that agree on these still agree after the same type has been placed in
both, and so they do when a whole module has been declared in both. -/

theorem Module.qualifiedName_congr {m m' : Module} (h : m'.types = m.types) :
    m'.qualifiedName = m.qualifiedName := by
  funext id
  simp only [qualifiedName, declaringChain, typeDef, h]

namespace Target

variable {t t' : Target} (h : t'.types = t.types)
include h

theorem lookup?_congr (qualified : String) : t'.lookup? qualified = t.lookup? qualified := by
  rw [lookup?, lookup?, Module.typeIds, Module.typeIds, h, Module.qualifiedName_congr h]

theorem nameIn_congr (container : Option TypeId) (nspace name : String) :
    t'.nameIn container nspace name = t.nameIn container nspace name := by
  unfold nameIn
  rw [Module.qualifiedName_congr h]

theorem freshName_congr (container : Option TypeId) (nspace name origin : String) :
    t'.freshName container nspace name origin = t.freshName container nspace name origin := by
  simp only [freshName, isTaken, nameIn_congr h, lookup?_congr h, h]

theorem types_addType_congr (d : TypeDef) :
    (t'.addType d).1 = (t.addType d).1 ∧ (t'.addType d).2.types = (t.addType d).2.types := by
  unfold Module.addType
  cases d.declaring with
  | none => simp only [h, and_self]
  | some o => simp only [Module.updateType, h, and_self]

theorem ensureModuleType_congr : t'.ensureModuleType.1 = t.ensureModuleType.1
    ∧ t'.ensureModuleType.2.types = t.ensureModuleType.2.types := by
  unfold ensureModuleType
  rw [lookup?_congr h]
  cases t.lookup? moduleTypeName with
  | some id => exact ⟨rfl, h⟩
  | none => exact types_addType_congr h _

end Target

/-- A module is the same in two links, and it comes to the same decisions about hiding its types. -/
structure Context.SameModule (ctx ctx' : Context) (m : ModuleId) : Prop where
  module : ctx'.module m = ctx.module m
  hides : ctx'.internalizesType m = ctx.internalizesType m
  decides : ctx'.decides m = ctx.decides m

/-- The types of the output are the same, and so is what has become of the inputs. -/
structure ImportState.SameTypes (s s' : ImportState) : Prop where
  types : s'.target.types = s.target.types
  map : s'.map = s.map

namespace ImportState.SameTypes

variable {s s' : ImportState} {ctx ctx' : Context} {m : ModuleId}

theorem addShell (h : s.SameTypes s') (t : TypeDef) (p : Pending) (name : String) :
    (s'.addShell t p name).1 = (s.addShell t p name).1
      ∧ (s.addShell t p name).2.SameTypes (s'.addShell t p name).2 := by
  obtain ⟨hid, htypes⟩ := Target.types_addType_congr h.types _
  exact ⟨hid, htypes, h.map⟩

section Module

variable (hm : ctx.SameModule ctx' m)
include hm

theorem place (h : s.SameTypes s') (p : Pending) :
    (s'.place ctx' m p).1 = (s.place ctx m p).1
      ∧ (s.place ctx m p).2.SameTypes (s'.place ctx' m p).2 := by
  unfold ImportState.place
  rw [hm.module]
  dsimp only
  by_cases hmod : ((ctx.module m).typeDef p.type).isModuleType = true
  · obtain ⟨hid, htypes⟩ := Target.ensureModuleType_congr h.types
    rw [if_pos hmod, if_pos hmod]
    exact ⟨hid, htypes, h.map⟩
  · rw [if_neg hmod, if_neg hmod, Target.nameIn_congr h.types, Target.lookup?_congr h.types]
    cases s.target.lookup? (s.target.nameIn p.container ((ctx.module m).typeDef p.type).nspace
        ((ctx.module m).typeDef p.type).name) with
    | none => exact h.addShell _ p _
    | some existing =>
      by_cases hhide : p.hide = true
      · have hnoted : ∀ noted noted', SameTypes { s with renamed := noted }
            { s' with renamed := noted' } := fun _ _ ↦ ⟨h.types, h.map⟩
        simp only [if_pos hhide, Target.freshName_congr h.types]
        exact (hnoted _ _).addShell _ p _
      · simp only [if_neg hhide, true_and]
        exact ⟨h.types, h.map⟩

theorem declareOne (h : s.SameTypes s') (p : Pending) :
    (s'.declareOne ctx' m p).1 = (s.declareOne ctx m p).1
      ∧ (s.declareOne ctx m p).2.SameTypes (s'.declareOne ctx' m p).2 := by
  obtain ⟨hid, hplaced⟩ := h.place hm p
  refine ⟨hid, hplaced.types, ?_⟩
  simp only [ImportState.declareOne, hid, hplaced.map]

theorem nestedPending_eq (type target : TypeId) :
    nestedPending ctx' m type target = nestedPending ctx m type target := by
  rw [nestedPending, nestedPending, hm.module, hm.hides]

theorem declareAll (work : List Pending) : ∀ s', s.SameTypes s' →
    (ImportState.declareAll ctx m s work).SameTypes (ImportState.declareAll ctx' m s' work) := by
  induction s, work using declareAll.induct ctx m with
  | case1 s =>
    intro s' h
    rw [ImportState.declareAll, ImportState.declareAll]
    exact h
  | case2 s p rest hknown ih =>
    intro s' h
    rw [ImportState.declareAll, ImportState.declareAll, if_pos hknown, if_pos (h.map ▸ hknown)]
    exact ih s' h
  | case3 s p rest hnew placed ih =>
    intro s' h
    obtain ⟨hid, hplaced⟩ := h.declareOne hm p
    rw [ImportState.declareAll, ImportState.declareAll, if_neg hnew, if_neg (h.map ▸ hnew)]
    simp only [hid, nestedPending_eq hm]
    exact ih _ hplaced

theorem declare (h : s.SameTypes s') (p : Pending) :
    (s.declare ctx m p).2.SameTypes (s'.declare ctx' m p).2 :=
  declareAll hm [p] s' h

theorem listedSince_eq {t t' : ImportState} (h : s.SameTypes s') (ht : t.SameTypes t') :
    s'.listedSince t' ctx' m = s.listedSince t ctx m := by
  simp only [listedSince, enteredSince, hm.module, h.map, ht.map]

end Module

end ImportState.SameTypes

namespace Import

open ImportState

variable {ctx ctx' : Context} {m : ModuleId}

theorem alike_declareModule (hm : ctx.SameModule ctx' m) :
    Alike SameTypes Eq (declareModule ctx m) (declareModule ctx' m) := by
  unfold declareModule
  rw [hm.module, hm.hides]
  refine .forM_same fun id _ ↦ .deciding (congrArg Module.name hm.module) hm.decides fun h ↦ ?_
  have hdeclared := h.declare hm ⟨id, none, ctx.internalizesType m id⟩
  exact ⟨rfl, hdeclared, congrArg (id :: ·) (h.listedSince_eq hm hdeclared)⟩

theorem alike_declareEach {ms : List ModuleId} (hms : ∀ m ∈ ms, ctx.SameModule ctx' m) :
    Alike SameTypes Eq (ms.forM (declareModule ctx)) (ms.forM (declareModule ctx')) :=
  .forM_same fun m hm ↦ alike_declareModule (hms m hm)

end Import

/-! ## With and without the new module

Both links declare the old modules first, and agree on types and places then. What the longer one
does after that only adds to the output. -/

/-- A type has the same place in both states, and the place looks the same: what it inherits and
holds aside, it is the same type. -/
def ImportState.PlacesAlike (s s' : ImportState) (m : ModuleId) (id : TypeId) : Prop :=
  ∃ t, s.map.typeOf? m id = some t ∧ s'.map.typeOf? m id = some t
    ∧ (s'.target.typeDef t).outside = (s.target.typeDef t).outside

/-- The modules that were there are the same in the link with one more, and the same of their types
are hidden. -/
theorem Registry.Appends.sameModule {ctx ctx' : Context} (h : ctx.registry.Appends ctx'.registry)
    (hpolicy : ctx'.policy = ctx.policy) {m : ModuleId} (hm : m.index < ctx.registry.size) :
    ctx.SameModule ctx' m := by
  have hmodule : ctx'.module m = ctx.module m := h.module_eq hm
  have hselects : ctx'.internalizes m = ctx.internalizes m := by
    rw [Context.internalizes, Context.internalizes, hmodule, hpolicy, h.isPrimary_eq]
  refine ⟨hmodule, funext fun id ↦ ?_, funext fun id ↦ ?_⟩
  · rw [Context.internalizesType, Context.internalizesType, hselects, hmodule, hpolicy]
  · rw [Context.decides, Context.decides, hselects, hmodule, hpolicy]

/-- A secondary module that is appended leaves the types of all others where they were, whatever it
holds. -/
theorem placesAlike_of_append {inputs : List Input} {added : Module} {ctx ctx' : Context}
    {s s' : ImportState} (hinputs : Registry.ofInputs inputs = .ok ctx.registry)
    (hinputs' : Registry.ofInputs (inputs ++ [⟨added, false⟩]) = .ok ctx'.registry)
    (hpolicy : ctx'.policy = ctx.policy) (hlinks : ∀ i ∈ inputs, i.module.NestingAgrees)
    (hrun : Import.run ctx ctx.startImport = .ok () s)
    (hrun' : Import.run ctx' ctx'.startImport = .ok () s') :
    ∀ m ∈ ctx.registry.ids, ∀ id ∈ (ctx.module m).typeIds, s.PlacesAlike s' m id := by
  obtain ⟨hctx, -, hlist⟩ := Registry.accepted_of_ofInputs hinputs
  obtain ⟨hctx', -, hlist'⟩ := Registry.accepted_of_ofInputs hinputs'
  have happends : ctx.registry.Appends ctx'.registry := ⟨added, by rw [hlist', hlist]⟩
  -- both begin with the types of the modules that were there
  obtain ⟨s₁, hfirst, hs₁, hgrows⟩ := Import.exists_declareEach_of_run hctx
    (List.append_nil _).symm hrun
  obtain ⟨s₁', hfirst', -, hgrows'⟩ := Import.exists_declareEach_of_run hctx'
    happends.importOrder_eq hrun'
  have hmodules : ∀ m ∈ ctx.registry.importOrder, ctx.SameModule ctx' m := fun m hm ↦
    happends.sameModule hpolicy (Registry.mem_importOrder.mp hm)
  have hstart : ctx.startImport.SameTypes ctx'.startImport := ⟨rfl, rfl⟩
  obtain ⟨_, t₁, ht₁, -, hsame⟩ := (Import.alike_declareEach hmodules).of_ok hstart hfirst
  obtain ⟨-, rfl⟩ := EStateM.Result.ok.inj (ht₁.symm.trans hfirst')
  intro m hm id hid
  have hm' := Registry.mem_ids.mp hm
  have hagrees : (ctx.module m).NestingAgrees := by
    refine hlinks (ctx.registry.input m) ?_
    rw [← hlist]
    exact Registry.module_mem hm'
  obtain ⟨t, ht⟩ := Import.placed_of_declareEach hctx hfirst (Registry.mem_importOrder.mpr hm')
    (hagrees.mem_nested_iff hctx) (Module.mem_typeIds.mp hid)
  have hlt := hs₁.typeOf?_lt ht
  refine ⟨t, hgrows.map.typeOf? ht, hgrows'.map.typeOf? (hsame.map ▸ ht), ?_⟩
  rw [hgrows.target.typeDef hlt, hgrows'.target.typeDef (by rw [hsame.types]; exact hlt),
    Module.typeDef_congr hsame.types]

/-! ## A name that is wanted -/

/-- A program and a library that both have a type of one name. -/
def sharedTool : List Input :=
  [{ isPrimary := true
     module :=
      { name := "App"
        types := [
          { nspace := "Kit", name := "Tool", visibility := .public, nested := [⟨1⟩] },
          { name := "Part", visibility := .nestedPublic, declaring := some ⟨0⟩ }] } },
   { isPrimary := false
     module :=
      { name := "Lib"
        types := [{ nspace := "Kit", name := "Tool", visibility := .public }] } }]

/-- A module that has a type of the name that the library's type gets when it is hidden, refers to
the library's type, and forwards the name. -/
def toolWanted : Module where
  name := "New"
  types := [{ nspace := "Kit", name := "<Lib>Tool", visibility := .public, fields := [⟨0⟩] }]
  fields := [
    { name := "tool", access := .public, isStatic := true, fieldType := .reference ⟨0⟩
      declaring := ⟨0⟩ }]
  typeRefs := [⟨.assembly ⟨0⟩, "Kit", "Tool"⟩]
  assemblyRefs := [⟨"Lib", {}⟩]
  exportedTypes := [
    { nspace := "Kit", name := "Tool", implementation := .assembly ⟨0⟩, isForwarder := true }]

/-- A link that hides the types of all libraries. -/
def hidingLink (inputs : List Input) : Context where
  registry := ⟨inputs⟩
  policy := ⟨true, [], [], [], false⟩
  targetName := "App"

/-- What importing the types leaves. -/
def hidingImported (inputs : List Input) : ImportState :=
  Import.finalState (Import.run (hidingLink inputs)) (hidingLink inputs).startImport

/-- The library's type keeps its place and its name, and the new type gets another one. -/
theorem placesAlike_sharedTool :
    Registry.ofInputs sharedTool = .ok (hidingLink sharedTool).registry
      ∧ Registry.ofInputs (sharedTool ++ [⟨toolWanted, false⟩])
        = .ok (hidingLink (sharedTool ++ [⟨toolWanted, false⟩])).registry
      ∧ (∀ i ∈ sharedTool, i.module.NestingAgrees)
      ∧ (∀ m ∈ (hidingLink sharedTool).registry.ids,
        ∀ id ∈ ((hidingLink sharedTool).module m).typeIds, (hidingImported sharedTool).PlacesAlike
          (hidingImported (sharedTool ++ [⟨toolWanted, false⟩])) m id)
      ∧ (hidingImported sharedTool).target.types.map TypeDef.name = ["Tool", "Part", "<Lib>Tool"]
      ∧ (hidingImported (sharedTool ++ [⟨toolWanted, false⟩])).target.types.map TypeDef.name
        = ["Tool", "Part", "<Lib>Tool", "<New><Lib>Tool"] := by
  have hinputs : Registry.ofInputs sharedTool = .ok (hidingLink sharedTool).registry := rfl
  have hinputs' : Registry.ofInputs (sharedTool ++ [⟨toolWanted, false⟩])
      = .ok (hidingLink (sharedTool ++ [⟨toolWanted, false⟩])).registry := rfl
  have hlinks : ∀ i ∈ sharedTool, i.module.NestingAgrees := by decide +kernel
  have hrun : Import.run (hidingLink sharedTool) (hidingLink sharedTool).startImport
      = .ok () (hidingImported sharedTool) := Import.eq_ok_of_succeeds (by decide +kernel)
  have hrun' : Import.run (hidingLink (sharedTool ++ [⟨toolWanted, false⟩]))
      (hidingLink (sharedTool ++ [⟨toolWanted, false⟩])).startImport
        = .ok () (hidingImported (sharedTool ++ [⟨toolWanted, false⟩])) :=
    Import.eq_ok_of_succeeds (by decide +kernel)
  refine ⟨hinputs, hinputs', hlinks,
    placesAlike_of_append hinputs hinputs' rfl hlinks hrun hrun', ?_, ?_⟩
  all_goals decide +kernel

end ModuleLinker

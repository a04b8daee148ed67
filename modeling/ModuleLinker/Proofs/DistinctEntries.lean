import ModuleLinker.Proofs.BlobOffset
import ModuleLinker.Proofs.Finished
import ModuleLinker.Proofs.Import.Caches

/-!
# No entry is there twice

In the output of a link no two types share a qualified name, no reference is repeated, and the
fields of a type can be told apart by name. When types have been imported, methods of one type can
be told apart by name and signature, and a qualified name leads to the one type that has it. This
holds whatever was asked of the import before.
-/

namespace ModuleLinker

open Relation (ReflTransGen)

/-- Types can be told apart by qualified name, references as a whole, and the fields of a type by
name. -/
structure Module.EntriesDistinct (m : Module) : Prop where
  types : m.NamesDistinct
  typeRefs : m.typeRefs.Nodup
  memberRefs : m.memberRefs.Nodup
  fields : ∀ t ∈ m.typeIds, ((m.typeDef t).fields.map fun f ↦ (m.field f).name).Nodup

/-- Methods of a type can be told apart by name and signature, and a type is found under a name
exactly when it has the name. -/
structure Target.MethodsDistinct (t : Target) : Prop where
  methods : ∀ owner ∈ Module.typeIds t, ((Module.typeDef t owner).methods.map fun d ↦
    let m := Module.method t d
    (m.name, m.params, m.ret)).Nodup
  found : ∀ qualified id, t.lookup? qualified = some id
    ↔ id ∈ Module.typeIds t ∧ Module.qualifiedName t id = qualified

/-! ## Members

Fields of one type differ in name and methods in name or signature because a member is only made
when the type has none like it. A link ends with the combined initializer, which is made without
looking; so methods are told apart after an import of types. -/

namespace ImportState

variable {s : ImportState} {ctx : Context}

theorem Sound.nodup_fields (hs : s.Sound ctx)
    (hfields : ∀ f g : FieldId, f.index < s.target.fields.length →
      g.index < s.target.fields.length →
      (Module.field s.target f).declaring = (Module.field s.target g).declaring →
      (Module.field s.target f).name = (Module.field s.target g).name → f = g) (t : TypeId) :
    ((Module.typeDef s.target t).fields.map fun f ↦ (Module.field s.target f).name).Nodup := by
  refine List.Nodup.map_on (fun f hf g hg hname ↦ ?_)
    ((hs.linked.pairwise_fields t).imp fun hlt heq ↦ ?_)
  · obtain ⟨hf, hfowner⟩ := hs.linked.mem_fields.mp hf
    obtain ⟨hg, hgowner⟩ := hs.linked.mem_fields.mp hg
    exact hfields f g hf hg (hfowner.trans hgowner.symm) hname
  · exact Nat.ne_of_lt hlt (congrArg FieldId.index heq)

theorem MembersMade.nodup_methods (hm : s.MembersMade ctx) (hs : s.Sound ctx) (t : TypeId) :
    ((Module.typeDef s.target t).methods.map fun d ↦
      ((Module.method s.target d).name, (Module.method s.target d).params,
        (Module.method s.target d).ret)).Nodup := by
  refine List.Nodup.map_on (fun d hd e he heq ↦ ?_)
    ((hs.linked.pairwise_methods t).imp fun hlt heq ↦ ?_)
  · obtain ⟨hd, hdowner⟩ := hs.linked.mem_methods.mp hd
    obtain ⟨he, heowner⟩ := hs.linked.mem_methods.mp he
    obtain ⟨hname, hsig⟩ := Prod.mk.inj heq
    obtain ⟨hparams, hret⟩ := Prod.mk.inj hsig
    exact hm.methods d e hd he (hdowner.trans heowner.symm) hname hparams hret
  · exact Nat.ne_of_lt hlt (congrArg MethodId.index heq)

end ImportState

namespace CallStep

variable {ctx : Context} {s s' : ImportState}

theorem membersMade (h : CallStep ctx s s') (hs : s.Sound ctx) (hm : s.MembersMade ctx) :
    s'.MembersMade ctx := by
  cases h with
  | step h => exact h.membersMade hs hm
  | @enter m p hfresh _ =>
    refine hm.of_grows (ImportState.grows_declareOne hfresh) ?_ ?_
    all_goals
      rw [ImportState.target_declareOne]
      rcases s.place_cases ctx m p with hshares | ⟨shell, henters⟩
      · rw [hshares.target]
      · rw [henters.target, Module.addType_tables]

theorem membersMade_steps (h : ReflTransGen (CallStep ctx) s s') (hs : s.Sound ctx)
    (hm : s.MembersMade ctx) : s'.MembersMade ctx :=
  ImportState.Sound.keeps CallStep.sound CallStep.membersMade h hs hm

end CallStep

/-! ## Outputs

The same is said of two kinds of outputs: those of links, and those of an import that a client
drives by calls. Both are reached by steps that caches can follow, so what is known of the caches
is known of either. -/

section Output

variable {settings : Settings} {inputs : List Input} {ctx : Context} {s : ImportState} {r : Linked}

/-- Finishing an import changes resources and bodies, and gives the output its identity. -/
theorem LinkedThrough.tables (h : LinkedThrough settings inputs ctx s r) :
    r.module = { s.target with
      resources := r.module.resources, methods := r.module.methods, mvid := r.module.mvid } := by
  rw [h.module, ImportState.finish_tables]

/-- All stages of a link are what caches can follow, up to the output. -/
theorem LinkedThrough.carries (h : LinkedThrough settings inputs ctx s r) :
    ctx.startImport.target.Carries r.module := by
  have hctx := (Registry.accepted_of_ofInputs h.inputs).1
  have hs := ctx.sound_startImport
  obtain ⟨s₁, hrun, hlate, -⟩ := Import.late_of_all hctx h.imported
  have hsteps := ((Import.reaches_run hctx).of_ok hrun).1
  have hcalls : ReflTransGen (CallStep ctx) ctx.startImport s₁ :=
    ReflTransGen.mono (fun _ _ ↦ .step) _ _ hsteps
  have himported := (CallStep.carries_steps hcalls hs).trans
    (Import.LateStep.carries_steps hlate (CallStep.sound_steps hcalls hs))
  rw [h.tables]
  exact himported.trans (.edit rfl rfl rfl rfl)

theorem LinkedThrough.entriesDistinct (h : LinkedThrough settings inputs ctx s r) :
    r.module.EntriesDistinct := by
  have hctx := (Registry.accepted_of_ofInputs h.inputs).1
  have hs := Import.sound_of_all hctx h.imported
  constructor
  case types => exact h.carries.namesDistinct
  case typeRefs => exact h.carries.nodup_typeRefs
  case memberRefs => exact h.carries.nodup_memberRefs
  case fields =>
    intro t _
    obtain ⟨s₁, hrun, hlate, -⟩ := Import.late_of_all hctx h.imported
    have himported := Import.imported_of_run hctx hrun
    -- no field is made after the types have been imported
    have hframe := Import.LateStep.lateFrame_steps hlate himported.placed
    have hmade := Import.membersMade_of_run hctx hrun
    rw [h.tables]
    exact hs.nodup_fields (fun f g ↦ hmade.fields_of_grows (Import.LateStep.grows_steps hlate)
      (congrArg List.length hframe.fields)) t

end Output

/-- Where names are distinct, a name leads to the one type that has it. -/
theorem Target.lookup?_eq_some_iff {t : Target} (h : Module.NamesDistinct t) {qualified : String}
    {id : TypeId} : t.lookup? qualified = some id
      ↔ id ∈ Module.typeIds t ∧ Module.qualifiedName t id = qualified := by
  constructor
  · exact fun hl ↦
      ⟨Module.mem_typeIds.mpr (Target.lookup?_lt hl), Target.qualifiedName_of_lookup? hl⟩
  · rintro ⟨hid, rfl⟩
    exact Target.lookup?_qualifiedName h (Module.mem_typeIds.mp hid)

theorem callSteps_of_run {ctx : Context} (hctx : ctx.registry.Accepted) {s s' : ImportState}
    (hs : Calls ctx ctx.startImport s) (hrun : Import.run ctx s = .ok () s') :
    ReflTransGen (CallStep ctx) ctx.startImport s' := by
  have hcall : Called ctx s s' := ⟨_, .run, trivial, by
    rw [Call.perform, Import.finalState, hrun]⟩
  exact Calls.callSteps hctx (.tail hs hcall) ctx.sound_startImport

/-- After any calls and an import of all modules, members and types can be told apart. -/
theorem methodsDistinct_of_callSteps {ctx : Context} {s : ImportState}
    (h : ReflTransGen (CallStep ctx) ctx.startImport s) : Target.MethodsDistinct s.target := by
  have hs := ctx.sound_startImport
  have hmade := CallStep.membersMade_steps h hs ctx.membersMade_startImport
  exact ⟨fun owner _ ↦ hmade.nodup_methods (CallStep.sound_steps h hs) owner,
    fun _ _ ↦ Target.lookup?_eq_some_iff (CallStep.carries_steps h hs).namesDistinct⟩

/-- No entry of an output is there twice, and after an import of all modules neither is a method,
and a name leads to the one type that has it. Both outputs can be built with caches, operation by
operation, and whichever way that is done, in the end the caches find exactly what is there. -/
theorem distinct_of_link_and_run (inputs : List Input) :
    (∀ settings r, link settings inputs = .ok r → r.module.EntriesDistinct
        ∧ ∃ ctx, Registry.ofInputs inputs = .ok ctx.registry
          ∧ Context.ofSettings settings ctx.registry = .ok ctx
          ∧ Target.Built r.module ctx.startCaches)
      ∧ ∀ ctx s s', Registry.ofInputs inputs = .ok ctx.registry →
        Calls ctx ctx.startImport s → Import.run ctx s = .ok () s' →
        Target.MethodsDistinct s'.target ∧ Target.Built s'.target ctx.startCaches := by
  refine ⟨fun settings r h ↦ ?_, fun ctx s s' hinputs hs hrun ↦ ?_⟩
  · obtain ⟨ctx, s, hthrough⟩ := link_eq_ok_iff.mp h
    exact ⟨hthrough.entriesDistinct, ctx, hthrough.inputs, hthrough.settings,
      hthrough.carries.built⟩
  · have hsteps := callSteps_of_run (Registry.accepted_of_ofInputs hinputs).1 hs hrun
    exact ⟨methodsDistinct_of_callSteps hsteps,
      (CallStep.carries_steps hsteps ctx.sound_startImport).built⟩

/-! ## Two modules that say the same -/

/-- A module with a tool that has a size and prints it. It refers to the outside for both, and
forwards one of the outside's names. -/
def meter (name : String) (size : String) : Module where
  name := name
  types := [{ nspace := "Kit", name := "Tool", visibility := .public, fields := [⟨0⟩]
              methods := [⟨0⟩] }]
  fields := [
    { name := size, access := .public, isStatic := false, fieldType := .reference ⟨0⟩
      declaring := ⟨0⟩ }]
  methods := [
    { name := "Print", access := .public, isStatic := false, params := [.reference ⟨1⟩]
      body := some { instructions := [⟨.callvirt, .method (.reference ⟨0⟩)⟩, .ret] }
      declaring := ⟨0⟩ }]
  typeRefs := [⟨.assembly ⟨0⟩, "System", "Int32"⟩, ⟨.assembly ⟨0⟩, "System", "Writer"⟩]
  memberRefs := [⟨.reference ⟨1⟩, "Write", .method [.reference ⟨0⟩] none⟩]
  assemblyRefs := [⟨"Sys", {}⟩]
  exportedTypes := [
    { nspace := "System", name := "Reader", implementation := .assembly ⟨0⟩, isForwarder := true }]

/-- A program and two libraries. One library calls the size as the program does. -/
def meters : List Input :=
  [⟨meter "App" "size", true⟩, ⟨meter "Lib" "size", false⟩, ⟨meter "Kit" "length", false⟩]

def metersLink : Context where
  registry := ⟨meters⟩
  policy := ⟨false, [], [], [], true⟩
  targetName := "App"

/-- The tool of the second library has been asked for first. -/
def metersBegun : ImportState :=
  Import.finalState (Call.perform metersLink (.importType ⟨2⟩ ⟨⟨0⟩, none, false⟩))
    metersLink.startImport

/-- Then everything has been imported. -/
def metersImported : ImportState := Import.finalState (Import.run metersLink) metersBegun

/-- The three tools share one place with both names of the size and one way to print it, and what
they refer to is referred to once. The caches find all of it. -/
theorem distinct_meters : (∃ r, link {} meters = .ok r ∧ r.module.EntriesDistinct
      ∧ r.module.types.length = 1 ∧ r.module.fields.map FieldDef.name = ["size", "length"]
      ∧ r.module.typeRefs.length = 3 ∧ r.module.memberRefs.length = 1)
    ∧ Registry.ofInputs meters = .ok metersLink.registry
    ∧ Calls metersLink metersLink.startImport metersBegun
    ∧ Import.run metersLink metersBegun = .ok () metersImported
    ∧ Target.MethodsDistinct metersImported.target
    ∧ metersImported.target.methods.map MethodDef.name = ["Print"]
    ∧ ∃ c, ReflTransGen CachedTarget.Step metersLink.startCaches c
      ∧ c.module = metersImported.target
      ∧ c.find? "Kit.Tool" = some ⟨0⟩
      ∧ c.typeRefs.find? ⟨.assembly ⟨0⟩, "System", "Int32"⟩ = some ⟨0⟩
      ∧ c.memberRefs.find? ⟨.reference ⟨1⟩, "Write", .method [.reference ⟨0⟩] none⟩ = some ⟨0⟩
      ∧ c.assemblyRefs.find? (Text.asciiLower "SYS") = some ⟨0⟩ := by
  obtain ⟨r, h, hentries⟩ := exists_link_of_decide {} meters
    (P := fun r ↦ r.module.types.length = 1
      ∧ r.module.fields.map FieldDef.name = ["size", "length"]
      ∧ r.module.typeRefs.length = 3 ∧ r.module.memberRefs.length = 1)
    (by decide +kernel)
  have hinputs : Registry.ofInputs meters = .ok metersLink.registry := rfl
  have hbegun : Calls metersLink metersLink.startImport metersBegun :=
    .single ⟨_, .importType ⟨2⟩ ⟨⟨0⟩, none, false⟩, ⟨Nat.zero_lt_one, nofun⟩, rfl⟩
  have hrun : Import.run metersLink metersBegun = .ok () metersImported :=
    Import.eq_ok_of_succeeds (by decide +kernel)
  obtain ⟨hlink, himport⟩ := distinct_of_link_and_run meters
  obtain ⟨hmethods, hbuilt⟩ := himport _ _ _ hinputs hbegun hrun
  obtain ⟨c, hsteps, hc⟩ := hbuilt.caches
  have hexact := hbuilt.exact c hsteps hc
  refine ⟨⟨r, h, (hlink _ _ h).1, hentries⟩, hinputs, hbegun, hrun, hmethods, by decide +kernel,
    c, hsteps, hc, ?_, ?_, ?_, ?_⟩
  · rw [hexact.types, hc]
    decide +kernel
  · rw [hexact.typeRefs, hc]
    decide +kernel
  · rw [hexact.memberRefs, hc]
    decide +kernel
  · refine (hexact.assemblyRefs _ _).mpr ?_
    rw [hc]
    exact ⟨⟨"Sys", {}⟩, by decide +kernel, by decide +kernel⟩

end ModuleLinker

import ModuleLinker.Proofs.Import.Run

/-!
# Members and their makers

A member of the output is made once, for a member of an input, when the type of the output has none
like it. So every field of the output has the type that the map makes of its maker's; and no two
fields of a type have one name, nor two methods one name and one signature.

Members are made by two kinds of steps. Whatever else a step does, members stay what they are.
-/

namespace ModuleLinker

open Relation (ReflTransGen)

namespace ImportState

/-- The field of an input that a field of the output was made for. -/
structure FieldMaker (s : ImportState) (ctx : Context) (m : ModuleId) (id place : FieldId) :
    Prop where
  entry : s.map.fieldOf? m id = some (.definition place)
  type : s.map.remapSig? m ((ctx.module m).field id).fieldType
    = some (Module.field s.target place).fieldType
  access : (Module.field s.target place).access = ((ctx.module m).field id).access
  isStatic : (Module.field s.target place).isStatic = ((ctx.module m).field id).isStatic

/-- Every field of the output has a maker, and members of one type can be told apart. -/
structure MembersMade (s : ImportState) (ctx : Context) : Prop where
  makers : ∀ f : FieldId, f.index < s.target.fields.length → ∃ m id, s.FieldMaker ctx m id f
  fields : ∀ f g : FieldId, f.index < s.target.fields.length → g.index < s.target.fields.length →
    (Module.field s.target f).declaring = (Module.field s.target g).declaring →
    (Module.field s.target f).name = (Module.field s.target g).name → f = g
  methods : ∀ d e : MethodId, d.index < s.target.methods.length →
    e.index < s.target.methods.length →
    (Module.method s.target d).declaring = (Module.method s.target e).declaring →
    (Module.method s.target d).name = (Module.method s.target e).name →
    (Module.method s.target d).params = (Module.method s.target e).params →
    (Module.method s.target d).ret = (Module.method s.target e).ret → d = e

variable {s s' : ImportState} {ctx : Context} {m : ModuleId}

theorem FieldMaker.mono {id place : FieldId} (h : s.FieldMaker ctx m id place) (hg : s.Grows s')
    (hin : place.index < s.target.fields.length) : s'.FieldMaker ctx m id place where
  entry := hg.map.fieldOf? h.entry
  type := by
    rw [hg.target.field hin]
    exact hg.map.remapSig? _ h.type
  access := by rw [hg.target.field hin, h.access]
  isStatic := by rw [hg.target.field hin, h.isStatic]

namespace MembersMade

theorem fields_of_grows (h : s.MembersMade ctx) (hg : s.Grows s')
    (hlen : s'.target.fields.length = s.target.fields.length) {f g : FieldId}
    (hf : f.index < s'.target.fields.length) (hg' : g.index < s'.target.fields.length)
    (howner : (Module.field s'.target f).declaring = (Module.field s'.target g).declaring)
    (hname : (Module.field s'.target f).name = (Module.field s'.target g).name) : f = g := by
  rw [hlen] at hf hg'
  rw [hg.target.field hf, hg.target.field hg'] at howner hname
  exact h.fields f g hf hg' howner hname

theorem methods_of_grows (h : s.MembersMade ctx) (hg : s.Grows s')
    (hlen : s'.target.methods.length = s.target.methods.length) {d e : MethodId}
    (hd : d.index < s'.target.methods.length) (he : e.index < s'.target.methods.length)
    (howner : (Module.method s'.target d).declaring = (Module.method s'.target e).declaring)
    (hname : (Module.method s'.target d).name = (Module.method s'.target e).name)
    (hparams : (Module.method s'.target d).params = (Module.method s'.target e).params)
    (hret : (Module.method s'.target d).ret = (Module.method s'.target e).ret) : d = e := by
  rw [hlen] at hd he
  rw [hg.outside_eq hd MethodDef.declaring fun _ ↦ rfl,
    hg.outside_eq he MethodDef.declaring fun _ ↦ rfl] at howner
  rw [hg.outside_eq hd MethodDef.name fun _ ↦ rfl,
    hg.outside_eq he MethodDef.name fun _ ↦ rfl] at hname
  rw [hg.outside_eq hd MethodDef.params fun _ ↦ rfl,
    hg.outside_eq he MethodDef.params fun _ ↦ rfl] at hparams
  rw [hg.outside_eq hd MethodDef.ret fun _ ↦ rfl,
    hg.outside_eq he MethodDef.ret fun _ ↦ rfl] at hret
  exact h.methods d e hd he howner hname hparams hret

theorem makers_of_grows (h : s.MembersMade ctx) (hg : s.Grows s') {f : FieldId}
    (hf : f.index < s.target.fields.length) : ∃ m id, s'.FieldMaker ctx m id f := by
  obtain ⟨m, id, hmaker⟩ := h.makers f hf
  exact ⟨m, id, hmaker.mono hg hf⟩

theorem of_grows (h : s.MembersMade ctx) (hg : s.Grows s')
    (hfields : s'.target.fields.length = s.target.fields.length)
    (hmethods : s'.target.methods.length = s.target.methods.length) : s'.MembersMade ctx where
  makers _ hf := h.makers_of_grows hg (hfields ▸ hf)
  fields _ _ hf hg' := h.fields_of_grows hg hfields hf hg'
  methods _ _ hd he := h.methods_of_grows hg hmethods hd he

/-- A field that is made is unlike the fields that its type has. -/
theorem apart_of_findField? (hs : s.Sound ctx) {t : TypeId} {name : String}
    (hnone : s.target.findField? t name = none) {f : FieldId}
    (hf : f.index < s.target.fields.length) (howner : (Module.field s.target f).declaring = t) :
    (Module.field s.target f).name ≠ name := by
  have hmem := hs.linked.mem_fields.mpr ⟨hf, howner⟩
  simpa using List.find?_eq_none.mp hnone f hmem

theorem apart_of_findMethod? (hs : s.Sound ctx) {t : TypeId} {name : String}
    {params : List TypeSig} {ret : Option TypeSig}
    (hnone : s.target.findMethod? t name params ret = none) {d : MethodId}
    (hd : d.index < s.target.methods.length) (howner : (Module.method s.target d).declaring = t) :
    ¬((Module.method s.target d).name = name ∧ (Module.method s.target d).params = params
      ∧ (Module.method s.target d).ret = ret) := by
  have hmem := hs.linked.mem_methods.mpr ⟨hd, howner⟩
  have hno := List.find?_eq_none.mp hnone d hmem
  simpa [and_assoc] using hno

theorem addField (h : s.MembersMade ctx) (hs : s.Sound ctx) {d : FieldDef} {map : SymbolMap}
    (hg : s.Grows { s with target := (s.target.addField d).2, map })
    (hnone : s.target.findField? d.declaring d.name = none)
    (hmaker : ∃ m id, ImportState.FieldMaker { s with target := (s.target.addField d).2, map } ctx m
      id ⟨s.target.fields.length⟩) :
    ImportState.MembersMade { s with target := (s.target.addField d).2, map } ctx := by
  have hcases : ∀ f : FieldId, f.index < (s.target.addField d).2.fields.length →
      f.index < s.target.fields.length ∨ f = ⟨s.target.fields.length⟩ := by
    intro f hf
    rw [Module.fields_addField, List.length_append, List.length_singleton] at hf
    exact (Nat.lt_succ_iff_lt_or_eq.mp hf).imp_right (congrArg FieldId.mk)
  have hnew : Module.field (s.target.addField d).2 ⟨s.target.fields.length⟩ = d := by
    rw [Module.field_addField, if_pos rfl]
  have hold : ∀ {f : FieldId}, f.index < s.target.fields.length →
      Module.field (s.target.addField d).2 f = Module.field s.target f := fun hf ↦
    hg.target.field hf
  refine ⟨fun f hf ↦ ?_, fun f g hf hg' howner hname ↦ ?_, fun d e hd he ↦
    h.methods_of_grows hg rfl hd he⟩
  · rcases hcases f hf with hf | rfl
    · exact h.makers_of_grows hg hf
    · exact hmaker
  · rcases hcases f hf with hf | rfl <;> rcases hcases g hg' with hg' | rfl
    · rw [hold hf, hold hg'] at howner hname
      exact h.fields f g hf hg' howner hname
    · rw [hold hf, hnew] at howner hname
      exact absurd hname (apart_of_findField? hs hnone hf howner)
    · rw [hold hg', hnew] at howner hname
      exact absurd hname.symm (apart_of_findField? hs hnone hg' howner.symm)
    · rfl

theorem addMethod (h : s.MembersMade ctx) (hs : s.Sound ctx) {d : MethodDef} {map : SymbolMap}
    (hg : s.Grows { s with target := (s.target.addMethod d).2, map })
    (hnone : s.target.findMethod? d.declaring d.name d.params d.ret = none) :
    ImportState.MembersMade { s with target := (s.target.addMethod d).2, map } ctx := by
  have hcases : ∀ e : MethodId, e.index < (s.target.addMethod d).2.methods.length →
      e.index < s.target.methods.length ∨ e = ⟨s.target.methods.length⟩ := by
    intro e he
    rw [Module.methods_addMethod, List.length_append, List.length_singleton] at he
    exact (Nat.lt_succ_iff_lt_or_eq.mp he).imp_right (congrArg MethodId.mk)
  have hnew : Module.method (s.target.addMethod d).2 ⟨s.target.methods.length⟩ = d := by
    rw [Module.method_addMethod, if_pos rfl]
  have hold : ∀ {e : MethodId}, e.index < s.target.methods.length →
      Module.method (s.target.addMethod d).2 e = Module.method s.target e := by
    intro e he
    rw [Module.method_addMethod, if_neg fun heq ↦ Nat.ne_of_lt he (congrArg MethodId.index heq)]
  refine ⟨fun f hf ↦ h.makers_of_grows hg hf, fun f g hf hg' ↦ h.fields_of_grows hg rfl hf hg',
    fun e e' he he' howner hname hparams hret ↦ ?_⟩
  rcases hcases e he with he | rfl <;> rcases hcases e' he' with he' | rfl
  · rw [hold he, hold he'] at howner hname hparams hret
    exact h.methods e e' he he' howner hname hparams hret
  · rw [hold he, hnew] at howner hname hparams hret
    exact absurd ⟨hname, hparams, hret⟩ (apart_of_findMethod? hs hnone he howner)
  · rw [hold he', hnew] at howner hname hparams hret
    exact absurd ⟨hname.symm, hparams.symm, hret.symm⟩
      (apart_of_findMethod? hs hnone he' howner.symm)
  · rfl

end MembersMade

end ImportState

namespace Import

open ImportState

variable {ctx : Context} {s s' : ImportState} {m : ModuleId}

theorem UseStep.membersMade (h : UseStep ctx s s') (hm : s.MembersMade ctx) :
    s'.MembersMade ctx :=
  hm.of_grows h.grows (congrArg List.length h.sameMembers.fields)
    (congrArg List.length h.sameMembers.methods)

theorem FillStep.membersMade (h : FillStep ctx m s s') (hs : s.Sound ctx)
    (hm : s.MembersMade ctx) : s'.MembersMade ctx := by
  have hg := h.grows
  cases h with
  | sign h => exact (UseStep.sign h).membersMade hm
  | hierarchy _ _ _ | shareField _ _ _ | shareMethod _ _ _ _ _ _ => exact hm.of_grows hg rfl rfl
  | @addField id owner t fieldType hfresh _ hnone htype =>
    refine hm.addField hs hg hnone ⟨m, id, SymbolMap.fieldOf?_eq_some.mpr ?_, ?_, ?_, ?_⟩
    · exact SymbolMap.find?_record_self hfresh _
    all_goals rw [Module.field_addField, if_pos rfl]
    exact hg.map.remapSig? _ htype
  | addMethod _ _ _ _ _ hnone => exact hm.addMethod hs hg hnone

theorem Step.membersMade (h : Step ctx s s') (hs : s.Sound ctx) (hm : s.MembersMade ctx) :
    s'.MembersMade ctx := by
  cases h with
  | shape h =>
    cases h with
    | fill h => exact h.membersMade hs hm
    | visit _ _ => exact hm.of_grows (.of_eq rfl rfl) rfl rfl
  | copy h =>
    have hg := h.grows
    cases h with
    | use h => exact h.membersMade hm
    | visit _ _ => exact hm.of_grows hg rfl rfl
    | setBody _ _ _ _ => exact hm.of_grows hg rfl (by simp)

theorem Step.membersMade_steps (h : ReflTransGen (Step ctx) s s') (hs : s.Sound ctx)
    (hm : s.MembersMade ctx) : s'.MembersMade ctx :=
  ImportState.Sound.keeps Step.sound Step.membersMade h hs hm

end Import

theorem Context.membersMade_startImport (ctx : Context) : ctx.startImport.MembersMade ctx :=
  ⟨fun _ hf ↦ (by cases hf), fun _ _ hf ↦ (by cases hf), fun _ _ hd ↦ by cases hd⟩

/-- After an import every field has a maker, and members can be told apart. -/
theorem Import.membersMade_of_run {ctx : Context} {s : ImportState}
    (hctx : ctx.registry.Accepted) (h : run ctx ctx.startImport = .ok () s) : s.MembersMade ctx :=
  Step.membersMade_steps ((reaches_run hctx).of_ok h).1 ctx.sound_startImport
    ctx.membersMade_startImport

end ModuleLinker

import ModuleLinker.Proofs.Import.Faithful

/-!
# Types are filled in once

A type is *filled* when its members are mapped and, if it came first to its place, the place has the
base and the interfaces that the map makes of its own. Once filled it stays so: only the first
source of a place writes these, and it writes the same again, since what the map makes of a
signature does not change.
-/

namespace ModuleLinker

open Relation (ReflTransGen)

namespace ImportState

/-- A place has the base and the interfaces of an input type, if that type came there first. -/
def Inherits (s : ImportState) (ctx : Context) (m : ModuleId) (id t : TypeId) : Prop :=
  (s.map.sourcesOf t).head? = some (m, id) →
    s.map.remapOption? m ((ctx.module m).typeDef id).base = some (Module.typeDef s.target t).base
      ∧ s.map.remapSigs? m ((ctx.module m).typeDef id).interfaces
        = some (Module.typeDef s.target t).interfaces

/-- All that a type says has been carried over, but for bodies and for methods left for later. -/
structure Filled (s : ImportState) (ctx : Context) (m : ModuleId) (id t : TypeId) : Prop where
  place : s.map.typeOf? m id = some t
  inherits : s.Inherits ctx m id t
  fields : ∀ f ∈ ((ctx.module m).typeDef id).fields, ∃ handle, s.map.fieldOf? m f = some handle
  methods : ∀ d ∈ ((ctx.module m).typeDef id).methods,
    Import.isFoldedLater ctx m id d = false → ∃ handle, s.map.methodOf? m d = some handle

variable {s s' : ImportState} {ctx : Context} {m : ModuleId} {id t : TypeId}

theorem Grows.head?_sourcesOf (hs : s.Grows s') (h : s.map.sourcesOf t ≠ []) :
    (s'.map.sourcesOf t).head? = (s.map.sourcesOf t).head? := by
  obtain ⟨rest, hrest⟩ := hs.sources t
  rw [← hrest, List.head?_append_of_ne_nil _ h]

theorem Sound.sourcesOf_ne_nil (hs : s.Sound ctx) (ht : s.map.typeOf? m id = some t) :
    s.map.sourcesOf t ≠ [] :=
  List.ne_nil_of_mem (hs.sources.mpr ht)

theorem Inherits.of_same (h : s.Inherits ctx m id t) (hs : s.Grows s')
    (hne : s.map.sourcesOf t ≠ [])
    (hbase : (Module.typeDef s'.target t).base = (Module.typeDef s.target t).base)
    (hinterfaces :
      (Module.typeDef s'.target t).interfaces = (Module.typeDef s.target t).interfaces) :
    s'.Inherits ctx m id t := by
  intro hfirst
  rw [hs.head?_sourcesOf hne] at hfirst
  obtain ⟨hb, hi⟩ := h hfirst
  exact ⟨by rw [hbase]; exact hs.map.remapOption? hb,
    by rw [hinterfaces]; exact hs.map.remapSigs? _ hi⟩

theorem Inherits.of_sameMembers (h : s.Inherits ctx m id t) (hsound : s.Sound ctx)
    (ht : s.map.typeOf? m id = some t) (hs : s.Grows s') (hsame : s.SameMembers s') :
    s'.Inherits ctx m id t := by
  have hin := hsound.typeOf?_lt ht
  exact h.of_same hs (hsound.sourcesOf_ne_nil ht) (hsame.type_eq hin TypeDef.base fun _ ↦ rfl)
    (hsame.type_eq hin TypeDef.interfaces fun _ ↦ rfl)

end ImportState

namespace Import

open ImportState

variable {ctx : Context} {s s' : ImportState} {l m : ModuleId} {id t : TypeId}

theorem FillStep.inherits (h : FillStep ctx l s s') (hs : s.Sound ctx)
    (ht : s.map.typeOf? m id = some t) (hi : s.Inherits ctx m id t) :
    s'.Inherits ctx m id t := by
  have hg := h.grows
  have hne := hs.sourcesOf_ne_nil ht
  cases h with
  | sign h => exact hi.of_sameMembers hs ht hg h.sameMembers
  | @hierarchy id' t' base interfaces hfirst hbase hinterfaces =>
    by_cases heq : t = t'
    · subst heq
      intro hfirst'
      -- the first source is the one that writes, and it writes what the map makes of its own
      obtain ⟨rfl, rfl⟩ : l = m ∧ id' = id := by
        have hsame := hfirst.symm.trans hfirst'
        simpa using hsame
      rw [Module.typeDef_updateType, if_pos ⟨rfl, hs.typeOf?_lt ht⟩]
      exact ⟨hbase, hinterfaces⟩
    · refine hi.of_same hg hne ?_ ?_
      · rw [Module.typeDef_updateType, if_neg fun hc ↦ heq hc.1]
      · rw [Module.typeDef_updateType, if_neg fun hc ↦ heq hc.1]
  | shareField _ _ _ | shareMethod _ _ _ _ _ _ => exact hi.of_same hg hne rfl rfl
  | addField _ _ _ _ =>
    refine hi.of_same hg hne ?_ ?_
    · rw [Module.typeDef_addField]
      split <;> rfl
    · rw [Module.typeDef_addField]
      split <;> rfl
  | addMethod _ _ _ _ _ _ =>
    refine hi.of_same hg hne ?_ ?_
    · rw [Module.typeDef_addMethod]
      split <;> rfl
    · rw [Module.typeDef_addMethod]
      split <;> rfl

theorem Step.inherits (h : Step ctx s s') (hs : s.Sound ctx) (ht : s.map.typeOf? m id = some t)
    (hi : s.Inherits ctx m id t) : s'.Inherits ctx m id t := by
  have hg := h.grows
  cases h with
  | shape h =>
    cases h with
    | fill h => exact h.inherits hs ht hi
    | visit _ _ => exact hi
  | copy h =>
    cases h with
    | use h => exact hi.of_sameMembers hs ht hg h.sameMembers
    | visit _ _ => exact hi
    | setBody _ _ _ _ => exact hi.of_same hg (hs.sourcesOf_ne_nil ht) rfl rfl

theorem Step.filled (h : Step ctx s s') (hs : s.Sound ctx) (hf : s.Filled ctx m id t) :
    s'.Filled ctx m id t where
  place := h.grows.map.typeOf? hf.place
  inherits := h.inherits hs hf.place hf.inherits
  fields f hmem := by
    obtain ⟨handle, hh⟩ := hf.fields f hmem
    exact ⟨handle, h.grows.map.fieldOf? hh⟩
  methods d hmem hkept := by
    obtain ⟨handle, hh⟩ := hf.methods d hmem hkept
    exact ⟨handle, h.grows.map.methodOf? hh⟩

theorem Step.filled_steps (h : ReflTransGen (Step ctx) s s') (hs : s.Sound ctx)
    (hf : s.Filled ctx m id t) : s'.Filled ctx m id t :=
  ImportState.Sound.keeps Step.sound Step.filled h hs hf

/-! ## Runs that fill in one type

Filling in a type goes through its base and its interfaces, its fields and its methods. All of
that is about one module, and the sweep later needs to know what it did not do: look at another
type, or make a method for another module. -/

/-- The members that filling in a type enters, in the order in which it does so. -/
def membersOf (ctx : Context) (m : ModuleId) (id : TypeId) : List Symbol :=
  ((ctx.module m).typeDef id).fields.map .field
    ++ (((ctx.module m).typeDef id).methods.filter fun d ↦ !isFoldedLater ctx m id d).map .method

/-- Filling in a type of a module: the types that have been looked at stay the same, and only the
module becomes the maker of a method of the output. -/
structure FillFrame (m : ModuleId) (s s' : ImportState) : Prop where
  populated : s'.populated = s.populated
  copied : s'.copied = s.copied
  origins : ∀ {l d}, s'.map.methodOrigin? d = some l → s.map.methodOrigin? d = some l ∨ l = m
  bodies : (∀ d, (Module.method s.target d).body = none) →
    ∀ d, (Module.method s'.target d).body = none

theorem FillFrame.refl (m : ModuleId) (s : ImportState) : FillFrame m s s :=
  ⟨rfl, rfl, .inl, fun h ↦ h⟩

theorem FillFrame.trans {s'' : ImportState} (h : FillFrame m s s') (h' : FillFrame m s' s'') :
    FillFrame m s s'' where
  populated := h'.populated.trans h.populated
  copied := h'.copied.trans h.copied
  origins ho := (h'.origins ho).elim h.origins .inr
  bodies hnone := h'.bodies (h.bodies hnone)

theorem fillFrame_of_sameMembers (h : s.SameMembers s') : FillFrame m s s' where
  populated := h.populated
  copied := h.copied
  origins ho := .inl (by rwa [h.origins] at ho)
  bodies hnone d := by
    rw [h.method_eq]
    exact hnone d

theorem FillStep.frame (h : FillStep ctx m s s') : FillFrame m s s' := by
  cases h with
  | sign h => exact fillFrame_of_sameMembers h.sameMembers
  | hierarchy _ _ _ | shareField _ _ _ | addField _ _ _ _ | shareMethod _ _ _ _ _ _ =>
    exact ⟨rfl, rfl, .inl, fun hnone d ↦ hnone d⟩
  | addMethod _ _ _ _ _ _ =>
    refine ⟨rfl, rfl, fun {l d} ho ↦ ?_, fun hnone d ↦ ?_⟩
    · exact (SymbolMap.methodOrigin?_recordMethodOrigin_cases ho).imp_right And.right
    · rw [Module.method_addMethod]
      split
      · rfl
      · exact hnone d

theorem FillStep.grows_steps (h : ReflTransGen (FillStep ctx m) s s') : s.Grows s' :=
  .of_steps (fun _ _ ↦ FillStep.grows) h

theorem FillStep.sound_steps (h : ReflTransGen (FillStep ctx m) s s') (hs : s.Sound ctx) :
    s'.Sound ctx :=
  .of_steps FillStep.sound h hs

theorem FillStep.frame_steps (h : ReflTransGen (FillStep ctx m) s s') : FillFrame m s s' := by
  induction h with
  | refl => exact .refl m s
  | tail _ hstep ih => exact ih.trans hstep.frame

theorem FillStep.inherits_steps (h : ReflTransGen (FillStep ctx l) s s') (hs : s.Sound ctx)
    (ht : s.map.typeOf? m id = some t) (hi : s.Inherits ctx m id t) : s'.Inherits ctx m id t := by
  induction h with
  | refl => exact hi
  | tail hsteps hstep ih =>
    exact hstep.inherits (FillStep.sound_steps hsteps hs)
      ((FillStep.grows_steps hsteps).map.typeOf? ht) ih

section Accepted

variable (hctx : ctx.registry.Accepted)
include hctx

theorem reaches_importHierarchy (hs : s.Sound ctx) (ht : s.map.typeOf? m id = some t) :
    Reaches (FillStep ctx m) s (importHierarchy ctx m id t) fun _ s' ↦
      s'.Inherits ctx m id t ∧ EntersInOrder ctx m [] s s' := by
  have hhas : ∀ x ∈ (((ctx.module m).typeDef id).base.toList
      ++ ((ctx.module m).typeDef id).interfaces).flatMap TypeSig.ids, (ctx.module m).Has x :=
    fun x hx ↦ (Module.closed_of_accepted (Context.fault?_module hctx m)).has_of_typeDef
      (List.mem_append_right _ hx)
  rw [List.flatMap_append] at hhas
  unfold importHierarchy
  refine .ofMap_bind ?_
  split
  · next hfirst =>
    refine .bind ((reaches_importSig? hctx hs _ fun x hx ↦ hhas x (List.mem_append_left _ hx)).lift
      fun _ _ ↦ .sign) fun base s₁ _ h ↦ ?_
    obtain ⟨hs₁, hbase⟩ := h
    refine .bind ((reaches_importSigs hctx _ (SignStep.sound_steps hs₁ hs) ?_).lift
      fun _ _ ↦ .sign) fun interfaces s₂ _ h ↦ ?_
    · rw [TypeSig.idsOf_eq_flatMap]
      exact fun x hx ↦ hhas x (List.mem_append_right _ hx)
    obtain ⟨hs₂, hinterfaces⟩ := h
    have hg := SignStep.grows_steps (hs₁.trans hs₂)
    have hbase₂ := (SignStep.grows_steps hs₂).map.remapOption? hbase
    have hfirst₂ : (s₂.map.sourcesOf t).head? = some (m, id) := by
      rw [hg.head?_sourcesOf (hs.sourcesOf_ne_nil ht), hfirst]
    have ht₂ : t.index < s₂.target.types.length :=
      Nat.lt_of_lt_of_le (hs.typeOf?_lt ht) (hg.target.within .type)
    have hstep : FillStep ctx m s₂ _ := .hierarchy hfirst₂ hbase₂ hinterfaces
    refine .run rfl (.single hstep) ⟨fun _ ↦ ?_,
      (EntersInOrder.of_signs (hs₁.trans hs₂)).append (.nil (.single hstep) fun _ ↦ rfl)⟩
    rw [Module.typeDef_updateType, if_pos ⟨rfl, ht₂⟩]
    exact ⟨hbase₂, hinterfaces⟩
  · next hnot =>
    exact .pure ⟨fun hfirst ↦ absurd hfirst hnot, .nil .refl fun _ ↦ rfl⟩

theorem reaches_importFields (hs : s.Sound ctx) (ht : s.map.typeOf? m id = some t) :
    Reaches (FillStep ctx m) s
      (((ctx.module m).typeDef id).fields.forM fun field ↦ importField ctx m field t) fun _ s' ↦
        EntersInOrder ctx m (((ctx.module m).typeDef id).fields.map .field) s s' := by
  refine .forM (J := fun done s' ↦ EntersInOrder ctx m (done.map .field) s s')
    (.nil .refl fun _ ↦ rfl) fun done f s' hpre hs' hdone ↦ ?_
  have hlisted : Listed ctx s' m id t fun d ↦ f ∈ d.fields :=
    ⟨(FillStep.grows_steps hs').map.typeOf? ht, mem_of_initial hpre⟩
  refine (reaches_importField hctx (FillStep.sound_steps hs' hs) hlisted).imp fun _ s'' _ h ↦ ?_
  rw [List.map_append]
  exact hdone.append h

theorem reaches_importMethods (hs : s.Sound ctx) (ht : s.map.typeOf? m id = some t) :
    Reaches (FillStep ctx m) s (((ctx.module m).typeDef id).methods.forM fun method ↦ do
      unless isFoldedLater ctx m id method do importMethod ctx m method t) fun _ s' ↦
        EntersInOrder ctx m ((((ctx.module m).typeDef id).methods.filter fun d ↦
          !isFoldedLater ctx m id d).map .method) s s' := by
  refine .forM (J := fun done s' ↦ EntersInOrder ctx m ((done.filter fun d ↦
    !isFoldedLater ctx m id d).map .method) s s') (.nil .refl fun _ ↦ rfl)
    fun done d s' hpre hs' hdone ↦ ?_
  have hlisted : Listed ctx s' m id t fun o ↦ d ∈ o.methods :=
    ⟨(FillStep.grows_steps hs').map.typeOf? ht, mem_of_initial hpre⟩
  rw [List.filter_append, List.map_append]
  cases hkept : isFoldedLater ctx m id d with
  | true => exact .pure (by simpa [hkept] using hdone)
  | false =>
    refine (reaches_importMethod hctx (FillStep.sound_steps hs' hs) hlisted hkept).imp
      fun _ s'' _ h ↦ ?_
    simpa [hkept] using hdone.append h

private theorem reaches_members (hs : s.Sound ctx) (hid : id.index < (ctx.module m).types.length) :
    Reaches (FillStep ctx m) s (do
      let target ← ensureDeclared ctx m id
      importHierarchy ctx m id target
      ((ctx.module m).typeDef id).fields.forM fun field ↦ importField ctx m field target
      ((ctx.module m).typeDef id).methods.forM fun method ↦ do
        unless isFoldedLater ctx m id method do importMethod ctx m method target)
      fun _ s' ↦ (∃ t, s'.Filled ctx m id t) ∧ EntersInOrder ctx m (membersOf ctx m id) s s' := by
  refine .bind ((reaches_ensureDeclared hctx hs hid).mono (fun _ _ h ↦ .sign (.place h))
    fun t s₁ hs₁ ht ↦ And.intro (SignStep.of_places hs₁) ht) fun t s₁ _ h ↦ ?_
  obtain ⟨hs₁, ht⟩ := h
  have hsound₁ := SignStep.sound_steps hs₁ hs
  refine .bind (reaches_importHierarchy hctx hsound₁ ht) fun _ s₂ hs₂ h ↦ ?_
  obtain ⟨hinherits, hnone⟩ := h
  have hsound₂ := FillStep.sound_steps hs₂ hsound₁
  have ht₂ := (FillStep.grows_steps hs₂).map.typeOf? ht
  -- each stage leaves standing what those before have entered
  refine .bind (reaches_importFields hctx hsound₂ ht₂) fun _ s₃ hs₃ hfields ↦ ?_
  have hsound₃ := FillStep.sound_steps hs₃ hsound₂
  have ht₃ := (FillStep.grows_steps hs₃).map.typeOf? ht₂
  refine (reaches_importMethods hctx hsound₃ ht₃).imp fun _ s₄ hs₄ hmethods ↦ ?_
  have hall : EntersInOrder ctx m (membersOf ctx m id) s s₄ :=
    ((EntersInOrder.of_signs hs₁).append hnone).append (hfields.append hmethods)
  have hsound₄ := FillStep.sound_steps hs₄ hsound₃
  refine ⟨⟨t, (FillStep.grows_steps hs₄).map.typeOf? ht₃,
    FillStep.inherits_steps (hs₃.trans hs₄) hsound₂ ht₂ hinherits, fun f hf ↦ ?_,
    fun d hd hkept ↦ ?_⟩, hall⟩
  · refine Option.ne_none_iff_exists'.mp fun hnone ↦ hall.entered (.field f) ?_
      (hsound₄.find?_field_eq_none hnone)
    exact List.mem_append_left _ (List.mem_map_of_mem hf)
  · refine Option.ne_none_iff_exists'.mp fun hnone ↦ hall.entered (.method d) ?_
      (hsound₄.find?_method_eq_none hnone)
    exact List.mem_append_right _ (List.mem_map_of_mem (List.mem_filter.mpr ⟨hd, by simp [hkept]⟩))

/-- Filling in a type that has not been looked at fills it, in order, and only it is looked at. -/
theorem reaches_populate (hs : s.Sound ctx) (hid : id.index < (ctx.module m).types.length) :
    Reaches (ShapeStep ctx) s (populate ctx m id) fun _ s' ↦ (m, id) ∉ s.populated →
      (∃ t, s'.Filled ctx m id t)
        ∧ EntersInOrder ctx m (membersOf ctx m id)
          { s with populated := (m, id) :: s.populated } s'
        ∧ FillFrame m { s with populated := (m, id) :: s.populated } s' := by
  unfold populate
  refine .get_bind ?_
  split
  · next hmem => exact .pure fun hnot ↦ absurd (List.contains_iff_mem.mp hmem) hnot
  · have hsound := (ShapeStep.visit m id).sound hs
    refine .run_bind rfl (.single (.visit m id)) ?_
    refine ((reaches_members hctx hsound hid).lift fun _ _ ↦ .fill).imp fun _ s' _ h _ ↦ ?_
    exact ⟨h.2.1, h.2.2, FillStep.frame_steps h.1⟩

end Accepted

end Import

end ModuleLinker

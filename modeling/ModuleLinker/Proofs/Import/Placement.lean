import ModuleLinker.Proofs.Import.Run

/-!
# Who decides a place

Several input types may share a place of the output. The one that came to it first decides its
visibility; a type that is hidden shares no place that was there before it, so it decides its own.
The primary comes before all others: if its links agree and its names are distinct, each of its
types has a place of its own, under its own name.

Declaring types is all that has a part in this. Every other step of an import leaves the sources and
the number of places alone, and a place keeps its name and its visibility while the output grows. So
each invariant has one step to look at, which either finds a place or enters one under a free name.
-/

namespace ModuleLinker

open Relation (ReflTransGen)

/-- The visibility of a type in the output when it decides its place. -/
def Context.shownAs (ctx : Context) (m : ModuleId) (id : TypeId) : Visibility :=
  if ctx.internalizesType m id then ((ctx.module m).typeDef id).visibility.internalized
  else ((ctx.module m).typeDef id).visibility

/-! ## Steps that place no type -/

namespace ImportState

/-- The places are the same, and so are the types mapped onto them. -/
structure SamePlaces (s s' : ImportState) : Prop where
  sources : s'.map.sources = s.map.sources
  types : s'.target.types.length = s.target.types.length

variable {s s' : ImportState} {ctx : Context} {m : ModuleId}

theorem SamePlaces.sourcesOf_eq (h : s.SamePlaces s') (t : TypeId) :
    s'.map.sourcesOf t = s.map.sourcesOf t := by
  rw [SymbolMap.sourcesOf, h.sources]
  rfl

theorem SamePlaces.typeOf?_iff (h : s.SamePlaces s') (hs : s.Sound ctx) (hs' : s'.Sound ctx)
    {id t : TypeId} : s'.map.typeOf? m id = some t ↔ s.map.typeOf? m id = some t := by
  rw [← hs'.sources, ← hs.sources, h.sourcesOf_eq]

end ImportState

namespace Import

open ImportState

variable {ctx : Context} {s s' : ImportState} {m : ModuleId}

theorem PlaceStep.places (h : PlaceStep ctx s s') :
    (∃ m, Declares ctx m s s') ∨ s.SamePlaces s' := by
  cases h with
  | declare h => exact .inl ⟨_, h⟩
  | refer _ _ =>
    refine .inr ⟨rfl, ?_⟩
    rw [Target.referAssembly_tables]
  | @intern r _ =>
    refine .inr ⟨rfl, ?_⟩
    rcases s.target.internTypeRef_cases r with ⟨heq, -⟩ | ⟨-, heq⟩ <;> rw [heq]
    rfl

theorem SignStep.places (h : SignStep ctx s s') : (∃ m, Declares ctx m s s') ∨ s.SamePlaces s' := by
  cases h with
  | place h => exact h.places
  | resolve _ _ _ _ _ => exact .inr ⟨rfl, rfl⟩

theorem UseStep.places (h : UseStep ctx s s') : (∃ m, Declares ctx m s s') ∨ s.SamePlaces s' := by
  cases h with
  | sign h => exact h.places
  | @intern r _ =>
    refine .inr ⟨rfl, ?_⟩
    rcases s.target.internMemberRef_cases r with ⟨heq, -⟩ | ⟨-, heq⟩ <;> rw [heq]
    rfl
  | resolve _ _ _ _ => exact .inr ⟨rfl, rfl⟩

theorem Step.places (h : Step ctx s s') : (∃ m, Declares ctx m s s') ∨ s.SamePlaces s' := by
  cases h with
  | shape h =>
    cases h with
    | visit _ _ => exact .inr ⟨rfl, rfl⟩
    | fill h =>
      cases h with
      | sign h => exact h.places
      | hierarchy _ _ _ | addField _ _ _ _ | addMethod _ _ _ _ _ _ => exact .inr ⟨rfl, by simp⟩
      | shareField _ _ _ | shareMethod _ _ _ _ _ _ => exact .inr ⟨rfl, rfl⟩
  | copy h =>
    cases h with
    | use h => exact h.places
    | visit _ _ | setBody _ _ _ _ => exact .inr ⟨rfl, rfl⟩

/-- What is listed in a type that has a place keeps having one. -/
theorem Step.nestedPlaced (h : Step ctx s s') (hs : s.Sound ctx)
    (hp : ∀ m, s.NestedPlaced ctx m) (m : ModuleId) : s'.NestedPlaced ctx m := by
  rcases h.places with ⟨l, hdeclares⟩ | hsame
  · by_cases hm : m = l
    · subst hm
      exact hdeclares.nested (hp m)
    · -- types of one module are declared, and the others stay as they are
      have hother : ∀ id, s'.map.typeOf? m id = s.map.typeOf? m id := fun id ↦ by
        rw [SymbolMap.typeOf?, DeclareStep.find?_eq_steps hdeclares.steps m (by simp [hm])]
        rfl
      intro o t n ho hn
      rw [hother] at ho
      rw [hother]
      exact hp m o t n ho hn
  · intro o t n ho hn
    obtain ⟨t', ht'⟩ := hp m o t n ((hsame.typeOf?_iff hs (h.sound hs)).mp ho) hn
    exact ⟨t', h.grows.map.typeOf? ht'⟩

theorem Step.nestedPlaced_steps (h : ReflTransGen (Step ctx) s s') (hs : s.Sound ctx)
    (hp : ∀ m, s.NestedPlaced ctx m) : ∀ m, s'.NestedPlaced ctx m :=
  ImportState.Sound.keeps Step.sound Step.nestedPlaced h hs hp

end Import

/-! ## The first source

The first source of a place never changes. So whatever it decides has to be shown once, when the
place is entered, and for the type that enters it. -/

namespace ImportState

/-- Every place has a name of its own and looks like the type that came to it first; a hidden type
is first in its place. The reserved types have a place of the reserved name, and no other type joins
them there. -/
structure Placement (s : ImportState) (ctx : Context) : Prop where
  names : Module.NamesDistinct s.target
  sourced : ∀ t : TypeId, t.index < s.target.types.length → s.map.sourcesOf t ≠ []
  visibility : ∀ {t m id}, (s.map.sourcesOf t).head? = some (m, id) →
    ((ctx.module m).typeDef id).isModuleType = false →
    (s.target.typeDef t).visibility = ctx.shownAs m id
  hidden : ∀ {m id t}, s.map.typeOf? m id = some t → ctx.internalizesType m id = true →
    ((ctx.module m).typeDef id).isModuleType = false →
    (s.map.sourcesOf t).head? = some (m, id)
  reserved : ∀ {t m id}, (s.map.sourcesOf t).head? = some (m, id) →
    ((ctx.module m).typeDef id).isModuleType = true →
    Module.qualifiedName s.target t = moduleTypeName
  apart : ∀ {m id t l o}, s.map.typeOf? m id = some t →
    ((ctx.module m).typeDef id).isModuleType = false →
    (s.map.sourcesOf t).head? = some (l, o) → ((ctx.module l).typeDef o).isModuleType = false

variable {s s' : ImportState} {ctx : Context} {m : ModuleId} {p : Pending}

theorem Sound.fault?_target (hs : s.Sound ctx) : Module.fault? s.target = none :=
  Module.validate_eq_ok_iff.mp (Module.validate_of_linked hs.linked hs.closed)

theorem Grows.qualifiedName_eq (h : s.Grows s') (hs : s.Sound ctx) (hs' : s'.Sound ctx)
    {t : TypeId} (ht : t.index < s.target.types.length) :
    Module.qualifiedName s'.target t = Module.qualifiedName s.target t :=
  h.target.qualifiedName_eq hs.linked hs.fault?_target hs'.fault?_target ht

theorem Grows.visibility_eq (h : s.Grows s') {t : TypeId} (ht : t.index < s.target.types.length) :
    (Module.typeDef s'.target t).visibility = (Module.typeDef s.target t).visibility := by
  have houtside := congrArg TypeDef.visibility (h.target.typeDef ht)
  exact houtside

theorem Sound.lt_of_head? (hs : s.Sound ctx) {t id : TypeId}
    (h : (s.map.sourcesOf t).head? = some (m, id)) : t.index < s.target.types.length :=
  hs.typeOf?_lt (hs.sources.mp (List.mem_of_head? h))

theorem Sound.sourcesOf_eq_nil (hs : s.Sound ctx) {t : TypeId}
    (ht : ¬t.index < s.target.types.length) : s.map.sourcesOf t = [] := by
  refine List.eq_nil_iff_forall_not_mem.mpr fun ⟨m, id⟩ hmem ↦ ht ?_
  exact hs.typeOf?_lt (hs.sources.mp hmem)

theorem Enters.head?_sourcesOf {shell : TypeDef} (h : s.Enters ctx m p shell) (hs : s.Sound ctx) :
    ((s.declareOne ctx m p).2.map.sourcesOf ⟨s.target.types.length⟩).head? = some (m, p.type) := by
  rw [sourcesOf_declareOne, hs.sourcesOf_eq_nil (Nat.lt_irrefl _), h.place]
  simp

theorem Enters.declaring_lt {shell : TypeDef} (h : s.Enters ctx m p shell)
    (hin : p.Within ctx m s) : ∀ o, shell.declaring = some o → o.index < s.target.types.length :=
  fun o ho ↦ hin.container o (h.isShell.declaring ho)

theorem Enters.qualifiedName {shell : TypeDef} (h : s.Enters ctx m p shell) (hs : s.Sound ctx)
    (hs' : (s.declareOne ctx m p).2.Sound ctx) (hfits : p.Fits ctx m s) :
    Module.qualifiedName (s.declareOne ctx m p).2.target ⟨s.target.types.length⟩
      = s.target.nameIn shell.declaring shell.nspace shell.name := by
  have hfault := hs'.fault?_target
  rw [target_declareOne, h.target] at hfault ⊢
  exact Target.qualifiedName_addType (h.declaring_lt (hs.within hfits)) hs.linked hs.fault?_target
    hfault

/-- A type is entered under a free name only, so names stay distinct. -/
theorem namesDistinct_declareOne (hs : s.Sound ctx) (hfresh : s.map.find? m (.type p.type) = none)
    (hin : p.Within ctx m s) (hnames : Module.NamesDistinct s.target) :
    Module.NamesDistinct (s.declareOne ctx m p).2.target := by
  have hfault := (hs.enter hfresh hin).fault?_target
  rw [target_declareOne] at hfault ⊢
  rcases s.place_cases ctx m p with hshares | ⟨shell, henters⟩
  · rwa [hshares.target]
  · rw [henters.target] at hfault ⊢
    exact Target.namesDistinct_addType (henters.declaring_lt hin) hs.linked hs.fault?_target
      hfault hnames henters.free

theorem Grows.namesDistinct (hg : s.Grows s') (hs : s.Sound ctx) (hs' : s'.Sound ctx)
    (htypes : s'.target.types.length = s.target.types.length)
    (hnames : Module.NamesDistinct s.target) : Module.NamesDistinct s'.target := by
  intro i j hi hj heq
  rw [htypes] at hi hj
  rw [hg.qualifiedName_eq hs hs' hi, hg.qualifiedName_eq hs hs' hj] at heq
  exact hnames i j hi hj heq

namespace Placement

theorem of_samePlaces (h : s.Placement ctx) (hs : s.Sound ctx) (hs' : s'.Sound ctx)
    (hg : s.Grows s') (hsame : s.SamePlaces s') : s'.Placement ctx where
  names := hg.namesDistinct hs hs' hsame.types h.names
  sourced t ht := by
    rw [hsame.types] at ht
    rw [hsame.sourcesOf_eq]
    exact h.sourced t ht
  visibility hhead hmod := by
    rw [hsame.sourcesOf_eq] at hhead
    rw [hg.visibility_eq (hs.lt_of_head? hhead)]
    exact h.visibility hhead hmod
  hidden ht hhide hmod := by
    rw [hsame.sourcesOf_eq]
    exact h.hidden ((hsame.typeOf?_iff hs hs').mp ht) hhide hmod
  reserved hhead hmod := by
    rw [hsame.sourcesOf_eq] at hhead
    rw [hg.qualifiedName_eq hs hs' (hs.lt_of_head? hhead)]
    exact h.reserved hhead hmod
  apart ht hmod hhead := by
    rw [hsame.sourcesOf_eq] at hhead
    exact h.apart ((hsame.typeOf?_iff hs hs').mp ht) hmod hhead

end Placement

end ImportState

namespace Import

open ImportState

variable {ctx : Context} {s s' : ImportState} {m : ModuleId}

theorem DeclareStep.namesDistinct (h : DeclareStep ctx m s s') (hs : s.Sound ctx)
    (hnames : Module.NamesDistinct s.target) : Module.NamesDistinct s'.target := by
  cases h with
  | declare hfresh hfits => exact namesDistinct_declareOne hs hfresh (hs.within hfits) hnames

theorem DeclareStep.sourced_all (h : DeclareStep ctx m s s')
    (hp : ∀ t : TypeId, t.index < s.target.types.length → s.map.sourcesOf t ≠ []) :
    ∀ t : TypeId, t.index < s'.target.types.length → s'.map.sourcesOf t ≠ [] := by
  intro t ht
  rcases h.sourced ht with hold | hnew
  · exact fun hnil ↦ hp t hold (List.prefix_nil.mp (hnil ▸ h.grows.sources t))
  · exact hnew

/-- What is known of the first source of a place stays known, so the places that are left to look at
are new, and first in them is the type that has entered them. -/
theorem DeclareStep.of_head? (h : DeclareStep ctx m s s') (hs : s.Sound ctx)
    (hp : ∀ t : TypeId, t.index < s.target.types.length → s.map.sourcesOf t ≠ [])
    {t id : TypeId} {l : ModuleId} (hhead : (s'.map.sourcesOf t).head? = some (l, id)) :
    t.index < s.target.types.length ∧ (s.map.sourcesOf t).head? = some (l, id)
      ∨ t = ⟨s.target.types.length⟩ ∧ ∃ p shell, l = m ∧ id = p.type ∧ p.Fits ctx m s
        ∧ s.Enters ctx m p shell ∧ s' = (s.declareOne ctx m p).2 := by
  have hlt := (h.sound hs).lt_of_head? hhead
  by_cases hold : t.index < s.target.types.length
  · rw [h.grows.head?_sourcesOf (hp t hold)] at hhead
    exact .inl ⟨hold, hhead⟩
  · cases h with
    | @declare p hfresh hfits =>
      rcases s.place_cases ctx m p with hshares | ⟨shell, henters⟩
      · rw [target_declareOne, hshares.target] at hlt
        exact absurd hlt hold
      · rw [target_declareOne, henters.target, Module.length_types_addType] at hlt
        obtain rfl : t = ⟨s.target.types.length⟩ := congrArg TypeId.mk (by omega)
        rw [henters.head?_sourcesOf hs] at hhead
        cases hhead
        exact .inr ⟨rfl, p, shell, rfl, rfl, hfits, henters, rfl⟩

/-- What is known of the place of a type stays known, so the only type that is left to look at is
the one that has been declared. -/
theorem DeclareStep.of_typeOf? (h : DeclareStep ctx m s s') {t id : TypeId} {l : ModuleId}
    (ht : s'.map.typeOf? l id = some t) :
    s.map.typeOf? l id = some t
      ∨ ∃ p, l = m ∧ id = p.type ∧ p.Fits ctx m s ∧ t = (s.place ctx m p).1
        ∧ s' = (s.declareOne ctx m p).2 := by
  cases h with
  | @declare p hfresh hfits =>
    rcases (typeOf?_declareOne_iff hfresh).mp ht with hold | ⟨heq, rfl⟩
    · exact .inl hold
    · cases heq
      exact .inr ⟨p, rfl, rfl, hfits, rfl, rfl⟩

/-- A new place looks like the type that entered it. -/
theorem DeclareStep.visibility (h : DeclareStep ctx m s s') (hs : s.Sound ctx)
    (hp : s.Placement ctx) {t id : TypeId} {l : ModuleId}
    (hhead : (s'.map.sourcesOf t).head? = some (l, id))
    (hmod : ((ctx.module l).typeDef id).isModuleType = false) :
    (s'.target.typeDef t).visibility = ctx.shownAs l id := by
  rcases h.of_head? hs hp.sourced hhead with
    ⟨hold, hhead⟩ | ⟨rfl, p, shell, rfl, rfl, hfits, henters, rfl⟩
  · rw [h.grows.visibility_eq hold]
    exact hp.visibility hhead hmod
  · rw [target_declareOne, henters.target,
      Module.typeDef_addType _ (henters.declaring_lt (hs.within hfits)), if_pos rfl,
      henters.visibility hmod, hfits.hide]
    rfl

/-- A hidden type enters a place of its own. -/
theorem DeclareStep.hidden (h : DeclareStep ctx m s s') (hs : s.Sound ctx)
    (hp : s.Placement ctx) {t id : TypeId} {l : ModuleId}
    (ht : s'.map.typeOf? l id = some t) (hhide : ctx.internalizesType l id = true)
    (hmod : ((ctx.module l).typeDef id).isModuleType = false) :
    (s'.map.sourcesOf t).head? = some (l, id) := by
  rcases h.of_typeOf? ht with hold | ⟨p, rfl, rfl, hfits, rfl, rfl⟩
  · rw [h.grows.head?_sourcesOf (hs.sourcesOf_ne_nil hold)]
    exact hp.hidden hold hhide hmod
  · rcases s.place_cases ctx l p with hshares | ⟨shell, henters⟩
    · have hkept := hshares.kept hmod
      rw [hfits.hide, hhide] at hkept
      cases hkept
    · rw [henters.place]
      exact henters.head?_sourcesOf hs

theorem DeclareStep.reserved (h : DeclareStep ctx m s s') (hs : s.Sound ctx)
    (hp : s.Placement ctx) {t id : TypeId} {l : ModuleId}
    (hhead : (s'.map.sourcesOf t).head? = some (l, id))
    (hmod : ((ctx.module l).typeDef id).isModuleType = true) :
    Module.qualifiedName s'.target t = moduleTypeName := by
  rcases h.of_head? hs hp.sourced hhead with
    ⟨hold, hhead⟩ | ⟨rfl, p, shell, rfl, rfl, hfits, henters, rfl⟩
  · rw [h.grows.qualifiedName_eq hs (h.sound hs) hold]
    exact hp.reserved hhead hmod
  · rw [henters.qualifiedName hs (h.sound hs) hfits, henters.own (.inl hmod)]
    simp [wantedName, hmod]

theorem DeclareStep.apart (h : DeclareStep ctx m s s') (hs : s.Sound ctx)
    (hp : s.Placement ctx) {t id o : TypeId} {l l' : ModuleId}
    (ht : s'.map.typeOf? l id = some t) (hmod : ((ctx.module l).typeDef id).isModuleType = false)
    (hhead : (s'.map.sourcesOf t).head? = some (l', o)) :
    ((ctx.module l').typeDef o).isModuleType = false := by
  rcases h.of_typeOf? ht with hold | ⟨p, rfl, rfl, hfits, rfl, rfl⟩
  · rw [h.grows.head?_sourcesOf (hs.sourcesOf_ne_nil hold)] at hhead
    exact hp.apart hold hmod hhead
  · rcases s.place_cases ctx l p with hshares | ⟨shell, henters⟩
    · rw [h.grows.head?_sourcesOf (hp.sourced _ hshares.lt)] at hhead
      by_contra hres
      have hname := hp.reserved hhead (by simpa using hres)
      rw [Target.qualifiedName_of_lookup? hshares.found] at hname
      simp only [wantedName, hmod, Bool.false_eq_true, if_false] at hname
      obtain ⟨hc, hn, hsimple⟩ := Target.nameIn_eq_moduleTypeName hname
      simp [TypeDef.isModuleType, hfits.top hc, hn, hsimple] at hmod
    · rw [henters.place, henters.head?_sourcesOf hs] at hhead
      cases hhead
      exact hmod

theorem DeclareStep.placement (h : DeclareStep ctx m s s') (hs : s.Sound ctx)
    (hp : s.Placement ctx) : s'.Placement ctx :=
  ⟨h.namesDistinct hs hp.names, h.sourced_all hp.sourced, h.visibility hs hp, h.hidden hs hp,
    h.reserved hs hp, h.apart hs hp⟩

theorem DeclareStep.placement_steps (h : ReflTransGen (DeclareStep ctx m) s s') (hs : s.Sound ctx)
    (hp : s.Placement ctx) : s'.Placement ctx :=
  ImportState.Sound.keeps DeclareStep.sound DeclareStep.placement h hs hp

theorem Step.placement (h : Step ctx s s') (hs : s.Sound ctx) (hp : s.Placement ctx) :
    s'.Placement ctx := by
  rcases h.places with ⟨m, hdeclares⟩ | hsame
  · exact DeclareStep.placement_steps hdeclares.steps hs hp
  · exact hp.of_samePlaces hs (h.sound hs) h.grows hsame

theorem Step.placement_steps (h : ReflTransGen (Step ctx) s s') (hs : s.Sound ctx)
    (hp : s.Placement ctx) : s'.Placement ctx :=
  ImportState.Sound.keeps Step.sound Step.placement h hs hp

end Import

theorem Context.placement_startImport (ctx : Context) : ctx.startImport.Placement ctx where
  names _ _ h := by cases h
  sourced _ h := by cases h
  visibility h := by cases h
  hidden h := by cases h
  reserved h := by cases h
  apart h := by cases h

/-! ## A module that comes first

As long as only types of one module have places, and these have the names of the types, no type of
that module finds its name taken. The condition is kept by every declaration from that module, and
gives each of its types a place that it enters first. -/

namespace ImportState

/-- All places belong to the types of one module, each to one, under its own name. -/
structure Alone (s : ImportState) (ctx : Context) (m : ModuleId) : Prop where
  named : ∀ {id t}, s.map.typeOf? m id = some t →
    Module.qualifiedName s.target t = (ctx.module m).qualifiedName id
  first : ∀ {id t}, s.map.typeOf? m id = some t → (s.map.sourcesOf t).head? = some (m, id)
  covered : ∀ t : TypeId, t.index < s.target.types.length → ∃ id, s.map.typeOf? m id = some t

/-- Every type of a module is first in its place, under its own name. -/
def Leads (s : ImportState) (ctx : Context) (m : ModuleId) : Prop :=
  ∀ id : TypeId, id.index < (ctx.module m).types.length → ∃ t, s.map.typeOf? m id = some t
    ∧ (s.map.sourcesOf t).head? = some (m, id)
    ∧ Module.qualifiedName s.target t = (ctx.module m).qualifiedName id

variable {s s' : ImportState} {ctx : Context} {m : ModuleId} {p : Pending}

theorem Leads.mono (h : s.Leads ctx m) (hs : s.Sound ctx) (hs' : s'.Sound ctx)
    (hg : s.Grows s') : s'.Leads ctx m := by
  intro id hid
  obtain ⟨t, ht, hfirst, hname⟩ := h id hid
  refine ⟨t, hg.map.typeOf? ht, ?_, ?_⟩
  · rw [hg.head?_sourcesOf (hs.sourcesOf_ne_nil ht), hfirst]
  · rw [hg.qualifiedName_eq hs hs' (hs.typeOf?_lt ht), hname]

/-- While the places have the names of their types, a type is looked for under its own name. -/
theorem Alone.wantedName_eq (h : s.Alone ctx m) (hctx : ctx.registry.Accepted)
    (hlinks : ∀ o t, t ∈ ((ctx.module m).typeDef o).nested →
      ((ctx.module m).typeDef t).declaring = some o) (hfits : p.Fits ctx m s) :
    s.wantedName ctx m p = (ctx.module m).qualifiedName p.type := by
  have hfault := Context.fault?_module hctx m
  unfold wantedName
  dsimp only
  split
  · next hmod => exact ((Module.qualifiedName_eq_moduleTypeName_iff hfault).mpr hmod).symm
  · rw [Module.qualifiedName_eq_nameIn hfault]
    cases hc : p.container with
    | none =>
      rw [hfits.top hc]
      rfl
    | some t =>
      obtain ⟨o, ho, hlink⟩ := hfits.inside hc
      have hdeclaring : ((ctx.module m).typeDef p.type).declaring = some o :=
        hlink.elim (hlinks o _) id
      rw [hdeclaring, Target.nameIn, Target.nameIn, h.named ho]

theorem Alone.free (h : s.Alone ctx m) (hctx : ctx.registry.Accepted)
    (hlinks : ∀ o t, t ∈ ((ctx.module m).typeDef o).nested →
      ((ctx.module m).typeDef t).declaring = some o) (hnames : Module.NamesDistinct (ctx.module m))
    (hs : s.Sound ctx) (hfresh : s.map.find? m (.type p.type) = none) (hfits : p.Fits ctx m s) :
    s.target.lookup? (s.wantedName ctx m p) = none := by
  cases hfound : s.target.lookup? (s.wantedName ctx m p) with
  | none => rfl
  | some t =>
    -- a place of that name would be the place of the type itself
    exfalso
    obtain ⟨id, hid⟩ := h.covered t (Target.lookup?_lt hfound)
    have hsame := (h.named hid).symm.trans
      ((Target.qualifiedName_of_lookup? hfound).trans (h.wantedName_eq hctx hlinks hfits))
    obtain rfl := hnames id p.type (hs.inputs hid) hfits.inRange hsame
    rw [SymbolMap.typeOf?, hfresh] at hid
    cases hid

end ImportState

namespace Import

open ImportState

variable {ctx : Context} {s s' : ImportState} {m : ModuleId}

section Alone

variable (hctx : ctx.registry.Accepted)
  (hlinks : ∀ o t, t ∈ ((ctx.module m).typeDef o).nested →
    ((ctx.module m).typeDef t).declaring = some o)
  (hnames : Module.NamesDistinct (ctx.module m))
include hctx hlinks hnames

/-- A module that is alone stays so while its types are declared. -/
theorem DeclareStep.alone (h : DeclareStep ctx m s s') (hs : s.Sound ctx) (ha : s.Alone ctx m) :
    s'.Alone ctx m := by
  have hg := h.grows
  have hs' := h.sound hs
  cases h with
  | @declare p hfresh hfits =>
    have hwanted := ha.wantedName_eq hctx hlinks hfits
    have hfree := ha.free hctx hlinks hnames hs hfresh hfits
    rcases s.place_cases ctx m p with hshares | ⟨shell, henters⟩
    · rw [hshares.found] at hfree
      cases hfree
    · have hcases : ∀ {id t}, (s.declareOne ctx m p).2.map.typeOf? m id = some t →
          id = p.type ∧ t = ⟨s.target.types.length⟩ ∨ s.map.typeOf? m id = some t := by
        intro id t ht
        rw [SymbolMap.typeOf?_eq_some, find?_declareOne hfresh] at ht
        split at ht
        · next heq =>
          cases heq
          cases ht
          exact .inl ⟨rfl, henters.place⟩
        · exact .inr (SymbolMap.typeOf?_eq_some.mpr ht)
      refine ⟨fun {id t} ht ↦ ?_, fun {id t} ht ↦ ?_, fun t ht ↦ ?_⟩
      · rcases hcases ht with ⟨rfl, rfl⟩ | hold
        · rw [henters.qualifiedName hs hs' hfits, henters.own (.inr hfree), hwanted]
        · rw [hg.qualifiedName_eq hs hs' (hs.typeOf?_lt hold), ha.named hold]
      · rcases hcases ht with ⟨rfl, rfl⟩ | hold
        · exact henters.head?_sourcesOf hs
        · rw [hg.head?_sourcesOf (hs.sourcesOf_ne_nil hold), ha.first hold]
      · rw [target_declareOne, henters.target, Module.length_types_addType] at ht
        rcases Nat.lt_succ_iff_lt_or_eq.mp ht with hlt | heq
        · obtain ⟨id, hid⟩ := ha.covered t hlt
          exact ⟨id, hg.map.typeOf? hid⟩
        · obtain rfl : t = ⟨s.target.types.length⟩ := congrArg TypeId.mk heq
          refine ⟨p.type, ?_⟩
          rw [typeOf?_declareOne hfresh, declareOne_fst, henters.place]

theorem DeclareStep.alone_steps (h : ReflTransGen (DeclareStep ctx m) s s') (hs : s.Sound ctx)
    (ha : s.Alone ctx m) : s'.Alone ctx m :=
  ImportState.Sound.keeps DeclareStep.sound (fun hstep ↦ hstep.alone hctx hlinks hnames) h hs ha

end Alone

/-- Where what is listed in a type has a place as soon as the type has one, all types of a module
have places when those at the top do. -/
theorem placed_of_topLevel (hctx : ctx.registry.Accepted)
    (hlinks : ∀ o t, t ∈ ((ctx.module m).typeDef o).nested ↔
      t.index < (ctx.module m).types.length ∧ ((ctx.module m).typeDef t).declaring = some o)
    (htop : ∀ id ∈ (ctx.module m).topLevelTypes, ∃ t, s.map.typeOf? m id = some t)
    (hnested : s.NestedPlaced ctx m) {id : TypeId} (hid : id.index < (ctx.module m).types.length) :
    ∃ t, s.map.typeOf? m id = some t := by
  -- from the outside in, every type has got a place
  have hall : ∀ {chain : List TypeId},
      Chain.Complete (fun t ↦ ((ctx.module m).typeDef t).declaring) chain →
      ∀ id ∈ chain.head?, id.index < (ctx.module m).types.length →
        ∃ t, s.map.typeOf? m id = some t := by
    intro chain hchain
    induction hchain with
    | @last id hnone =>
      intro id' hid' hlt
      cases hid'
      refine htop id (List.mem_filter.mpr ⟨Module.mem_typeIds.mpr hlt, ?_⟩)
      rw [hnone]
      rfl
    | @link id o rest hlink _ ih =>
      intro id' hid' hlt
      cases hid'
      obtain ⟨t, ht⟩ := ih o rfl (declaring_lt hctx hlink)
      exact hnested o t id ht ((hlinks o id).mpr ⟨hlt, hlink⟩)
  obtain ⟨rest, hrest⟩ := Chain.follow_eq_cons
    (fun t ↦ ((ctx.module m).typeDef t).declaring) (ctx.module m).types.length id
  exact hall (Module.complete_declaringChain (Context.fault?_module hctx m) id) id
    (by simp [Module.declaringChain, hrest]) hid

/-- A module whose links agree and whose names are distinct leads in all its places when it is
declared before any other. -/
theorem leads_of_declareModule (hctx : ctx.registry.Accepted)
    (hlinks : ∀ o t, t ∈ ((ctx.module m).typeDef o).nested ↔
      t.index < (ctx.module m).types.length ∧ ((ctx.module m).typeDef t).declaring = some o)
    (hnames : Module.NamesDistinct (ctx.module m))
    (h : declareModule ctx m ctx.startImport = .ok () s) : s.Leads ctx m := by
  obtain ⟨hsteps, htop⟩ := (reaches_declareModule hctx ctx.sound_startImport m).of_ok h
  obtain ⟨hdeclares, hnested⟩ := Declares.of_steps hsteps
  have hplaced := hnested fun o t n ho ↦ by cases ho
  have halone := DeclareStep.alone_steps hctx (fun o t ht ↦ ((hlinks o t).mp ht).2) hnames
    hdeclares ctx.sound_startImport
    ⟨fun h ↦ (by cases h), fun h ↦ (by cases h), fun t ht ↦ by cases ht⟩
  intro id hid
  obtain ⟨t, ht⟩ := placed_of_topLevel hctx hlinks (fun o ho ↦ (htop o ho).2) hplaced hid
  exact ⟨t, ht, halone.first ht, halone.named ht⟩

theorem placed_of_declareEach (hctx : ctx.registry.Accepted) {ms : List ModuleId}
    (h : ms.forM (declareModule ctx) ctx.startImport = .ok () s) {m : ModuleId} (hm : m ∈ ms)
    (hlinks : ∀ o t, t ∈ ((ctx.module m).typeDef o).nested ↔
      t.index < (ctx.module m).types.length ∧ ((ctx.module m).typeDef t).declaring = some o)
    {id : TypeId} (hid : id.index < (ctx.module m).types.length) :
    ∃ t, s.map.typeOf? m id = some t := by
  have hs := ctx.sound_startImport
  have hloop : Reaches (PlaceStep ctx) ctx.startImport (ms.forM (declareModule ctx)) fun _ s' ↦
      ∀ l ∈ ms, ∀ id ∈ (ctx.module l).topLevelTypes, ∃ t, s'.map.typeOf? l id = some t := by
    refine .forM_each (fun l s' s'' hs' hplaced id hid ↦ ?_) fun l _ s' hs' ↦ ?_
    · obtain ⟨t, ht⟩ := hplaced id hid
      exact ⟨t, (PlaceStep.grows_steps hs').map.typeOf? ht⟩
    · exact (reaches_declareModule hctx (PlaceStep.sound_steps hs' hs) l).mono
        (fun _ _ ↦ .declare) fun _ _ _ htop id hid ↦ (htop id hid).2
  obtain ⟨hsteps, htop⟩ := hloop.of_ok h
  refine placed_of_topLevel hctx hlinks (htop m hm) ?_ hid
  exact Step.nestedPlaced_steps (PlaceStep.step hsteps) hs (fun _ o t n ho ↦ by cases ho) m

/-- An import declares the types of the first modules first, and from there on the state only
grows. -/
theorem exists_declareEach_of_run (hctx : ctx.registry.Accepted) {front back : List ModuleId}
    (horder : ctx.registry.importOrder = front ++ back) (h : run ctx ctx.startImport = .ok () s) :
    ∃ s₁, front.forM (declareModule ctx) ctx.startImport = .ok () s₁ ∧ s₁.Sound ctx
      ∧ s₁.Grows s := by
  obtain ⟨_, s₂, hdeclared, hrest⟩ := bind_eq_ok h
  have hfilled := ((reaches_declareModules hctx).of_ok hdeclared).2
  rw [horder] at hdeclared
  simp only [List.forM_eq_forM, List.forM_append] at hdeclared
  obtain ⟨_, s₁, hfirst, hothers⟩ := bind_eq_ok hdeclared
  have hs₁ := PlaceStep.sound_steps
    ((reaches_declareEach hctx ctx.sound_startImport front).of_ok hfirst).1 ctx.sound_startImport
  have hplaces := ((reaches_declareEach hctx hs₁ back).of_ok hothers).1
  -- what comes after it only adds to what it did
  obtain ⟨_, s₃, hpopulate, hcopy⟩ := bind_eq_ok hrest
  obtain ⟨hshapes, hfilled₃⟩ := (reaches_populateAll hctx hfilled).of_ok hpopulate
  have hcopies := ((reaches_copyAll hctx hfilled₃).of_ok hcopy).1
  exact ⟨s₁, hfirst, hs₁, (PlaceStep.grows_steps hplaces).trans
    ((Step.grows_steps (ShapeStep.step hshapes)).trans (Step.grows_steps (CopyStep.step hcopies)))⟩

/-- The types of the primary come before all others. -/
theorem exists_declared_of_run (hctx : ctx.registry.Accepted)
    (hp : ctx.registry.primary? = some m) (h : run ctx ctx.startImport = .ok () s) :
    ∃ s₁, declareModule ctx m ctx.startImport = .ok () s₁ ∧ s₁.Sound ctx ∧ s₁.Grows s := by
  have horder : ctx.registry.importOrder = [m] ++ ctx.registry.secondaries := by
    simp [Registry.importOrder, hp]
  obtain ⟨s₁, hfirst, hs₁, hgrows⟩ := exists_declareEach_of_run hctx horder h
  obtain ⟨_, s₂, hfirst, hnothing⟩ := bind_eq_ok hfirst
  cases hnothing
  exact ⟨s₁, hfirst, hs₁, hgrows⟩

/-- The primary leads in all its places when the import is done. -/
theorem leads_of_run (hctx : ctx.registry.Accepted) (hp : ctx.registry.primary? = some m)
    (hlinks : ∀ o t, t ∈ ((ctx.module m).typeDef o).nested ↔
      t.index < (ctx.module m).types.length ∧ ((ctx.module m).typeDef t).declaring = some o)
    (hnames : Module.NamesDistinct (ctx.module m))
    (h : run ctx ctx.startImport = .ok () s) : s.Leads ctx m := by
  obtain ⟨s₁, hfirst, hs₁, hgrows⟩ := exists_declared_of_run hctx hp h
  exact (leads_of_declareModule hctx hlinks hnames hfirst).mono hs₁
    (imported_of_run hctx h).sound hgrows

end Import

end ModuleLinker

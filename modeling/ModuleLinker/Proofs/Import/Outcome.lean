import ModuleLinker.Proofs.Import.Placement

/-!
# Outcomes of placing a type

A type that is placed goes where all reserved types go, or enters a place under its own name, or
enters one under a name that was made for it, or shares one that is there. This is where an import
takes notes: of the last two, and of nothing else.

A step of an import either declares types or leaves places and notes alone. So what declaring one
type keeps, and growing otherwise, holds after a whole import.
-/

namespace ModuleLinker

open Relation (ReflTransGen)

/-- The outside of an input type, as it is entered under a name. -/
def Pending.shell (p : Pending) (t : TypeDef) (name : String) : TypeDef where
  nspace := t.nspace
  name := name
  visibility := if p.hide then t.visibility.internalized else t.visibility
  isSerializable := t.isSerializable
  attributes := t.attributes
  declaring := p.container

/-! ## Outcomes

There are four ways for a type to be placed, and each comes with what is noted. They are told
apart by the name that the type is looked for under, by who has that name, and by the policy. -/

namespace ImportState

variable {s s' : ImportState} {ctx : Context} {m : ModuleId} {p : Pending}

theorem addShell_eq (s : ImportState) (t : TypeDef) (p : Pending) (name : String) :
    s.addShell t p name
      = (⟨s.target.types.length⟩, { s with target := (s.target.addType (p.shell t name)).2 }) :=
  rfl

/-- What placing a type comes to: where it goes, and what is noted. -/
inductive Outcome (s : ImportState) (ctx : Context) (m : ModuleId) (p : Pending) :
    TypeId × ImportState → Prop
  /-- A reserved type goes where all of them go. -/
  | reserved (hmod : ((ctx.module m).typeDef p.type).isModuleType = true) :
    Outcome s ctx m p
      (s.target.ensureModuleType.1, { s with target := s.target.ensureModuleType.2 })
  /-- A type finds its name free. -/
  | own (hmod : ((ctx.module m).typeDef p.type).isModuleType = false)
      (hfree : s.target.lookup? (s.wantedName ctx m p) = none) :
    Outcome s ctx m p (s.addShell ((ctx.module m).typeDef p.type) p
      ((ctx.module m).typeDef p.type).name)
  /-- A hidden type finds its name taken, and gets another one. -/
  | renamed {existing : TypeId} {name : String}
      (hmod : ((ctx.module m).typeDef p.type).isModuleType = false)
      (htaken : s.target.lookup? (s.wantedName ctx m p) = some existing) (hhide : p.hide = true)
      (hname : name = s.target.freshName p.container ((ctx.module m).typeDef p.type).nspace
        ((ctx.module m).typeDef p.type).name (ctx.module m).name) :
    Outcome s ctx m p (ImportState.addShell
      { s with renamed := s.renamed ++ [⟨(ctx.module m).name, s.wantedName ctx m p, name⟩] }
      ((ctx.module m).typeDef p.type) p name)
  /-- Any other type that finds its name taken shares the place that it finds. -/
  | shared {existing : TypeId} (hmod : ((ctx.module m).typeDef p.type).isModuleType = false)
      (htaken : s.target.lookup? (s.wantedName ctx m p) = some existing) (hkept : p.hide = false) :
    Outcome s ctx m p (existing, { s with conflicts := s.conflicts ++
      [⟨s.wantedName ctx m p, match s.map.typeOrigin? existing with
        | some origin => (ctx.module origin).name
        | none => s.target.name, (ctx.module m).name⟩] })

theorem outcome (s : ImportState) (ctx : Context) (m : ModuleId) (p : Pending) :
    s.Outcome ctx m p (s.place ctx m p) := by
  cases hmod : ((ctx.module m).typeDef p.type).isModuleType with
  | true =>
    have hplace : s.place ctx m p
        = (s.target.ensureModuleType.1, { s with target := s.target.ensureModuleType.2 }) := by
      simp [place, hmod]
    rw [hplace]
    exact .reserved hmod
  | false =>
    have hwanted : s.wantedName ctx m p = s.target.nameIn p.container
        ((ctx.module m).typeDef p.type).nspace ((ctx.module m).typeDef p.type).name := by
      simp [wantedName, hmod]
    cases hl : s.target.lookup? (s.wantedName ctx m p) with
    | none =>
      have hplace : s.place ctx m p = s.addShell ((ctx.module m).typeDef p.type) p
          ((ctx.module m).typeDef p.type).name := by
        simp [place, hmod, ← hwanted, hl]
      rw [hplace]
      exact .own hmod hl
    | some existing =>
      cases hhide : p.hide with
      | true =>
        have hout := Outcome.renamed hmod hl hhide rfl
        simp only [place, hmod, ← hwanted, hl, hhide, if_true, Bool.false_eq_true, if_false]
        exact hout
      | false =>
        have hout := Outcome.shared hmod hl hhide
        simp only [place, hmod, ← hwanted, hl, hhide, Bool.false_eq_true, if_false]
        exact hout

/-! ## The place of a type that has been declared -/

theorem typeOf?_declareOne_of_ne (hfresh : s.map.find? m (.type p.type) = none)
    {x : ModuleId × TypeId} (hne : x ≠ (m, p.type)) :
    (s.declareOne ctx m p).2.map.typeOf? x.1 x.2 = s.map.typeOf? x.1 x.2 := by
  obtain ⟨l, id⟩ := x
  rw [SymbolMap.typeOf?, find?_declareOne hfresh, if_neg, SymbolMap.typeOf?]
  intro heq
  cases heq
  exact hne rfl

section DeclareOne

variable (hs : s.Sound ctx) (hfresh : s.map.find? m (.type p.type) = none)
  (hfits : p.Fits ctx m s)
include hs

theorem head?_sourcesOf_new (hnew : (s.place ctx m p).1 = ⟨s.target.types.length⟩) :
    ((s.declareOne ctx m p).2.map.sourcesOf (s.place ctx m p).1).head? = some (m, p.type) := by
  rw [sourcesOf_declareOne, hnew, hs.sourcesOf_eq_nil (Nat.lt_irrefl _)]
  simp

include hfits in
theorem typeDef_addShell {s₀ : ImportState} (h₀ : s₀.target = s.target) (t : TypeDef)
    (name : String) : Module.typeDef (s₀.addShell t p name).2.target ⟨s.target.types.length⟩
      = p.shell t name := by
  rw [addShell_eq, h₀, Module.typeDef_addType _ (hs.within hfits).container, if_pos rfl]

include hfits hfresh

theorem qualifiedName_addShell {s₀ : ImportState} (h₀ : s₀.target = s.target) {t : TypeDef}
    {name : String} {placed : ImportState} (hplaced : placed = (s₀.addShell t p name).2)
    (hresult : (s.place ctx m p).2.target = placed.target) :
    Module.qualifiedName placed.target ⟨s.target.types.length⟩
      = s.target.nameIn p.container t.nspace name := by
  have hfault := (hs.declareOne hfresh hfits).fault?_target
  rw [target_declareOne, hresult] at hfault
  rw [hplaced, addShell_eq, h₀] at hfault ⊢
  exact Target.qualifiedName_addType (hs.within hfits).container hs.linked hs.fault?_target hfault

theorem reserved_declareOne (hmod : ((ctx.module m).typeDef p.type).isModuleType = true) :
    Module.qualifiedName (s.declareOne ctx m p).2.target (s.place ctx m p).1 = moduleTypeName
      ∧ (Module.typeDef (s.declareOne ctx m p).2.target (s.place ctx m p).1).declaring = none := by
  have hname : Module.qualifiedName (s.declareOne ctx m p).2.target (s.place ctx m p).1
      = moduleTypeName := by
    rcases s.place_cases ctx m p with hshares | ⟨shell, henters⟩
    · rw [target_declareOne, hshares.target, Target.qualifiedName_of_lookup? hshares.found]
      simp [wantedName, hmod]
    · rw [henters.place, henters.qualifiedName hs (hs.declareOne hfresh hfits) hfits,
        henters.own (.inl hmod)]
      simp [wantedName, hmod]
  refine ⟨hname, ?_⟩
  rw [Module.qualifiedName_eq_nameIn (hs.declareOne hfresh hfits).fault?_target] at hname
  exact (Target.nameIn_eq_moduleTypeName hname).1

/-- A type that finds its name free, or shares the place that has it, is known by it. -/
theorem qualifiedName_declareOne (hmod : ((ctx.module m).typeDef p.type).isModuleType = false)
    (hkeeps : s.target.lookup? (s.wantedName ctx m p) = none ∨ p.hide = false) :
    Module.qualifiedName (s.declareOne ctx m p).2.target (s.place ctx m p).1
      = s.wantedName ctx m p := by
  have hout := s.outcome ctx m p
  rw [target_declareOne]
  generalize hr : s.place ctx m p = r at hout
  cases hout with
  | reserved hres =>
    rw [hmod] at hres
    cases hres
  | own _ _ =>
    have hname := qualifiedName_addShell hs hfresh hfits rfl rfl (congrArg (·.2.target) hr)
    rw [wantedName, hmod]
    exact hname
  | renamed _ htaken hhide _ =>
    rcases hkeeps with hfree | hkept
    · rw [htaken] at hfree
      cases hfree
    · rw [hhide] at hkept
      cases hkept
  | shared _ htaken _ => exact Target.qualifiedName_of_lookup? htaken


end DeclareOne

/-! ## Steps that place no type and note nothing

Most steps of an import place no type. What is said of places and notes is kept by them for free,
so it has to be shown of a single declaration only. -/

/-- Nothing has been noted, and no type has got a place. -/
structure SameNotes (s s' : ImportState) : Prop where
  places : s.SamePlaces s'
  conflicts : s'.conflicts = s.conflicts
  renamed : s'.renamed = s.renamed

theorem Grows.typeDef_eq (h : s.Grows s') {t : TypeId} (ht : t.index < s.target.types.length)
    {β : Type} (f : TypeDef → β) (hf : ∀ d, f d.outside = f d) :
    f (Module.typeDef s'.target t) = f (Module.typeDef s.target t) := by
  rw [← hf, ← hf (Module.typeDef s.target t), h.target.typeDef ht]

theorem SameNotes.typeOf?_eq (h : s.SameNotes s') (hs : s.Sound ctx) (hs' : s'.Sound ctx)
    (x : ModuleId × TypeId) : s'.map.typeOf? x.1 x.2 = s.map.typeOf? x.1 x.2 :=
  Option.ext fun _ ↦ h.places.typeOf?_iff hs hs'

end ImportState

namespace Import

open ImportState

variable {ctx : Context} {s s' : ImportState} {m : ModuleId}

theorem UseStep.notes (h : UseStep ctx s s') :
    (∃ m, Declares ctx m s s') ∨ s'.conflicts = s.conflicts ∧ s'.renamed = s.renamed := by
  cases h with
  | sign h =>
    cases h with
    | place h =>
      cases h with
      | declare h => exact .inl ⟨_, h⟩
      | refer _ _ | intern _ => exact .inr ⟨rfl, rfl⟩
    | resolve _ _ _ _ _ => exact .inr ⟨rfl, rfl⟩
  | intern _ | resolve _ _ _ _ => exact .inr ⟨rfl, rfl⟩

theorem Step.notes (h : Step ctx s s') : (∃ m, Declares ctx m s s') ∨ s.SameNotes s' := by
  have hnotes : (∃ m, Declares ctx m s s')
      ∨ s'.conflicts = s.conflicts ∧ s'.renamed = s.renamed := by
    cases h with
    | shape h =>
      cases h with
      | visit _ _ => exact .inr ⟨rfl, rfl⟩
      | fill h =>
        cases h with
        | sign h => exact (UseStep.sign h).notes
        | hierarchy _ _ _ | shareField _ _ _ | addField _ _ _ _ | shareMethod _ _ _ _ _ _
          | addMethod _ _ _ _ _ _ => exact .inr ⟨rfl, rfl⟩
    | copy h =>
      cases h with
      | use h => exact h.notes
      | visit _ _ | setBody _ _ _ _ => exact .inr ⟨rfl, rfl⟩
  rcases hnotes with hdeclares | ⟨hconflicts, hrenamed⟩
  · exact .inl hdeclares
  · exact h.places.imp_right fun hplaces ↦ ⟨hplaces, hconflicts, hrenamed⟩

section Keeps

variable {I : ImportState → Prop}
  (hdeclare : ∀ {s : ImportState} {m : ModuleId} {p : Pending}, s.Sound ctx → s.Placement ctx →
    s.map.find? m (.type p.type) = none → p.Fits ctx m s → I s → I (s.declareOne ctx m p).2)
include hdeclare

theorem DeclareStep.keeps (h : ReflTransGen (DeclareStep ctx m) s s') (hs : s.Sound ctx)
    (hp : s.Placement ctx) (hI : I s) : I s' := by
  induction h with
  | refl => exact hI
  | tail hsteps hstep ih =>
    cases hstep with
    | declare hfresh hfits =>
      exact hdeclare (DeclareStep.sound_steps hsteps hs) (DeclareStep.placement_steps hsteps hs hp)
        hfresh hfits ih

/-- What declaring one type keeps, and growing where nothing is declared, is kept by all steps. -/
theorem Step.keeps (hsame : ∀ {s s' : ImportState}, s.Sound ctx → s'.Sound ctx → s.Grows s' →
    s.SameNotes s' → I s → I s') (h : ReflTransGen (Step ctx) s s') (hs : s.Sound ctx)
    (hp : s.Placement ctx) (hI : I s) : I s' := by
  induction h with
  | refl => exact hI
  | tail hsteps hstep ih =>
    have hs₁ := ImportState.Sound.of_steps Step.sound hsteps hs
    rcases hstep.notes with ⟨m, hdeclares⟩ | hnotes
    · exact DeclareStep.keeps hdeclare hdeclares.steps hs₁ (Step.placement_steps hsteps hs hp) ih
    · exact hsame hs₁ (hstep.sound hs₁) hstep.grows hnotes ih

end Keeps

end Import

/-! ## What a place looks like -/

namespace ImportState

/-- Reserved types stand under the reserved name, and any other place is dressed like the type that
came to it first. -/
structure Looks (s : ImportState) (ctx : Context) : Prop where
  reserved : ∀ {m id t}, s.map.typeOf? m id = some t →
    ((ctx.module m).typeDef id).isModuleType = true →
    Module.qualifiedName s.target t = moduleTypeName
  dressed : ∀ {m id t}, (s.map.sourcesOf t).head? = some (m, id) →
    ((ctx.module m).typeDef id).isModuleType = false →
    (Module.typeDef s.target t).nspace = ((ctx.module m).typeDef id).nspace
      ∧ (Module.typeDef s.target t).isSerializable = ((ctx.module m).typeDef id).isSerializable
      ∧ (Module.typeDef s.target t).attributes = ((ctx.module m).typeDef id).attributes

variable {s s' : ImportState} {ctx : Context} {m : ModuleId} {p : Pending}

theorem dressed_new (hs : s.Sound ctx) (hfits : p.Fits ctx m s)
    (hnew : (s.place ctx m p).1 = ⟨s.target.types.length⟩)
    (hmod : ((ctx.module m).typeDef p.type).isModuleType = false) :
    ∃ name, Module.typeDef (s.declareOne ctx m p).2.target ⟨s.target.types.length⟩
      = p.shell ((ctx.module m).typeDef p.type) name := by
  have hout := s.outcome ctx m p
  rw [target_declareOne]
  generalize s.place ctx m p = r at hout hnew
  cases hout with
  | reserved hres =>
    rw [hmod] at hres
    cases hres
  | own _ _ => exact ⟨_, typeDef_addShell hs hfits rfl _ _⟩
  | @renamed _ name _ _ _ _ =>
    exact ⟨name, typeDef_addShell hs hfits rfl ((ctx.module m).typeDef p.type) name⟩
  | shared _ htaken _ =>
    have hlt := Target.lookup?_lt htaken
    exact absurd (congrArg TypeId.index hnew) (Nat.ne_of_lt hlt)

theorem Looks.declareOne (h : s.Looks ctx) (hs : s.Sound ctx) (hp : s.Placement ctx)
    (hfresh : s.map.find? m (.type p.type) = none) (hfits : p.Fits ctx m s) :
    (s.declareOne ctx m p).2.Looks ctx := by
  have hg : s.Grows (s.declareOne ctx m p).2 := grows_declareOne hfresh
  have hs' := hs.declareOne hfresh hfits
  refine ⟨fun {l id t} ht hmod ↦ ?_, fun {l id t} hhead hmod ↦ ?_⟩
  · by_cases heq : (l, id) = (m, p.type)
    · cases heq
      rw [typeOf?_declareOne hfresh] at ht
      cases ht
      exact (reserved_declareOne hs hfresh hfits hmod).1
    · have hold := (typeOf?_declareOne_of_ne hfresh heq).symm.trans ht
      rw [hg.qualifiedName_eq hs hs' (hs.typeOf?_lt hold)]
      exact h.reserved hold hmod
  · rcases (Import.DeclareStep.declare hfresh hfits).of_head? hs hp.sourced hhead with
      ⟨hold, hhead⟩ | ⟨rfl, q, shell, rfl, rfl, hfits', henters, heq⟩
    · rw [hg.typeDef_eq hold TypeDef.nspace fun _ ↦ rfl,
        hg.typeDef_eq hold TypeDef.isSerializable fun _ ↦ rfl,
        hg.typeDef_eq hold TypeDef.attributes fun _ ↦ rfl]
      exact h.dressed hhead hmod
    · rw [heq]
      obtain ⟨name, hname⟩ := dressed_new hs hfits' henters.place hmod
      rw [hname]
      exact ⟨rfl, rfl, rfl⟩

theorem Looks.of_sameNotes (h : s.Looks ctx) (hs : s.Sound ctx) (hs' : s'.Sound ctx)
    (hg : s.Grows s') (hsame : s.SameNotes s') : s'.Looks ctx := by
  refine ⟨fun {m id t} ht hmod ↦ ?_, fun {m id t} hhead hmod ↦ ?_⟩
  · have hold := (hsame.typeOf?_eq hs hs' (m, id)).symm.trans ht
    rw [hg.qualifiedName_eq hs hs' (hs.typeOf?_lt hold)]
    exact h.reserved hold hmod
  · rw [hsame.places.sourcesOf_eq] at hhead
    have hold := hs.lt_of_head? hhead
    rw [hg.typeDef_eq hold TypeDef.nspace fun _ ↦ rfl,
      hg.typeDef_eq hold TypeDef.isSerializable fun _ ↦ rfl,
      hg.typeDef_eq hold TypeDef.attributes fun _ ↦ rfl]
    exact h.dressed hhead hmod

end ImportState

theorem Import.looks_of_run {ctx : Context} {s : ImportState} (hctx : ctx.registry.Accepted)
    (h : Import.run ctx ctx.startImport = .ok () s) : s.Looks ctx :=
  Step.keeps (I := fun s ↦ s.Looks ctx)
    (fun hs hp hfresh hfits hlooks ↦ hlooks.declareOne hs hp hfresh hfits)
    (fun hs hs' hg hsame hlooks ↦ hlooks.of_sameNotes hs hs' hg hsame)
    ((reaches_run hctx).of_ok h).1 ctx.sound_startImport ctx.placement_startImport
    ⟨fun ht ↦ (by cases ht), fun hhead ↦ by cases hhead⟩

end ModuleLinker

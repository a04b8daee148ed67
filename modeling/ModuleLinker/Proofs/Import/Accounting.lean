import ModuleLinker.Proofs.Import.Outcome

/-!
# What an import notes

The notes of an import are taken while types are placed, in the order in which they are. What they
amount to can be read off the finished state: a type is in the list of conflicts when another one is
the first source of its place, and in the list of renamings when its own name had been declared in
the container before it was.

A name is looked for by the text of a qualified name. That the type which has it stands in the same
container is only known while no name holds the separator.
-/

namespace ModuleLinker

open Relation (ReflTransGen)

/-- A type of the container that a type stands in was declared before it, under a name. -/
def Target.isNamedBefore (t : Target) (id : TypeId) (qualified : String) : Bool :=
  (List.range id.index).any fun i ↦
    (t.typeDef ⟨i⟩).declaring = (t.typeDef id).declaring && t.qualifiedName ⟨i⟩ = qualified

theorem Target.isNamedBefore_iff {t : Target} {id : TypeId} {qualified : String} :
    t.isNamedBefore id qualified = true ↔ ∃ o : TypeId, o.index < id.index
      ∧ (t.typeDef o).declaring = (t.typeDef id).declaring ∧ t.qualifiedName o = qualified := by
  simp only [isNamedBefore, List.any_eq_true, List.mem_range, Bool.and_eq_true, decide_eq_true_eq]
  exact ⟨fun ⟨i, h⟩ ↦ ⟨⟨i⟩, h⟩, fun ⟨o, h⟩ ↦ ⟨o.index, h⟩⟩

namespace ImportState

variable {s s' : ImportState} {ctx : Context} {m : ModuleId} {p : Pending}

/-! ## Reading the notes off a state

What was noted for a type can be found out later, from the place that it has: it came second to
that place or not, and its own name was taken in the container or not. -/

variable (s ctx) in
/-- The conflict that an input type makes by coming second to its place. -/
def conflict? (x : ModuleId × TypeId) : Option Conflict := do
  let t ← s.map.typeOf? x.1 x.2
  let first ← (s.map.sourcesOf t).head?
  if ((ctx.module x.1).typeDef x.2).isModuleType || first = x then none
  else some {
    name := Module.qualifiedName s.target t
    keptFrom := (ctx.module first.1).name
    mergedFrom := (ctx.module x.1).name }

variable (s ctx) in
/-- The name that an input type has by itself in the container of a place. -/
def ownName (x : ModuleId × TypeId) (t : TypeId) : String :=
  s.target.nameIn (Module.typeDef s.target t).declaring ((ctx.module x.1).typeDef x.2).nspace
    ((ctx.module x.1).typeDef x.2).name

variable (s ctx) in
/-- The renaming of a hidden type whose own name was declared before it. -/
def renaming? (x : ModuleId × TypeId) : Option Renaming := do
  let t ← s.map.typeOf? x.1 x.2
  if !((ctx.module x.1).typeDef x.2).isModuleType && ctx.internalizesType x.1 x.2
      && s.target.isNamedBefore t (s.ownName ctx x t) then
    some {
      module := (ctx.module x.1).name
      name := s.ownName ctx x t
      renamed := (Module.typeDef s.target t).name }
  else none

theorem conflict?_eq_some_iff {x : ModuleId × TypeId} {c : Conflict} :
    s.conflict? ctx x = some c ↔ ((ctx.module x.1).typeDef x.2).isModuleType = false
      ∧ ∃ t first, s.map.typeOf? x.1 x.2 = some t ∧ (s.map.sourcesOf t).head? = some first
        ∧ first ≠ x ∧ c = ⟨Module.qualifiedName s.target t, (ctx.module first.1).name,
          (ctx.module x.1).name⟩ := by
  simp only [conflict?, Option.bind_eq_bind, Option.bind_eq_some_iff]
  constructor
  · rintro ⟨t, ht, first, hfirst, hc⟩
    split at hc
    · cases hc
    · next hno =>
      simp only [Bool.or_eq_true, decide_eq_true_eq, not_or, Bool.not_eq_true] at hno
      exact ⟨hno.1, t, first, ht, hfirst, hno.2, (Option.some.inj hc).symm⟩
  · rintro ⟨hmod, t, first, ht, hfirst, hne, rfl⟩
    exact ⟨t, ht, first, hfirst, by simp [hmod, hne]⟩

/-! ### Growth -/

theorem Grows.nameIn_eq (h : s.Grows s') (hs : s.Sound ctx) (hs' : s'.Sound ctx)
    {container : Option TypeId} (hc : ∀ o, container = some o → o.index < s.target.types.length)
    (nspace name : String) :
    s'.target.nameIn container nspace name = s.target.nameIn container nspace name := by
  cases container with
  | none => rfl
  | some o => rw [Target.nameIn, Target.nameIn, h.qualifiedName_eq hs hs' (hc o rfl)]

section Growth

variable (h : s.Grows s') (hs : s.Sound ctx) (hs' : s'.Sound ctx)
include h hs hs'

theorem conflict?_of_grows {x : ModuleId × TypeId}
    (hx : s'.map.typeOf? x.1 x.2 = s.map.typeOf? x.1 x.2) :
    s'.conflict? ctx x = s.conflict? ctx x := by
  unfold conflict?
  rw [hx]
  cases ht : s.map.typeOf? x.1 x.2 with
  | none => rfl
  | some t =>
    simp only [Option.bind_eq_bind, Option.bind_some]
    rw [h.head?_sourcesOf (hs.sourcesOf_ne_nil ht), h.qualifiedName_eq hs hs' (hs.typeOf?_lt ht)]

theorem Grows.isNamedBefore_eq {t : TypeId} (ht : t.index < s.target.types.length)
    (qualified : String) :
    s'.target.isNamedBefore t qualified = s.target.isNamedBefore t qualified := by
  rw [Bool.eq_iff_iff, Target.isNamedBefore_iff, Target.isNamedBefore_iff]
  refine exists_congr fun o ↦ and_congr_right fun hlt ↦ ?_
  have ho := Nat.lt_trans hlt ht
  rw [h.typeDef_eq ho TypeDef.declaring fun _ ↦ rfl, h.typeDef_eq ht TypeDef.declaring fun _ ↦ rfl,
    h.qualifiedName_eq hs hs' ho]

theorem Grows.ownName_eq {t : TypeId} (ht : t.index < s.target.types.length)
    (x : ModuleId × TypeId) : s'.ownName ctx x t = s.ownName ctx x t := by
  rw [ownName, ownName, h.typeDef_eq ht TypeDef.declaring fun _ ↦ rfl]
  exact h.nameIn_eq hs hs' (fun o ho ↦ Nat.lt_trans (hs.linked.declaring_lt ho) ht) _ _

theorem renaming?_of_grows {x : ModuleId × TypeId}
    (hx : s'.map.typeOf? x.1 x.2 = s.map.typeOf? x.1 x.2) :
    s'.renaming? ctx x = s.renaming? ctx x := by
  unfold renaming?
  rw [hx]
  cases ht : s.map.typeOf? x.1 x.2 with
  | none => rfl
  | some t =>
    have hlt := hs.typeOf?_lt ht
    simp only [Option.bind_eq_bind, Option.bind_some]
    rw [h.ownName_eq hs hs' hlt, h.isNamedBefore_eq hs hs' hlt,
      h.typeDef_eq hlt TypeDef.name fun _ ↦ rfl]

end Growth

/-! ## Conflicts

A conflict is noted when a type takes a place that is there. At that moment the place has sources,
and the first of them is the winner that is noted. -/

section DeclareOne

variable (hs : s.Sound ctx) (hp : s.Placement ctx)
  (hfresh : s.map.find? m (.type p.type) = none)
include hs hfresh

theorem conflict?_new (hnew : (s.place ctx m p).1 = ⟨s.target.types.length⟩) :
    (s.declareOne ctx m p).2.conflict? ctx (m, p.type) = none := by
  have ht : (s.declareOne ctx m p).2.map.typeOf? m p.type = some (s.place ctx m p).1 :=
    typeOf?_declareOne hfresh
  simp [conflict?, ht, head?_sourcesOf_new hs hnew]

include hp in
/-- The conflict that is noted is the one that the type makes. -/
theorem conflicts_declareOne : (s.declareOne ctx m p).2.conflicts
    = s.conflicts ++ ((s.declareOne ctx m p).2.conflict? ctx (m, p.type)).toList := by
  have ht : (s.declareOne ctx m p).2.map.typeOf? m p.type = some (s.place ctx m p).1 :=
    typeOf?_declareOne hfresh
  have hout := s.outcome ctx m p
  change (s.place ctx m p).2.conflicts = _
  generalize hr : s.place ctx m p = r at hout
  cases hout with
  | reserved hmod => simp [conflict?, ht, hmod]
  | own hmod hfree | renamed hmod htaken hhide hname =>
    rw [conflict?_new hs hfresh (by rw [hr]; rfl)]
    simp [addShell_eq]
  | @shared existing hmod htaken hkept =>
    -- the place has a first source, and this type is not it
    have hlt := Target.lookup?_lt htaken
    obtain ⟨first, hfirst⟩ := Option.ne_none_iff_exists'.mp
      (mt List.head?_eq_none_iff.mp (hp.sourced existing hlt))
    have hne : first ≠ (m, p.type) := by
      rintro rfl
      have hold := hs.sources.mp (List.mem_of_head? hfirst)
      rw [SymbolMap.typeOf?, hfresh] at hold
      cases hold
    have hconflict : (s.declareOne ctx m p).2.conflict? ctx (m, p.type)
        = some ⟨s.wantedName ctx m p, (ctx.module first.1).name, (ctx.module m).name⟩ := by
      refine conflict?_eq_some_iff.mpr ⟨hmod, existing, first, by rw [ht, hr], ?_, hne, ?_⟩
      · rw [(grows_declareOne hfresh).head?_sourcesOf (hp.sourced existing hlt), hfirst]
      · rw [target_declareOne, hr, Target.qualifiedName_of_lookup? htaken]
    have horigin : s.map.typeOrigin? existing = some first.1 := by
      rw [SymbolMap.typeOrigin?, hfirst]
      rfl
    simp [hconflict, horigin]

end DeclareOne

/-! ## Names and containers of places

The notes speak of simple names, and places are found by qualified ones. Where no name holds
the separator, whoever has the qualified name stands in the same container, so the two say the
same. -/

/-- What the place of an input type says of it: the container comes from a type that lists or
declares it, and it has its own name unless it was renamed. -/
structure Settled (s : ImportState) (ctx : Context) (m : ModuleId) (id t : TypeId) : Prop where
  top : (Module.typeDef s.target t).declaring = none →
    ((ctx.module m).typeDef id).declaring = none
  inside : ∀ {u}, (Module.typeDef s.target t).declaring = some u → ∃ o, s.map.typeOf? m o = some u
    ∧ (id ∈ ((ctx.module m).typeDef o).nested
      ∨ ((ctx.module m).typeDef id).declaring = some o)
  own : s.renaming? ctx (m, id) = none →
    Module.qualifiedName s.target t = s.ownName ctx (m, id) t
  candidate : ∀ {r}, s.renaming? ctx (m, id) = some r → ∃ k, (Module.typeDef s.target t).name
    = Target.candidate (ctx.module m).name ((ctx.module m).typeDef id).name k

/-- No name of the output holds the separator, and every type stands where its place says. -/
structure Contained (s : ImportState) (ctx : Context) : Prop where
  plain : ∀ t : TypeId, t.index < s.target.types.length →
    '/' ∉ (Module.typeDef s.target t).nspace.toList
      ∧ '/' ∉ (Module.typeDef s.target t).name.toList
  settled : ∀ {m id t}, s.map.typeOf? m id = some t → s.Settled ctx m id t

theorem Settled.mono {id t : TypeId} (h : s.Settled ctx m id t) (hg : s.Grows s')
    (hs : s.Sound ctx) (hs' : s'.Sound ctx) (ht : s.map.typeOf? m id = some t) :
    s'.Settled ctx m id t := by
  have hlt := hs.typeOf?_lt ht
  have hdeclaring := hg.typeDef_eq hlt TypeDef.declaring fun _ ↦ rfl
  have hrenaming : s'.renaming? ctx (m, id) = s.renaming? ctx (m, id) :=
    renaming?_of_grows hg hs hs' ((hg.map.typeOf? ht).trans ht.symm)
  constructor
  case top =>
    rw [hdeclaring]
    exact h.top
  case inside =>
    intro u hu
    obtain ⟨o, ho, hlink⟩ := h.inside (hdeclaring ▸ hu)
    exact ⟨o, hg.map.typeOf? ho, hlink⟩
  case own =>
    intro hnone
    rw [hg.qualifiedName_eq hs hs' hlt, hg.ownName_eq hs hs' hlt]
    exact h.own (hrenaming ▸ hnone)
  case candidate =>
    intro r hr
    rw [hg.typeDef_eq hlt TypeDef.name fun _ ↦ rfl]
    exact h.candidate (hrenaming ▸ hr)

section Container

variable (hs : s.Sound ctx) (hp : s.Placement ctx) (hc : s.Contained ctx)
  (hfresh : s.map.find? m (.type p.type) = none) (hfits : p.Fits ctx m s)
  (hplain : (ctx.module m).PlainNames)

include hs hp hc hfits hplain in
/-- Whoever has the name that a type is looked for under stands in the container that it is to be
declared in. -/
theorem declaring_of_lookup? (hmod : ((ctx.module m).typeDef p.type).isModuleType = false)
    {existing : TypeId} (htaken : s.target.lookup? (s.wantedName ctx m p) = some existing) :
    (Module.typeDef s.target existing).declaring = p.container := by
  have hlt := Target.lookup?_lt htaken
  have hname := Target.qualifiedName_of_lookup? htaken
  rw [Module.qualifiedName_eq_nameIn hs.fault?_target, wantedName, hmod] at hname
  refine Target.container_eq_of_nameIn hp.names (fun o ho ↦ ?_) (hs.within hfits).container
    (hc.plain _ hlt).1 (hc.plain _ hlt).2 (hplain.typeDef _).1 (hplain.typeDef _).2 hname
  exact Nat.lt_trans (hs.linked.declaring_lt ho) hlt

include hs hp hc hfits hplain in
theorem declaring_declareOne (hmod : ((ctx.module m).typeDef p.type).isModuleType = false) :
    (Module.typeDef (s.declareOne ctx m p).2.target (s.place ctx m p).1).declaring
      = p.container := by
  have hout := s.outcome ctx m p
  rw [target_declareOne]
  generalize s.place ctx m p = r at hout
  cases hout with
  | reserved hres =>
    rw [hmod] at hres
    cases hres
  | own _ _ => exact congrArg TypeDef.declaring (typeDef_addShell hs hfits rfl _ _)
  | renamed _ _ _ _ => exact congrArg TypeDef.declaring (typeDef_addShell hs hfits rfl _ _)
  | shared _ htaken _ => exact declaring_of_lookup? hs hp hc hfits hplain hmod htaken

include hs hp hc hfresh hfits hplain

/-- The name that a type has by itself in its container is the one it was looked for under. -/
theorem ownName_declareOne (hmod : ((ctx.module m).typeDef p.type).isModuleType = false) :
    (s.declareOne ctx m p).2.ownName ctx (m, p.type) (s.place ctx m p).1
      = s.wantedName ctx m p := by
  rw [ownName, declaring_declareOne hs hp hc hfits hplain hmod,
    (grows_declareOne hfresh).nameIn_eq hs (hs.declareOne hfresh hfits) (hs.within hfits).container,
    wantedName, hmod]
  rfl

theorem isNamedBefore_declareOne (hmod : ((ctx.module m).typeDef p.type).isModuleType = false)
    (hnew : (s.place ctx m p).1 = ⟨s.target.types.length⟩) :
    (s.declareOne ctx m p).2.target.isNamedBefore (s.place ctx m p).1 (s.wantedName ctx m p)
      = (s.target.lookup? (s.wantedName ctx m p)).isSome := by
  have hg : s.Grows (s.declareOne ctx m p).2 := grows_declareOne hfresh
  have hs' := hs.declareOne hfresh hfits
  rw [Bool.eq_iff_iff, Target.isNamedBefore_iff, declaring_declareOne hs hp hc hfits hplain hmod,
    hnew, Option.isSome_iff_exists]
  constructor
  · rintro ⟨o, hlt, -, hname⟩
    rw [hg.qualifiedName_eq hs hs' hlt] at hname
    refine Option.ne_none_iff_exists'.mp fun hfree ↦ ?_
    exact Target.lookup?_eq_none_iff.mp hfree o hlt hname
  · rintro ⟨existing, htaken⟩
    have hlt := Target.lookup?_lt htaken
    refine ⟨existing, hlt, ?_, ?_⟩
    · rw [hg.typeDef_eq hlt TypeDef.declaring fun _ ↦ rfl]
      exact declaring_of_lookup? hs hp hc hfits hplain hmod htaken
    · rw [hg.qualifiedName_eq hs hs' hlt, Target.qualifiedName_of_lookup? htaken]

/-- A type that is declared is renamed if it is hidden and its name was declared before it. -/
theorem renaming?_declareOne (hmod : ((ctx.module m).typeDef p.type).isModuleType = false) :
    (s.declareOne ctx m p).2.renaming? ctx (m, p.type)
      = if p.hide && (s.declareOne ctx m p).2.target.isNamedBefore (s.place ctx m p).1
            (s.wantedName ctx m p) then
          some ⟨(ctx.module m).name, s.wantedName ctx m p,
            (Module.typeDef (s.declareOne ctx m p).2.target (s.place ctx m p).1).name⟩
        else none := by
  have ht : (s.declareOne ctx m p).2.map.typeOf? m p.type = some (s.place ctx m p).1 :=
    typeOf?_declareOne hfresh
  rw [renaming?, ht, Option.bind_eq_bind, Option.bind_some,
    ownName_declareOne hs hp hc hfresh hfits hplain hmod, hmod, hfits.hide]
  rfl

/-- The renaming that is noted is the one that the type has to accept. -/
theorem renamed_declareOne : (s.declareOne ctx m p).2.renamed
    = s.renamed ++ ((s.declareOne ctx m p).2.renaming? ctx (m, p.type)).toList := by
  have hrenaming := renaming?_declareOne hs hp hc hfresh hfits hplain
  have hbefore := isNamedBefore_declareOne hs hp hc hfresh hfits hplain
  have ht : (s.declareOne ctx m p).2.map.typeOf? m p.type = some (s.place ctx m p).1 :=
    typeOf?_declareOne hfresh
  have hout := s.outcome ctx m p
  change (s.place ctx m p).2.renamed = _
  generalize hr : s.place ctx m p = r at hout
  rw [hr] at hrenaming hbefore
  cases hout with
  | reserved hmod => simp [renaming?, ht, hmod]
  | own hmod hfree =>
    rw [hrenaming hmod, hbefore hmod rfl, hfree]
    simp [addShell_eq]
  | @renamed existing name hmod htaken hhide hname =>
    rw [hrenaming hmod, hbefore hmod rfl, htaken, hhide, target_declareOne, hr]
    let noted : ImportState := { s with renamed := s.renamed ++
      [⟨(ctx.module m).name, s.wantedName ctx m p, name⟩] }
    have hnoted : noted.target = s.target := rfl
    have hlooks := typeDef_addShell hs hfits hnoted ((ctx.module m).typeDef p.type) name
    exact congrArg (fun n ↦ s.renamed ++ [⟨(ctx.module m).name, s.wantedName ctx m p, n⟩])
      (congrArg TypeDef.name hlooks).symm
  | shared hmod _ hkept =>
    rw [hrenaming hmod, hkept]
    simp

/-- A type is renamed unless it finds its name free or is not hidden. -/
theorem renaming?_eq_none_iff (hmod : ((ctx.module m).typeDef p.type).isModuleType = false) :
    (s.declareOne ctx m p).2.renaming? ctx (m, p.type) = none
      ↔ s.target.lookup? (s.wantedName ctx m p) = none ∨ p.hide = false := by
  have hbefore := isNamedBefore_declareOne hs hp hc hfresh hfits hplain hmod
  rw [renaming?_declareOne hs hp hc hfresh hfits hplain hmod]
  cases hhide : p.hide with
  | false => simp
  | true =>
    have hout := s.outcome ctx m p
    generalize hr : s.place ctx m p = r at hout
    rw [hr] at hbefore
    cases hout with
    | reserved hres =>
      rw [hmod] at hres
      cases hres
    | own _ hfree =>
      rw [hbefore rfl, hfree]
      simp
    | renamed _ htaken _ _ =>
      rw [hbefore rfl, htaken]
      simp
    | shared _ _ hkept =>
      rw [hhide] at hkept
      cases hkept

omit hp hc hfresh hplain in
/-- A type that has to give up its name gets one of the names that are tried. -/
theorem candidate_declareOne (hmod : ((ctx.module m).typeDef p.type).isModuleType = false)
    {existing : TypeId} (htaken : s.target.lookup? (s.wantedName ctx m p) = some existing)
    (hhide : p.hide = true) : ∃ k,
      (Module.typeDef (s.declareOne ctx m p).2.target (s.place ctx m p).1).name
        = Target.candidate (ctx.module m).name ((ctx.module m).typeDef p.type).name k := by
  have hout := s.outcome ctx m p
  rw [target_declareOne]
  generalize s.place ctx m p = r at hout
  cases hout with
  | reserved hres =>
    rw [hmod] at hres
    cases hres
  | own _ hfree =>
    rw [htaken] at hfree
    cases hfree
  | @renamed _ name _ _ _ hname =>
    obtain ⟨k, hk⟩ := s.target.exists_freshName_eq p.container
      ((ctx.module m).typeDef p.type).nspace ((ctx.module m).typeDef p.type).name
      (ctx.module m).name
    refine ⟨k, (hname.trans hk) ▸ ?_⟩
    exact congrArg TypeDef.name (typeDef_addShell hs hfits rfl ((ctx.module m).typeDef p.type) name)
  | shared _ _ hkept =>
    rw [hhide] at hkept
    cases hkept

omit hp hc hplain in
theorem settled_reserved (hmod : ((ctx.module m).typeDef p.type).isModuleType = true) :
    (s.declareOne ctx m p).2.Settled ctx m p.type (s.place ctx m p).1 := by
  obtain ⟨hname, htop⟩ := reserved_declareOne hs hfresh hfits hmod
  have ht : (s.declareOne ctx m p).2.map.typeOf? m p.type = some (s.place ctx m p).1 :=
    typeOf?_declareOne hfresh
  have hown := hmod
  simp only [TypeDef.isModuleType, Bool.and_eq_true, Option.isNone_iff_eq_none,
    decide_eq_true_eq] at hown
  refine ⟨fun _ ↦ hown.1.1, fun hu ↦ ?_, fun _ ↦ ?_, fun hr ↦ ?_⟩
  · rw [htop] at hu
    cases hu
  · rw [hname, ownName, htop, hown.1.2, hown.2]
    rfl
  · simp [renaming?, ht, hmod] at hr

/-- A type that has been declared stands where its place says. -/
theorem settled_declareOne :
    (s.declareOne ctx m p).2.Settled ctx m p.type (s.place ctx m p).1 := by
  cases hmod : ((ctx.module m).typeDef p.type).isModuleType with
  | true => exact settled_reserved hs hfresh hfits hmod
  | false =>
    have hcontainer := declaring_declareOne hs hp hc hfits hplain hmod
    have hrenaming := renaming?_eq_none_iff hs hp hc hfresh hfits hplain hmod
    constructor
    case top => exact fun hu ↦ hfits.top (hcontainer ▸ hu)
    case inside =>
      intro u hu
      obtain ⟨o, ho, hlink⟩ := hfits.inside (hcontainer ▸ hu)
      exact ⟨o, (grows_declareOne hfresh).map.typeOf? ho, hlink⟩
    case own =>
      intro hnone
      rw [ownName_declareOne hs hp hc hfresh hfits hplain hmod]
      exact qualifiedName_declareOne hs hfresh hfits hmod (hrenaming.mp hnone)
    case candidate =>
      intro r hr
      have hsome := mt hrenaming.mpr (by rw [hr]; simp)
      obtain ⟨htaken, hhide⟩ := not_or.mp hsome
      obtain ⟨existing, htaken⟩ := Option.ne_none_iff_exists'.mp htaken
      exact candidate_declareOne hs hfits hmod htaken (by simpa using hhide)

omit hp hc hfresh in
theorem plain_place (hadded : s.target.types.length < (s.place ctx m p).2.target.types.length) :
    '/' ∉ (Module.typeDef (s.place ctx m p).2.target ⟨s.target.types.length⟩).nspace.toList
      ∧ '/' ∉ (Module.typeDef (s.place ctx m p).2.target ⟨s.target.types.length⟩).name.toList := by
  have hsource := hplain.typeDef p.type
  have hshell : ∀ {s₀ : ImportState} {name : String}, s₀.target = s.target → '/' ∉ name.toList →
      let t := Module.typeDef (s₀.addShell ((ctx.module m).typeDef p.type) p name).2.target
        ⟨s.target.types.length⟩
      '/' ∉ t.nspace.toList ∧ '/' ∉ t.name.toList := by
    intro s₀ name h₀ hname
    rw [typeDef_addShell hs hfits h₀]
    exact ⟨hsource.1, hname⟩
  have hout := s.outcome ctx m p
  generalize s.place ctx m p = r at hout hadded
  cases hout with
  | reserved _ =>
    rcases s.target.ensureModuleType_cases with ⟨heq, -⟩ | ⟨shell, -, heq, hname, -⟩
    · simp [heq] at hadded
    · obtain ⟨hno, hn, hsimple⟩ := Target.nameIn_eq_moduleTypeName hname
      have hin : ∀ o, shell.declaring = some o → o.index < s.target.types.length := by
        simp [hno]
      rw [heq, Module.typeDef_addType _ hin, if_pos rfl, hn, hsimple]
      exact ⟨by decide, by decide⟩
  | own _ _ => exact hshell rfl hsource.2
  | renamed _ _ _ hname =>
    obtain ⟨k, hk⟩ := s.target.exists_freshName_eq p.container
      ((ctx.module m).typeDef p.type).nspace ((ctx.module m).typeDef p.type).name
      (ctx.module m).name
    refine hshell rfl ?_
    rw [hname, hk]
    exact Target.slash_notMem_candidate hplain.1 hsource.2 k
  | shared _ _ _ => exact absurd hadded (Nat.lt_irrefl _)

end Container

end ImportState

/-! ## What a whole import notes

Each step that declares a type adds to the notes what can be read off the state afterwards.
Notes that were there before stay readable, since places keep their containers and their first
sources. -/

/-- When one element of a list comes to count, what it counts for comes on top. -/
theorem filterMap_perm_of_new {α β : Type} {l : List α} (hl : l.Nodup) {a : α} (ha : a ∈ l)
    {f g : α → Option β} (hf : f a = none) (hsame : ∀ x, x ≠ a → g x = f x) :
    (l.filterMap f ++ (g a).toList).Perm (l.filterMap g) := by
  obtain ⟨front, back, rfl⟩ := List.append_of_mem ha
  have hnew := List.nodup_middle.mp hl
  have hnot := (List.nodup_cons.mp hnew).1
  have hothers : ∀ l' : List α, (∀ x ∈ l', x ∈ front ++ back) →
      l'.filterMap g = l'.filterMap f := fun l' hsub ↦
    List.filterMap_congr fun x hx ↦ hsame x fun he ↦ hnot (he ▸ hsub x hx)
  rw [List.filterMap_append, List.filterMap_append, List.filterMap_cons, hf,
    hothers front fun x hx ↦ List.mem_append_left _ hx, List.append_assoc]
  refine List.Perm.append_left _ ?_
  cases hg : g a with
  | none =>
    rw [List.filterMap_cons_none hg, hothers back fun x hx ↦ List.mem_append_right _ hx]
    simp
  | some b =>
    rw [List.filterMap_cons_some hg, hothers back fun x hx ↦ List.mem_append_right _ hx]
    exact List.perm_append_singleton b _

namespace ImportState

/-- The conflicts that have been noted are those that the places tell. -/
def TellsConflicts (s : ImportState) (ctx : Context) : Prop :=
  s.conflicts.Perm (ctx.allTypes.filterMap (s.conflict? ctx))

/-- The renamings that have been noted are those that the places tell. -/
structure TellsNames (s : ImportState) (ctx : Context) : Prop where
  contained : s.Contained ctx
  renamed : s.renamed.Perm (ctx.allTypes.filterMap (s.renaming? ctx))

variable {s s' : ImportState} {ctx : Context} {m : ModuleId} {p : Pending}

theorem TellsConflicts.declareOne (h : s.TellsConflicts ctx) (hs : s.Sound ctx)
    (hp : s.Placement ctx) (hfresh : s.map.find? m (.type p.type) = none)
    (hfits : p.Fits ctx m s) : (s.declareOne ctx m p).2.TellsConflicts ctx := by
  have hold : s.conflict? ctx (m, p.type) = none := by
    simp [conflict?, SymbolMap.typeOf?, hfresh]
  unfold TellsConflicts
  rw [conflicts_declareOne hs hp hfresh]
  refine (h.append_right _).trans (filterMap_perm_of_new ctx.nodup_allTypes
    (Context.mem_allTypes_of_lt hfits.inRange) hold fun x hne ↦ ?_)
  exact conflict?_of_grows (grows_declareOne hfresh) hs (hs.declareOne hfresh hfits)
    (typeOf?_declareOne_of_ne hfresh hne)

theorem Contained.declareOne (h : s.Contained ctx) (hs : s.Sound ctx) (hp : s.Placement ctx)
    (hfresh : s.map.find? m (.type p.type) = none) (hfits : p.Fits ctx m s)
    (hplain : (ctx.module m).PlainNames) : (s.declareOne ctx m p).2.Contained ctx := by
  have hg : s.Grows (s.declareOne ctx m p).2 := grows_declareOne hfresh
  have hs' := hs.declareOne hfresh hfits
  refine ⟨fun t ht ↦ ?_, fun {l id t} ht ↦ ?_⟩
  · by_cases hold : t.index < s.target.types.length
    · rw [hg.typeDef_eq hold TypeDef.nspace fun _ ↦ rfl,
        hg.typeDef_eq hold TypeDef.name fun _ ↦ rfl]
      exact h.plain t hold
    · rcases s.place_cases ctx m p with hshares | ⟨shell, henters⟩
      · rw [target_declareOne, hshares.target] at ht
        exact absurd ht hold
      · rw [target_declareOne, henters.target, Module.length_types_addType] at ht
        obtain rfl : t = ⟨s.target.types.length⟩ := congrArg TypeId.mk (by omega)
        refine plain_place hs hfits hplain ?_
        rw [henters.target, Module.length_types_addType]
        exact Nat.lt_succ_self _
  · by_cases heq : (l, id) = (m, p.type)
    · cases heq
      rw [typeOf?_declareOne hfresh] at ht
      cases ht
      exact settled_declareOne hs hp h hfresh hfits hplain
    · have hold := (typeOf?_declareOne_of_ne hfresh heq).symm.trans ht
      exact (h.settled hold).mono hg hs hs' hold

theorem TellsNames.declareOne (h : s.TellsNames ctx) (hs : s.Sound ctx) (hp : s.Placement ctx)
    (hfresh : s.map.find? m (.type p.type) = none) (hfits : p.Fits ctx m s)
    (hplain : (ctx.module m).PlainNames) : (s.declareOne ctx m p).2.TellsNames ctx := by
  have hold : s.renaming? ctx (m, p.type) = none := by
    simp [renaming?, SymbolMap.typeOf?, hfresh]
  refine ⟨h.contained.declareOne hs hp hfresh hfits hplain, ?_⟩
  rw [renamed_declareOne hs hp h.contained hfresh hfits hplain]
  refine (h.renamed.append_right _).trans (filterMap_perm_of_new ctx.nodup_allTypes
    (Context.mem_allTypes_of_lt hfits.inRange) hold fun x hne ↦ ?_)
  exact renaming?_of_grows (grows_declareOne hfresh) hs (hs.declareOne hfresh hfits)
    (typeOf?_declareOne_of_ne hfresh hne)

section SameNotes

variable (hsame : s.SameNotes s') (hs : s.Sound ctx) (hs' : s'.Sound ctx) (hg : s.Grows s')
include hsame hs hs' hg

theorem TellsConflicts.of_sameNotes (h : s.TellsConflicts ctx) : s'.TellsConflicts ctx := by
  have hsame' : s'.conflict? ctx = s.conflict? ctx :=
    funext fun x ↦ conflict?_of_grows hg hs hs' (hsame.typeOf?_eq hs hs' x)
  rw [TellsConflicts, hsame.conflicts, hsame']
  exact h

theorem TellsNames.of_sameNotes (h : s.TellsNames ctx) : s'.TellsNames ctx := by
  have hsame' : s'.renaming? ctx = s.renaming? ctx :=
    funext fun x ↦ renaming?_of_grows hg hs hs' (hsame.typeOf?_eq hs hs' x)
  refine ⟨⟨fun t ht ↦ ?_, fun {m id t} ht ↦ ?_⟩, ?_⟩
  · rw [hsame.places.types] at ht
    rw [hg.typeDef_eq ht TypeDef.nspace fun _ ↦ rfl, hg.typeDef_eq ht TypeDef.name fun _ ↦ rfl]
    exact h.contained.plain t ht
  · have hold := (hsame.typeOf?_eq hs hs' (m, id)).symm.trans ht
    exact (h.contained.settled hold).mono hg hs hs' hold
  · rw [hsame.renamed, hsame']
    exact h.renamed

end SameNotes

end ImportState

theorem Import.tellsConflicts_of_run {ctx : Context} {s : ImportState}
    (hctx : ctx.registry.Accepted) (h : Import.run ctx ctx.startImport = .ok () s) :
    s.TellsConflicts ctx := by
  have hnone : ∀ x ∈ ctx.allTypes, ctx.startImport.conflict? ctx x = none := fun _ _ ↦ rfl
  refine Step.keeps (I := fun s ↦ s.TellsConflicts ctx)
    (fun hs hp hfresh hfits htells ↦ htells.declareOne hs hp hfresh hfits)
    (fun hs hs' hg hsame htells ↦ htells.of_sameNotes hsame hs hs' hg)
    ((reaches_run hctx).of_ok h).1 ctx.sound_startImport ctx.placement_startImport ?_
  rw [ImportState.TellsConflicts, List.filterMap_eq_nil_iff.mpr hnone]
  exact .nil

theorem Import.tellsNames_of_run {ctx : Context} {s : ImportState}
    (hctx : ctx.registry.Accepted) (hplain : ∀ m, (ctx.module m).PlainNames)
    (h : Import.run ctx ctx.startImport = .ok () s) : s.TellsNames ctx := by
  have hnone : ∀ x ∈ ctx.allTypes, ctx.startImport.renaming? ctx x = none := fun _ _ ↦ rfl
  refine Step.keeps (I := fun s ↦ s.TellsNames ctx)
    (fun hs hp hfresh hfits htells ↦ htells.declareOne hs hp hfresh hfits (hplain _))
    (fun hs hs' hg hsame htells ↦ htells.of_sameNotes hsame hs hs' hg)
    ((reaches_run hctx).of_ok h).1 ctx.sound_startImport ctx.placement_startImport
    ⟨⟨fun t ht ↦ (by cases ht), fun ht ↦ by cases ht⟩, ?_⟩
  rw [List.filterMap_eq_nil_iff.mpr hnone]
  exact .nil

end ModuleLinker

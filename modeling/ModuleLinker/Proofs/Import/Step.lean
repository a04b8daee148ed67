import ModuleLinker.Forwarding
import ModuleLinker.Import.Run
import ModuleLinker.Proofs.Image.Names
import ModuleLinker.Proofs.Remap

/-!
# The steps of an import

Everything that importing types does to its state is one of the steps below. A step says what it
changes and what was known when it was made: that the symbol was not mapped before, that the ids it
stores stand inside the output, and what the source says about the entry.

The steps come in layers. Finding a place for a type declares types and adds references; carrying a
signature over enters what a reference became besides; an operand may add member references; filling
types in adds members; copying sets bodies. What a layer
leaves alone is read off its own steps, so a fact about bodies need not look at how types are
declared.

Every step lets the state grow: entries stay where they are and mapped symbols stay mapped to the
same counterpart.
-/

namespace ModuleLinker

open Relation (ReflTransGen)

/-! ## What is kept -/

/-- The output and the map have only grown. -/
structure ImportState.Grows (s s' : ImportState) : Prop where
  target : Module.Grows s.target s'.target
  map : s.map.Extends s'.map
  sources : ∀ t, s.map.sourcesOf t <+: s'.map.sourcesOf t
  origins : ∀ {d m}, s.map.methodOrigin? d = some m → s'.map.methodOrigin? d = some m

namespace ImportState.Grows

variable {s s' s'' : ImportState}

theorem refl (s : ImportState) : s.Grows s :=
  ⟨.refl _, .refl _, fun _ ↦ List.prefix_refl _, id⟩

theorem trans (h : s.Grows s') (h' : s'.Grows s'') : s.Grows s'' :=
  ⟨h.target.trans h'.target, h.map.trans h'.map, fun t ↦ (h.sources t).trans (h'.sources t),
    fun ho ↦ h'.origins (h.origins ho)⟩

theorem of_eq (ht : s'.target = s.target) (hm : s'.map = s.map) : s.Grows s' := by
  refine ⟨?_, ?_, fun _ ↦ ?_, fun ho ↦ ?_⟩
  · rw [ht]
    exact .refl _
  · rw [hm]
    exact .refl _
  · exact hm ▸ List.prefix_refl _
  · rwa [hm]

theorem of_target {t : Target} (h : Module.Grows s.target t) : s.Grows { s with target := t } :=
  ⟨h, .refl _, fun _ ↦ List.prefix_refl _, id⟩

theorem of_record (s : ImportState) (m : ModuleId) (symbol : Symbol) (c : Counterpart) :
    s.Grows { s with map := s.map.record m symbol c } :=
  ⟨.refl _, SymbolMap.extends_record _ _ _ _, fun _ ↦ List.prefix_refl _, id⟩

theorem of_steps {T : ImportState → ImportState → Prop} (hT : ∀ s s', T s s' → s.Grows s')
    (h : ReflTransGen T s s') : s.Grows s' := by
  induction h with
  | refl => exact .refl s
  | tail _ hstep ih => exact ih.trans (hT _ _ hstep)

end ImportState.Grows

/-! ## What references lead to

What a reference is to lead to is said in terms of the inputs and of what they have become, and
not by how an import finds it. Growth keeps it: entries stay, and so do the references of the
output. -/

/-- The qualified name that a reference to a top-level type asks for. -/
def TypeRef.qualified (r : TypeRef) : String := joinNamespace r.nspace r.name

/-- A signature is a reference of the output to a top-level type of an external module, which is
known without regard to ASCII case. -/
def Target.Refers (t : Target) (assembly nspace name : String) (sig : TypeSig) : Prop :=
  ∃ (r : TypeRefId) (a : AssemblyRefId), sig = .reference r ∧ r.index < t.typeRefs.length
    ∧ t.typeRef r = { scope := .assembly a, nspace, name } ∧ a.index < t.assemblyRefs.length
    ∧ Text.sameName (t.assemblyRef a).name assembly = true

theorem Target.Refers.mono {t t' : Target} {assembly nspace name : String} {sig : TypeSig}
    (h : t.Refers assembly nspace name sig) (ht : Module.Grows t t') :
    t'.Refers assembly nspace name sig := by
  obtain ⟨r, a, hsig, hr, href, ha, hname⟩ := h
  exact ⟨r, a, hsig, Nat.lt_of_lt_of_le hr (ht.within .typeRef), (ht.typeRef hr).trans href,
    Nat.lt_of_lt_of_le ha (ht.within .assemblyRef), by rwa [ht.assembly ha]⟩

/-- The module that a reference names as its scope, if it stands outside the link, has an entry that
provides what is asked for. -/
def Target.Covers (t : Target) (ctx : Context) (m : ModuleId) (r : TypeRef) : Prop :=
  ∀ a, r.scope = .assembly a → ctx.merged? ((ctx.module m).assemblyRef a).name = none →
    ∃ e, t.Provides ((ctx.module m).assemblyRef a) e

theorem Target.Covers.mono {t t' : Target} {ctx : Context} {m : ModuleId} {r : TypeRef}
    (h : t.Covers ctx m r) (ht : Module.Grows t t') : t'.Covers ctx m r := by
  intro a hscope hout
  obtain ⟨e, he⟩ := h a hscope hout
  exact ⟨e, he.mono ht⟩

namespace ImportState

/-- What a module of the link answers when it is asked for a top-level type: its own type, or what
its forwarders lead to. -/
inductive Answers (s : ImportState) (ctx : Context) (l : ModuleId) (r : TypeRef) : TypeSig → Prop
  | own {type t : TypeId} (h : ctx.findType? l r.qualified = some type)
      (ht : s.map.typeOf? l type = some t) : Answers s ctx l r (.definition t)
  | forwarded {d : ModuleId} {type t : TypeId} (hno : ctx.findType? l r.qualified = none)
      (hwalk : ctx.followForwarders l r.qualified = .ok (.defined d type))
      (ht : s.map.typeOf? d type = some t) : Answers s ctx l r (.definition t)
  | outside {f : ModuleId} {a : AssemblyRefId} {sig : TypeSig}
      (hno : ctx.findType? l r.qualified = none)
      (hwalk : ctx.followForwarders l r.qualified = .ok (.external f a))
      (hout : ctx.merged? ((ctx.module f).assemblyRef a).name = none)
      (href : s.target.Refers ((ctx.module f).assemblyRef a).name r.nspace r.name sig) :
      Answers s ctx l r sig

/-- What a type reference of a module leads to, when it is not nested in another. -/
def Resolves (s : ImportState) (ctx : Context) (m : ModuleId) (r : TypeRef) (sig : TypeSig) :
    Prop :=
  match r.scope with
  | .local => ∃ type t, ctx.findType? m r.qualified = some type
      ∧ s.map.typeOf? m type = some t ∧ sig = .definition t
  | .assembly a =>
    match ctx.merged? ((ctx.module m).assemblyRef a).name with
    | some l => s.Answers ctx l r sig
    | none => s.target.Refers ((ctx.module m).assemblyRef a).name r.nspace r.name sig
  | .nested _ => True

variable {s s' : ImportState} {ctx : Context}

theorem Answers.mono {l : ModuleId} {r : TypeRef} {sig : TypeSig} (h : s.Answers ctx l r sig)
    (hs : s.Grows s') : s'.Answers ctx l r sig := by
  cases h with
  | own h ht => exact .own h (hs.map.typeOf? ht)
  | forwarded hno hwalk ht => exact .forwarded hno hwalk (hs.map.typeOf? ht)
  | outside hno hwalk hout href => exact .outside hno hwalk hout (href.mono hs.target)

theorem Resolves.mono {m : ModuleId} {r : TypeRef} {sig : TypeSig} (h : s.Resolves ctx m r sig)
    (hs : s.Grows s') : s'.Resolves ctx m r sig := by
  unfold Resolves at h ⊢
  cases hscope : r.scope with
  | «local» =>
    rw [hscope] at h
    obtain ⟨type, t, hfind, ht, hsig⟩ := h
    exact ⟨type, t, hfind, hs.map.typeOf? ht, hsig⟩
  | assembly a =>
    rw [hscope] at h
    dsimp only at h ⊢
    cases hl : ctx.merged? ((ctx.module m).assemblyRef a).name with
    | some l =>
      rw [hl] at h
      exact h.mono hs
    | none =>
      rw [hl] at h
      exact h.mono hs.target
  | nested _ => trivial

end ImportState

/-- The first type of a simple name that is listed in one of several input types. -/
def Context.nestedAmong? (ctx : Context) (sources : List (ModuleId × TypeId)) (name : String) :
    Option (ModuleId × TypeId) :=
  sources.findSome? fun (m, type) ↦
    let nested := ((ctx.module m).typeDef type).nested
    (nested.find? fun id ↦ ((ctx.module m).typeDef id).name = name).map fun id ↦ (m, id)

/-- What a nested reference leads to. Its outer reference has been mapped; when that became a type
of the output, the first type of the name that is listed in an input type mapped onto it decides. -/
def ImportState.FindsNested (s : ImportState) (ctx : Context) (m : ModuleId) (r : TypeRef)
    (sig : TypeSig) : Prop :=
  ∀ outer, r.scope = .nested outer → ∃ around, s.map.typeRefOf? m outer = some around
    ∧ ∀ t l n, around = .definition t →
      ctx.nestedAmong? (s.map.sourcesOf t) r.name = some (l, n) →
      ∃ t', s.map.typeOf? l n = some t' ∧ sig = .definition t'

/-! ## Declaring one type

A type either takes a place that is there or enters a new one. Who is asked for the name, and
under which name the new place is entered, depends on whether the type is reserved and whether it
is hidden. -/

/-- A type with nothing in it, declared in a container if in any. -/
structure TypeDef.IsShell (t : TypeDef) (container : Option TypeId) : Prop where
  base : t.base = none
  interfaces : t.interfaces = []
  nested : t.nested = []
  fields : t.fields = []
  methods : t.methods = []
  declaring : ∀ {o}, t.declaring = some o → container = some o

/-- What is known of a type that is to be declared: it is a type of the module, and its container is
the place of a type that lists it or declares it. -/
structure Pending.Fits (p : Pending) (ctx : Context) (m : ModuleId) (s : ImportState) : Prop where
  inRange : p.type.index < (ctx.module m).types.length
  hide : p.hide = ctx.internalizesType m p.type
  top : p.container = none → ((ctx.module m).typeDef p.type).declaring = none
  inside : ∀ {t}, p.container = some t → ∃ o, s.map.typeOf? m o = some t
    ∧ (p.type ∈ ((ctx.module m).typeDef o).nested
      ∨ ((ctx.module m).typeDef p.type).declaring = some o)

theorem Pending.Fits.mono {p : Pending} {ctx : Context} {m : ModuleId} {s s' : ImportState}
    (h : p.Fits ctx m s) (hs : s.Grows s') : p.Fits ctx m s' where
  inRange := h.inRange
  hide := h.hide
  top := h.top
  inside hc := by
    obtain ⟨o, ho, hlink⟩ := h.inside hc
    exact ⟨o, hs.map.typeOf? ho, hlink⟩

/-- What a type must have to be entered at all: it is a type of the module, and its container is a
type of the output. -/
structure Pending.Within (p : Pending) (ctx : Context) (m : ModuleId) (s : ImportState) : Prop where
  inRange : p.type.index < (ctx.module m).types.length
  container : ∀ o, p.container = some o → o.index < s.target.types.length

/-- The module-level type is there, or is added at the top under its free name. -/
theorem Target.ensureModuleType_cases (t : Target) :
    (t.ensureModuleType.2 = t ∧ t.lookup? moduleTypeName = some t.ensureModuleType.1)
      ∨ ∃ shell : TypeDef, shell.IsShell none ∧ t.ensureModuleType = t.addType shell
        ∧ t.nameIn shell.declaring shell.nspace shell.name = moduleTypeName
        ∧ t.lookup? moduleTypeName = none := by
  unfold Target.ensureModuleType
  cases hl : t.lookup? moduleTypeName with
  | some id => exact .inl ⟨rfl, rfl⟩
  | none => exact .inr ⟨_, ⟨rfl, rfl, rfl, rfl, rfl, fun ho ↦ by cases ho⟩, rfl, rfl, rfl⟩

namespace ImportState

section Place

variable (s : ImportState) (ctx : Context) (m : ModuleId) (p : Pending)

/-- The name that a type is looked for under: the reserved name, or its own inside its container. -/
def wantedName : String :=
  let t := (ctx.module m).typeDef p.type
  if t.isModuleType then moduleTypeName else s.target.nameIn p.container t.nspace t.name

/-- A type takes the place of the type that has its name; one that is hidden does not. -/
structure Shares : Prop where
  target : (s.place ctx m p).2.target = s.target
  found : s.target.lookup? (s.wantedName ctx m p) = some (s.place ctx m p).1
  kept : ((ctx.module m).typeDef p.type).isModuleType = false → p.hide = false

/-- A type gets a new place under a free name, which is the one it is looked for under if nobody has
that, or if it is the reserved one. -/
structure Enters (shell : TypeDef) : Prop where
  isShell : shell.IsShell p.container
  place : (s.place ctx m p).1 = ⟨s.target.types.length⟩
  target : (s.place ctx m p).2.target = (s.target.addType shell).2
  free : s.target.lookup? (s.target.nameIn shell.declaring shell.nspace shell.name) = none
  own : ((ctx.module m).typeDef p.type).isModuleType = true
      ∨ s.target.lookup? (s.wantedName ctx m p) = none →
    s.target.nameIn shell.declaring shell.nspace shell.name = s.wantedName ctx m p
  visibility : ((ctx.module m).typeDef p.type).isModuleType = false →
    shell.visibility = if p.hide then ((ctx.module m).typeDef p.type).visibility.internalized
      else ((ctx.module m).typeDef p.type).visibility

variable {s ctx m p} in
theorem Shares.lt (h : s.Shares ctx m p) :
    (s.place ctx m p).1.index < s.target.types.length :=
  Target.lookup?_lt h.found

variable {s ctx m p} in
theorem enters_of_addShell {s' : ImportState} {name : String} (ht : s'.target = s.target)
    (hplace : s.place ctx m p = s'.addShell ((ctx.module m).typeDef p.type) p name)
    (hfree : s.target.lookup? (s.target.nameIn p.container ((ctx.module m).typeDef p.type).nspace
      name) = none)
    (hown : ((ctx.module m).typeDef p.type).isModuleType = true
        ∨ s.target.lookup? (s.wantedName ctx m p) = none →
      s.target.nameIn p.container ((ctx.module m).typeDef p.type).nspace name
        = s.wantedName ctx m p) :
    ∃ shell, s.Enters ctx m p shell := by
  let t := (ctx.module m).typeDef p.type
  let shell : TypeDef := {
    nspace := t.nspace, name, isSerializable := t.isSerializable, attributes := t.attributes
    visibility := if p.hide then t.visibility.internalized else t.visibility
    declaring := p.container }
  refine ⟨shell, ⟨rfl, rfl, rfl, rfl, rfl, fun ho ↦ ho⟩, ?_, ?_, hfree, hown, fun _ ↦ rfl⟩
  all_goals
    rw [hplace, ← ht]
    rfl

theorem place_cases : s.Shares ctx m p ∨ ∃ shell, s.Enters ctx m p shell := by
  cases hmod : ((ctx.module m).typeDef p.type).isModuleType with
  | true =>
    have hwanted : s.wantedName ctx m p = moduleTypeName := by simp [wantedName, hmod]
    have hplace : (s.place ctx m p).1 = s.target.ensureModuleType.1
        ∧ (s.place ctx m p).2.target = s.target.ensureModuleType.2 := by
      simp [place, hmod]
    rcases s.target.ensureModuleType_cases with ⟨heq, hl⟩ | ⟨shell, hshell, heq, hname, hl⟩
    · refine .inl ⟨hplace.2.trans heq, ?_, fun hno ↦ by rw [hmod] at hno; cases hno⟩
      rw [hwanted, hl, hplace.1]
    · refine .inr ⟨shell, ?_, ?_, ?_, hname ▸ hl, fun _ ↦ hname.trans hwanted.symm,
        fun hno ↦ by rw [hmod] at hno; cases hno⟩
      · exact ⟨hshell.base, hshell.interfaces, hshell.nested, hshell.fields, hshell.methods,
          fun ho ↦ by cases hshell.declaring ho⟩
      · rw [hplace.1, heq]
        rfl
      · rw [hplace.2, heq]
  | false =>
    have hwanted : s.wantedName ctx m p = s.target.nameIn p.container
        ((ctx.module m).typeDef p.type).nspace ((ctx.module m).typeDef p.type).name := by
      simp [wantedName, hmod]
    cases hl : s.target.lookup? (s.wantedName ctx m p) with
    | none =>
      have hplace : s.place ctx m p = s.addShell ((ctx.module m).typeDef p.type) p
          ((ctx.module m).typeDef p.type).name := by
        simp [place, hmod, ← hwanted, hl]
      exact .inr (enters_of_addShell rfl hplace (hwanted ▸ hl) fun _ ↦ hwanted.symm)
    | some existing =>
      cases hhide : p.hide with
      | false =>
        have hplace : (s.place ctx m p).1 = existing
            ∧ (s.place ctx m p).2.target = s.target := by
          simp [place, hmod, ← hwanted, hl, hhide]
        exact .inl ⟨hplace.2, hplace.1 ▸ hl, fun _ ↦ hhide⟩
      | true =>
        -- the name is taken, so the type is entered under one that is not
        let t := (ctx.module m).typeDef p.type
        let name := s.target.freshName p.container t.nspace t.name (ctx.module m).name
        let noted : Renaming :=
          { module := (ctx.module m).name, name := s.wantedName ctx m p, renamed := name }
        let s' : ImportState := { s with renamed := s.renamed ++ [noted] }
        have ht : s'.target = s.target := rfl
        have hplace : s.place ctx m p = s'.addShell t p name := by
          simp only [place, hmod, ← hwanted, hl, hhide, if_true, Bool.false_eq_true, if_false]
          rfl
        exact .inr (enters_of_addShell ht hplace (Target.lookup?_freshName _ _ _ _ _)
          (by rw [hmod, hl]; simp))

end Place

variable {s : ImportState} {ctx : Context} {m : ModuleId} {p : Pending}

@[simp] theorem target_declareOne :
    (s.declareOne ctx m p).2.target = (s.place ctx m p).2.target := rfl

@[simp] theorem declareOne_fst : (s.declareOne ctx m p).1 = (s.place ctx m p).1 := rfl

@[simp] theorem populated_declareOne :
    (s.declareOne ctx m p).2.populated = s.populated := by
  change (s.place ctx m p).2.populated = s.populated
  unfold place
  dsimp only
  split
  · rfl
  · split
    · rfl
    · split <;> rfl

@[simp] theorem copied_declareOne : (s.declareOne ctx m p).2.copied = s.copied := by
  change (s.place ctx m p).2.copied = s.copied
  unfold place
  dsimp only
  split
  · rfl
  · split
    · rfl
    · split <;> rfl

theorem map_declareOne : (s.declareOne ctx m p).2.map
    = (s.map.record m (.type p.type) (.type (.definition (s.place ctx m p).1))).recordSource
        (s.place ctx m p).1 m p.type := by
  change ((s.place ctx m p).2.map.record m (.type p.type)
    (.type (.definition (s.place ctx m p).1))).recordSource (s.place ctx m p).1 m p.type = _
  rw [map_place]

theorem find?_declareOne (hfresh : s.map.find? m (.type p.type) = none) (m' : ModuleId)
    (symbol : Symbol) :
    (s.declareOne ctx m p).2.map.find? m' symbol
      = if (m', symbol) = (m, .type p.type) then
          some (.type (.definition (s.place ctx m p).1))
        else s.map.find? m' symbol := by
  rw [map_declareOne]
  exact (SymbolMap.find?_record _ _ _ _ _ _).trans (by rw [hfresh]; rfl)

theorem typeOf?_declareOne (hfresh : s.map.find? m (.type p.type) = none) :
    (s.declareOne ctx m p).2.map.typeOf? m p.type = some (s.declareOne ctx m p).1 := by
  rw [SymbolMap.typeOf?_eq_some, find?_declareOne hfresh, if_pos rfl]
  rfl

theorem typeOf?_declareOne_iff (hfresh : s.map.find? m (.type p.type) = none) {m' : ModuleId}
    {id t : TypeId} : (s.declareOne ctx m p).2.map.typeOf? m' id = some t
      ↔ s.map.typeOf? m' id = some t ∨ (m', id) = (m, p.type) ∧ t = (s.place ctx m p).1 := by
  rw [SymbolMap.typeOf?_eq_some, find?_declareOne hfresh]
  by_cases heq : (m', id) = (m, p.type)
  · cases heq
    have hnone : s.map.typeOf? m p.type = none := by
      rw [SymbolMap.typeOf?, hfresh]
    simp [hnone, eq_comm]
  · rw [if_neg fun he ↦ heq (by cases he; rfl), ← SymbolMap.typeOf?_eq_some]
    simp [heq]

theorem sourcesOf_declareOne (t : TypeId) :
    (s.declareOne ctx m p).2.map.sourcesOf t
      = if t = (s.place ctx m p).1 ∧ (m, p.type) ∉ s.map.sourcesOf t then
          s.map.sourcesOf t ++ [(m, p.type)]
        else s.map.sourcesOf t := by
  rw [map_declareOne, SymbolMap.sourcesOf, SymbolMap.recordSource, Table.find?_insert]
  by_cases ht : t = (s.place ctx m p).1
  · subst ht
    rw [if_pos rfl]
    change (if (m, p.type) ∈ s.map.sourcesOf _ then s.map.sourcesOf _
      else s.map.sourcesOf _ ++ [(m, p.type)]) = _
    by_cases hmem : (m, p.type) ∈ s.map.sourcesOf (s.place ctx m p).1 <;> simp [hmem]
  · rw [if_neg ht, if_neg fun h ↦ ht h.1]
    rfl

@[simp] theorem methodOrigin?_declareOne (d : MethodId) :
    (s.declareOne ctx m p).2.map.methodOrigin? d = s.map.methodOrigin? d := by
  rw [map_declareOne]
  rfl

theorem grows_declareOne (hfresh : s.map.find? m (.type p.type) = none) :
    s.Grows (s.declareOne ctx m p).2 := by
  refine ⟨?_, fun m' symbol c hc ↦ ?_, fun t ↦ ?_, fun h ↦ ?_⟩
  · rw [target_declareOne]
    rcases s.place_cases ctx m p with hshares | ⟨shell, henters⟩
    · rw [hshares.target]
      exact .refl _
    · rw [henters.target]
      exact .addType _ _
  · rw [find?_declareOne hfresh, if_neg]
    · exact hc
    · intro heq
      cases heq
      rw [hfresh] at hc
      cases hc
  · rw [sourcesOf_declareOne]
    split
    · exact List.prefix_append _ _
    · exact List.prefix_refl _
  · rwa [methodOrigin?_declareOne]

end ImportState

/-! ## The steps

There is one kind of step for each of the three sweeps, and the kinds contain one another as the
operations do: carrying a signature over may place types, carrying an operand over may carry
signatures over. A step says what it needs of the state before it, so that an invariant is shown
for each constructor once. -/

/-- A counterpart, as the operand that uses it. -/
def Counterpart.operand : Counterpart → Operand
  | .type sig => .type sig
  | .method handle => .method handle
  | .field handle => .field handle

/-- The ids in a counterpart. -/
def Counterpart.ids (c : Counterpart) : List (TableKind × Nat) := c.operand.ids

/-- The name of the member of a module that a counterpart is. -/
def Counterpart.memberName? (c : Counterpart) (t : Module) : Option String :=
  match c with
  | .type _ => none
  | .method handle => some (t.handleName handle)
  | .field (.definition id) => some (t.field id).name
  | .field (.reference id) => some (t.memberRef id).name

theorem Counterpart.memberName?_of_grows {c : Counterpart} {t t' : Module} (ht : t.Grows t')
    (hin : ∀ x ∈ c.ids, t.Has x) : c.memberName? t' = c.memberName? t := by
  have hhas : ∀ {x}, x ∈ c.ids → t.Has x := fun {x} ↦ hin x
  cases c with
  | type _ => rfl
  | method handle =>
    cases handle with
    | definition id =>
      have hname := congrArg MethodDef.name (ht.method (d := id) (hhas (.head _)))
      exact congrArg some hname
    | reference id => exact congrArg (fun r ↦ some r.name) (ht.memberRef (hhas (.head _)))
  | field handle =>
    cases handle with
    | definition id => exact congrArg (fun d ↦ some d.name) (ht.field (hhas (.head _)))
    | reference id => exact congrArg (fun r ↦ some r.name) (ht.memberRef (hhas (.head _)))

/-- The types listed in a type that has a place have places themselves. -/
def ImportState.NestedPlaced (s : ImportState) (ctx : Context) (m : ModuleId) : Prop :=
  ∀ o t n, s.map.typeOf? m o = some t → n ∈ ((ctx.module m).typeDef o).nested →
    ∃ t', s.map.typeOf? m n = some t'

/-- Which counterparts a symbol may have: definitions become definitions, and references become
whatever of their kind they lead to. -/
def Symbol.Admits : Symbol → Counterpart → Prop
  | .type _, .type (.definition _) => True
  | .method _, .method (.definition _) => True
  | .field _, .field (.definition _) => True
  | .typeRef _, .type _ => True
  | .memberRef _, .method _ => True
  | .memberRef _, .field _ => True
  | .export _, .type _ => True
  | _, _ => False

namespace Import

variable (ctx : Context) (s : ImportState)

/-- What declaring the types of a module does to the state. -/
inductive DeclareStep (ctx : Context) (m : ModuleId) (s : ImportState) : ImportState → Prop
  | declare {p : Pending} (hfresh : s.map.find? m (.type p.type) = none)
      (hfits : p.Fits ctx m s) : DeclareStep ctx m s (s.declareOne ctx m p).2

/-- Types of a module have been declared, each with all that is listed in it. -/
structure Declares (ctx : Context) (m : ModuleId) (s s' : ImportState) : Prop where
  steps : ReflTransGen (DeclareStep ctx m) s s'
  nested : s.NestedPlaced ctx m → s'.NestedPlaced ctx m

/-- What finding a place for a type does to the state. -/
inductive PlaceStep : ImportState → Prop
  | declare {m : ModuleId} {s' : ImportState} (h : Declares ctx m s s') : PlaceStep s'
  | refer {m : ModuleId} {a : AssemblyRefId} (ha : a.index < (ctx.module m).assemblyRefs.length)
      (hout : ctx.merged? ((ctx.module m).assemblyRef a).name = none) :
      PlaceStep { s with target := (s.target.referAssembly ((ctx.module m).assemblyRef a)).2 }
  | intern {r : TypeRef} (hin : ∀ x ∈ r.ids, s.target.Has x) :
      PlaceStep { s with target := (s.target.internTypeRef r).2 }

/-- What carrying a signature over does to the state. -/
inductive SignStep : ImportState → Prop
  | place {s' : ImportState} (h : PlaceStep ctx s s') : SignStep s'
  | resolve {m : ModuleId} {id : TypeRefId} {sig : TypeSig}
      (hfresh : s.map.find? m (.typeRef id) = none) (hin : ∀ x ∈ sig.ids, s.target.Has x)
      (hmeans : s.Resolves ctx m ((ctx.module m).typeRef id) sig)
      (hfinds : s.FindsNested ctx m ((ctx.module m).typeRef id) sig)
      (hcovers : s.target.Covers ctx m ((ctx.module m).typeRef id)) :
      SignStep { s with map := s.map.record m (.typeRef id) (.type sig) }

/-- What carrying an operand over does to the state. -/
inductive UseStep : ImportState → Prop
  | sign {s' : ImportState} (h : SignStep ctx s s') : UseStep s'
  | intern {r : MemberRef} (hin : ∀ x ∈ r.ids, s.target.Has x) :
      UseStep { s with target := (s.target.internMemberRef r).2 }
  | resolve {m : ModuleId} {id : MemberRefId} {c : Counterpart}
      (hfresh : s.map.find? m (.memberRef id) = none)
      (hadmits : (Symbol.memberRef id).Admits c) (hin : ∀ x ∈ c.ids, s.target.Has x)
      (hname : c.memberName? s.target = some ((ctx.module m).memberRef id).name) :
      UseStep { s with map := s.map.record m (.memberRef id) c }

/-- A member that an input type lists, and the place of that type in the output. -/
structure Listed (m : ModuleId) (owner t : TypeId) (listed : TypeDef → Prop) : Prop where
  place : s.map.typeOf? m owner = some t
  listed : listed ((ctx.module m).typeDef owner)

/-- What filling in a type of a module does to the state. -/
inductive FillStep (ctx : Context) (m : ModuleId) (s : ImportState) : ImportState → Prop
  | sign {s' : ImportState} (h : SignStep ctx s s') : FillStep ctx m s s'
  | hierarchy {id t : TypeId} {base : Option TypeSig} {interfaces : List TypeSig}
      (hfirst : (s.map.sourcesOf t).head? = some (m, id))
      (hbase : s.map.remapOption? m ((ctx.module m).typeDef id).base = some base)
      (hinterfaces :
        s.map.remapSigs? m ((ctx.module m).typeDef id).interfaces = some interfaces) :
      FillStep ctx m s
        { s with target := s.target.updateType t fun d ↦ { d with base, interfaces } }
  | shareField {id place : FieldId} {owner t : TypeId}
      (hfresh : s.map.find? m (.field id) = none)
      (hlisted : Listed ctx s m owner t fun d ↦ id ∈ d.fields)
      (hfound : s.target.findField? t ((ctx.module m).field id).name = some place) :
      FillStep ctx m s { s with map := s.map.record m (.field id) (.field (.definition place)) }
  | addField {id : FieldId} {owner t : TypeId} {fieldType : TypeSig}
      (hfresh : s.map.find? m (.field id) = none)
      (hlisted : Listed ctx s m owner t fun d ↦ id ∈ d.fields)
      (hnone : s.target.findField? t ((ctx.module m).field id).name = none)
      (htype : s.map.remapSig? m ((ctx.module m).field id).fieldType = some fieldType) :
      FillStep ctx m s { s with
        target := (s.target.addField { (ctx.module m).field id with fieldType, declaring := t }).2
        map := s.map.record m (.field id) (.field (.definition ⟨s.target.fields.length⟩)) }
  | shareMethod {id place : MethodId} {owner t : TypeId} {params : List TypeSig}
      {ret : Option TypeSig} (hfresh : s.map.find? m (.method id) = none)
      (hlisted : Listed ctx s m owner t fun d ↦ id ∈ d.methods)
      (hkept : isFoldedLater ctx m owner id = false)
      (hparams : s.map.remapSigs? m ((ctx.module m).method id).params = some params)
      (hret : s.map.remapOption? m ((ctx.module m).method id).ret = some ret)
      (hfound : s.target.findMethod? t ((ctx.module m).method id).name params ret = some place) :
      FillStep ctx m s { s with map := s.map.record m (.method id) (.method (.definition place)) }
  | addMethod {id : MethodId} {owner t : TypeId} {params : List TypeSig}
      {ret : Option TypeSig} (hfresh : s.map.find? m (.method id) = none)
      (hlisted : Listed ctx s m owner t fun d ↦ id ∈ d.methods)
      (hkept : isFoldedLater ctx m owner id = false)
      (hparams : s.map.remapSigs? m ((ctx.module m).method id).params = some params)
      (hret : s.map.remapOption? m ((ctx.module m).method id).ret = some ret)
      (hnone : s.target.findMethod? t ((ctx.module m).method id).name params ret = none) :
      FillStep ctx m s { s with
        target := (s.target.addMethod
          { (ctx.module m).method id with params, ret, body := none, declaring := t }).2
        map := (s.map.recordMethodOrigin ⟨s.target.methods.length⟩ m).record m (.method id)
          (.method (.definition ⟨s.target.methods.length⟩)) }

/-- What filling types in does to the state. -/
inductive ShapeStep : ImportState → Prop
  | fill {m : ModuleId} {s' : ImportState} (h : FillStep ctx m s s') : ShapeStep s'
  | visit (m : ModuleId) (id : TypeId) :
      ShapeStep { s with populated := (m, id) :: s.populated }

/-- What copying bodies does to the state. -/
inductive CopyStep : ImportState → Prop
  | use {s' : ImportState} (h : UseStep ctx s s') : CopyStep s'
  | visit (m : ModuleId) (id : MethodId) : CopyStep { s with copied := (m, id) :: s.copied }
  | setBody {m : ModuleId} {id place : MethodId} {source body : Body}
      (hplace : s.map.methodOf? m id = some (.definition place))
      (horigin : s.map.methodOrigin? place = some m)
      (hsource : ((ctx.module m).method id).body = some source)
      (hbody : s.map.remapBody? m source = some body) :
      CopyStep { s with target := s.target.updateMethod place fun d ↦ { d with body := some body } }

/-- What importing types does to the state. -/
inductive Step : ImportState → Prop
  | shape {s' : ImportState} (h : ShapeStep ctx s s') : Step s'
  | copy {s' : ImportState} (h : CopyStep ctx s s') : Step s'

variable {ctx s} {s' : ImportState}

theorem DeclareStep.grows {m : ModuleId} (h : DeclareStep ctx m s s') : s.Grows s' := by
  cases h with
  | declare hfresh _ => exact ImportState.grows_declareOne hfresh

theorem DeclareStep.grows_steps {m : ModuleId} (h : ReflTransGen (DeclareStep ctx m) s s') :
    s.Grows s' :=
  .of_steps (fun _ _ ↦ DeclareStep.grows) h

theorem DeclareStep.find?_eq {m : ModuleId} (h : DeclareStep ctx m s s') (l : ModuleId)
    {symbol : Symbol} (hne : ∀ id, (l, symbol) ≠ (m, .type id)) :
    s'.map.find? l symbol = s.map.find? l symbol := by
  cases h with
  | declare hfresh _ => rw [ImportState.find?_declareOne hfresh, if_neg (hne _)]

theorem DeclareStep.find?_eq_steps {m : ModuleId} (h : ReflTransGen (DeclareStep ctx m) s s')
    (l : ModuleId) {symbol : Symbol} (hne : ∀ id, (l, symbol) ≠ (m, .type id)) :
    s'.map.find? l symbol = s.map.find? l symbol := by
  induction h with
  | refl => rfl
  | tail _ hstep ih => exact (hstep.find?_eq l hne).trans ih

theorem Declares.of_steps {m : ModuleId} (h : ReflTransGen (Declares ctx m) s s') :
    Declares ctx m s s' := by
  induction h with
  | refl => exact ⟨.refl, id⟩
  | tail _ hstep ih => exact ⟨ih.steps.trans hstep.steps, hstep.nested ∘ ih.nested⟩

theorem PlaceStep.grows (h : PlaceStep ctx s s') : s.Grows s' := by
  cases h with
  | declare h => exact DeclareStep.grows_steps h.steps
  | refer _ _ => exact .of_target (Target.grows_referAssembly _ _)
  | intern _ => exact .of_target (Target.grows_internTypeRef _ _)

theorem SignStep.grows (h : SignStep ctx s s') : s.Grows s' := by
  cases h with
  | place h => exact h.grows
  | resolve _ _ _ _ _ => exact .of_record s _ _ _

theorem UseStep.grows (h : UseStep ctx s s') : s.Grows s' := by
  cases h with
  | sign h => exact h.grows
  | intern _ => exact .of_target (Target.grows_internMemberRef _ _)
  | resolve _ _ _ _ => exact .of_record s _ _ _

theorem FillStep.grows {m : ModuleId} (h : FillStep ctx m s s') : s.Grows s' := by
  cases h with
  | sign h => exact h.grows
  | hierarchy _ _ _ => exact .of_target (.updateType _ _ fun _ ↦ rfl)
  | shareField _ _ _ | shareMethod _ _ _ _ _ _ => exact .of_record s _ _ _
  | addField _ _ _ _ =>
    exact ⟨.addField _ _, SymbolMap.extends_record _ _ _ _, fun _ ↦ List.prefix_refl _, id⟩
  | addMethod _ _ _ _ _ _ =>
    exact ⟨.addMethod _ _, SymbolMap.extends_record (s.map.recordMethodOrigin _ _) _ _ _,
      fun _ ↦ List.prefix_refl _, fun ho ↦ Table.find?_insertNew_of_contains ho _ _⟩

theorem ShapeStep.grows (h : ShapeStep ctx s s') : s.Grows s' := by
  cases h with
  | fill h => exact h.grows
  | visit _ _ => exact .of_eq rfl rfl

theorem CopyStep.grows (h : CopyStep ctx s s') : s.Grows s' := by
  cases h with
  | use h => exact h.grows
  | visit _ _ => exact .of_eq rfl rfl
  | setBody _ _ _ _ => exact .of_target (.updateMethod _ _ fun _ ↦ rfl)

theorem Step.grows (h : Step ctx s s') : s.Grows s' := by
  cases h with
  | shape h => exact h.grows
  | copy h => exact h.grows

end Import

end ModuleLinker

import ModuleLinker.Proofs.Import.Reaches
import ModuleLinker.Proofs.Import.Sound
import ModuleLinker.Proofs.Registry

/-!
# Every declared type has a place

Declaring works off a list of types, and the nested lists of an input may be anything. The induction
follows the work list: each type that is placed fits where it goes, and the types listed in it fit
inside the place that it has just got. What is on the list is mapped when the list is empty, whether
the loop mapped it or found it mapped. So a type that is declared leaves nothing behind: what is
listed in it was on the list.
-/

namespace ModuleLinker

open Relation (ReflTransGen)
open Import (DeclareStep Declares PlaceStep)

namespace Import

variable {ctx : Context} {s s' : ImportState}

theorem PlaceStep.grows_steps (h : ReflTransGen (PlaceStep ctx) s s') : s.Grows s' :=
  .of_steps (fun _ _ ↦ PlaceStep.grows) h

theorem PlaceStep.sound_steps (h : ReflTransGen (PlaceStep ctx) s s') (hs : s.Sound ctx) :
    s'.Sound ctx :=
  .of_steps PlaceStep.sound h hs

end Import

namespace ImportState

variable {ctx : Context} {m : ModuleId} {s : ImportState}

theorem Sound.typeOf?_of_contains (hs : s.Sound ctx) {id : TypeId}
    (h : s.map.contains m (.type id) = true) : ∃ t, s.map.typeOf? m id = some t := by
  cases ht : s.map.typeOf? m id with
  | some t => exact ⟨t, rfl⟩
  | none =>
    have hnone := hs.find?_type_eq_none ht
    rw [SymbolMap.contains, Table.contains] at h
    rw [SymbolMap.find?] at hnone
    simp [hnone] at h

theorem find?_eq_none_of_not_contains {symbol : Symbol}
    (h : ¬s.map.contains m symbol = true) : s.map.find? m symbol = none := by
  rw [SymbolMap.contains, Table.contains, Option.not_isSome_iff_eq_none] at h
  exact h

section Accepted

variable (hctx : ctx.registry.Accepted)
include hctx

theorem nested_lt {type nested : TypeId} (h : nested ∈ ((ctx.module m).typeDef type).nested) :
    nested.index < (ctx.module m).types.length :=
  (Module.closed_of_accepted (Context.fault?_module hctx m)).nested_lt h

theorem declaring_lt {type o : TypeId} (h : ((ctx.module m).typeDef type).declaring = some o) :
    o.index < (ctx.module m).types.length := by
  have hclosed := Module.closed_of_accepted (Context.fault?_module hctx m)
  have hx : (.type, o.index) ∈ ((ctx.module m).typeDef type).ids := by
    simp [TypeDef.ids, h]
  exact hclosed.has_of_typeDef hx

theorem nestedPending_fits {type target : TypeId} (ht : s.map.typeOf? m type = some target) :
    ∀ p ∈ nestedPending ctx m type target, p.Fits ctx m s := by
  intro p hp
  obtain ⟨nested, hmem, rfl⟩ := List.mem_map.mp hp
  refine ⟨nested_lt hctx hmem, rfl, fun hc ↦ (by cases hc), fun hc ↦ ?_⟩
  cases hc
  exact ⟨type, ht, .inl hmem⟩

/-- Working off a list makes steps, and maps every type on the list. -/
theorem declareAll_steps {work : List Pending} (hs : s.Sound ctx)
    (hwork : ∀ p ∈ work, p.Fits ctx m s) :
    ReflTransGen (DeclareStep ctx m) s (declareAll ctx m s work)
      ∧ ∀ p ∈ work, ∃ t, (declareAll ctx m s work).map.typeOf? m p.type = some t := by
  fun_induction declareAll ctx m s work with
  | case1 s => exact ⟨.refl, by simp⟩
  | case2 s p rest hmapped ih =>
    obtain ⟨hsteps, hrest⟩ := ih hs fun q hq ↦ hwork q (by simp [hq])
    refine ⟨hsteps, fun q hq ↦ ?_⟩
    rcases List.mem_cons.mp hq with rfl | hq
    · obtain ⟨t, ht⟩ := hs.typeOf?_of_contains hmapped
      exact ⟨t, (DeclareStep.grows_steps hsteps).map.typeOf? ht⟩
    · exact hrest q hq
  | case3 s p rest hnew placed ih =>
    have hfresh := find?_eq_none_of_not_contains hnew
    have hstep : DeclareStep ctx m s placed.2 := .declare hfresh (hwork p (by simp))
    have hplace : placed.2.map.typeOf? m p.type = some placed.1 := typeOf?_declareOne hfresh
    -- what is listed in the type fits into its place, and the rest fits as before
    obtain ⟨hsteps, hall⟩ := ih (hstep.sound hs) fun q hq ↦ by
      rcases List.mem_append.mp hq with hq | hq
      · exact nestedPending_fits hctx hplace q hq
      · exact (hwork q (by simp [hq])).mono hstep.grows
    refine ⟨hsteps.head hstep, fun q hq ↦ ?_⟩
    rcases List.mem_cons.mp hq with rfl | hq
    · exact ⟨_, (DeclareStep.grows_steps hsteps).map.typeOf? hplace⟩
    · exact hall q (List.mem_append_right _ hq)

/-- What is listed in a type that has a place has one itself when the list is worked off, if it had
one before or was on the list. -/
theorem nestedPlaced_declareAll {work : List Pending} (hs : s.Sound ctx)
    (hwork : ∀ p ∈ work, p.Fits ctx m s)
    (hlisted : ∀ o t n, s.map.typeOf? m o = some t → n ∈ ((ctx.module m).typeDef o).nested →
      (∃ t', s.map.typeOf? m n = some t') ∨ n ∈ work.map Pending.type) :
    (declareAll ctx m s work).NestedPlaced ctx m := by
  fun_induction declareAll ctx m s work with
  | case1 s =>
    intro o t n ho hn
    exact (hlisted o t n ho hn).resolve_right (by simp)
  | case2 s p rest hmapped ih =>
    refine ih hs (fun q hq ↦ hwork q (by simp [hq])) fun o t n ho hn ↦ ?_
    rcases hlisted o t n ho hn with hplaced | hmem
    · exact .inl hplaced
    · rcases List.mem_cons.mp hmem with rfl | hmem
      · exact .inl (hs.typeOf?_of_contains hmapped)
      · exact .inr hmem
  | case3 s p rest hnew placed ih =>
    have hfresh := find?_eq_none_of_not_contains hnew
    have hstep : DeclareStep ctx m s placed.2 := .declare hfresh (hwork p (by simp))
    have hplace : placed.2.map.typeOf? m p.type = some placed.1 := typeOf?_declareOne hfresh
    refine ih (hstep.sound hs) (fun q hq ↦ ?_) fun o t n ho hn ↦ ?_
    · rcases List.mem_append.mp hq with hq | hq
      · exact nestedPending_fits hctx hplace q hq
      · exact (hwork q (by simp [hq])).mono hstep.grows
    · rw [List.map_append, List.mem_append]
      by_cases hp : o = p.type
      · -- the type that has just been placed puts what it lists on the list
        subst hp
        refine .inr (.inl ?_)
        simpa [nestedPending] using hn
      · have hold : s.map.typeOf? m o = some t := by
          rw [SymbolMap.typeOf?_eq_some] at ho ⊢
          rwa [find?_declareOne hfresh, if_neg (by simpa using hp)] at ho
        rcases hlisted o t n hold hn with ⟨t', ht'⟩ | hmem
        · exact .inl ⟨t', hstep.grows.map.typeOf? ht'⟩
        · rcases List.mem_cons.mp hmem with rfl | hmem
          · exact .inl ⟨_, hplace⟩
          · exact .inr (.inr hmem)

/-- Declaring a type gives it the place that is returned. -/
theorem declare_steps {p : Pending} (hs : s.Sound ctx) (hp : p.Fits ctx m s) :
    ReflTransGen (DeclareStep ctx m) s (s.declare ctx m p).2
      ∧ (s.declare ctx m p).2.map.typeOf? m p.type = some (s.declare ctx m p).1 := by
  have hwork : ∀ q ∈ [p], q.Fits ctx m s := by simpa using hp
  obtain ⟨hsteps, hall⟩ := declareAll_steps hctx hs hwork
  obtain ⟨t, ht⟩ := hall p (by simp)
  refine ⟨hsteps, ?_⟩
  change _ = some (((declareAll ctx m s [p]).map.typeOf? m p.type).getD default)
  rw [ht]
  exact ht

theorem declares_declareAll {work : List Pending} (hs : s.Sound ctx)
    (hwork : ∀ p ∈ work, p.Fits ctx m s) : Declares ctx m s (declareAll ctx m s work) :=
  ⟨(declareAll_steps hctx hs hwork).1, fun h ↦
    nestedPlaced_declareAll hctx hs hwork fun o t n ho hn ↦ .inl (h o t n ho hn)⟩

theorem declares_declare {p : Pending} (hs : s.Sound ctx) (hp : p.Fits ctx m s) :
    Declares ctx m s (s.declare ctx m p).2 :=
  declares_declareAll hctx hs (by simpa using hp)

theorem ensureIn_steps {id : TypeId} {container : Option TypeId} (hs : s.Sound ctx)
    (hfits : Pending.Fits ⟨id, container, ctx.internalizesType m id⟩ ctx m s) :
    ReflTransGen (PlaceStep ctx) s (s.ensureIn ctx m id container).2
      ∧ (s.ensureIn ctx m id container).2.map.typeOf? m id
        = some (s.ensureIn ctx m id container).1 := by
  unfold ensureIn
  cases ht : s.map.typeOf? m id with
  | some t => exact ⟨.refl, ht⟩
  | none =>
    exact ⟨.single (.declare (declares_declare hctx hs hfits)), (declare_steps hctx hs hfits).2⟩

/-- A chain of declaring types is declared from the outermost inwards. -/
theorem ensureChain_steps {chain : List TypeId} (hs : s.Sound ctx)
    (hchain : Chain.Complete (fun t ↦ ((ctx.module m).typeDef t).declaring) chain)
    (hin : ∀ id ∈ chain, id.index < (ctx.module m).types.length) :
    ReflTransGen (PlaceStep ctx) s (ensureChain ctx m chain s).2
      ∧ ∀ id ∈ chain.head?,
        (ensureChain ctx m chain s).2.map.typeOf? m id = some (ensureChain ctx m chain s).1 := by
  induction hchain with
  | @last id hlast =>
    have hfits : Pending.Fits ⟨id, none, ctx.internalizesType m id⟩ ctx m s :=
      ⟨hin id (by simp), rfl, fun _ ↦ hlast, fun hc ↦ by cases hc⟩
    simpa [ensureChain] using ensureIn_steps hctx hs hfits
  | @link id outer rest hlink hrest ih =>
    rw [ensureChain]
    cases ht : s.map.typeOf? m id with
    | some t => exact ⟨.refl, by simpa using ht⟩
    | none =>
      obtain ⟨hsteps, hhead⟩ := ih fun o ho ↦ hin o (by simp [ho])
      have houter := hhead outer (by simp)
      have hfits : Pending.Fits ⟨id, some (ensureChain ctx m (outer :: rest) s).1,
          ctx.internalizesType m id⟩ ctx m (ensureChain ctx m (outer :: rest) s).2 :=
        ⟨hin id (by simp), rfl, fun hc ↦ (by cases hc), fun hc ↦ by
          cases hc
          exact ⟨outer, houter, .inr hlink⟩⟩
      obtain ⟨hsteps', hplace⟩ := ensureIn_steps hctx (PlaceStep.sound_steps hsteps hs) hfits
      exact ⟨hsteps.trans hsteps', by simpa using hplace⟩

theorem declaringChain_lt {id : TypeId} (hid : id.index < (ctx.module m).types.length) :
    ∀ o ∈ (ctx.module m).declaringChain id, o.index < (ctx.module m).types.length := by
  have hchain := Module.complete_declaringChain (Context.fault?_module hctx m) id
  obtain ⟨rest, hrest⟩ := Chain.follow_eq_cons
    (fun t ↦ ((ctx.module m).typeDef t).declaring) (ctx.module m).types.length id
  rw [Module.declaringChain, hrest] at hchain ⊢
  have hall : ∀ {a : TypeId} {l : List TypeId},
      Chain.Complete (fun t ↦ ((ctx.module m).typeDef t).declaring) (a :: l) →
      a.index < (ctx.module m).types.length → ∀ o ∈ a :: l,
        o.index < (ctx.module m).types.length := by
    intro a l
    induction l generalizing a with
    | nil => simp
    | cons b l ih =>
      intro hc ha o ho
      cases hc with
      | link hab hc =>
        rcases List.mem_cons.mp ho with rfl | ho
        · exact ha
        · exact ih hc (declaring_lt hctx hab) o ho
  exact hall hchain hid

end Accepted

end ImportState

namespace Import

variable {ctx : Context} {m : ModuleId} {s : ImportState}

/-- Declaring makes its steps, and when it ends there was a decision about every type. -/
theorem Reaches.deciding {α : Type} {T : ImportState → ImportState → Prop}
    {asked : ImportState → ImportState → List TypeId} {declare : ImportState → α × ImportState}
    {Q : α → ImportState → Prop} (hs : ReflTransGen T s (declare s).2)
    (h : (∀ x ∈ asked s (declare s).2, ctx.decides m x = true) → Q (declare s).1 (declare s).2) :
    Reaches T s (Import.deciding ctx m asked declare) Q := by
  unfold Reaches Import.deciding
  by_cases hall : (asked s (declare s).2).all (ctx.decides m) = true
  · simp only [if_pos hall]
    exact ⟨hs, h (List.all_eq_true.mp hall)⟩
  · simp only [if_neg hall]
    exact .refl

theorem reaches_ensureDeclared (hctx : ctx.registry.Accepted) (hs : s.Sound ctx) {id : TypeId}
    (hid : id.index < (ctx.module m).types.length) :
    Reaches (PlaceStep ctx) s (ensureDeclared ctx m id)
      fun t s' ↦ s'.map.typeOf? m id = some t := by
  obtain ⟨hsteps, hplace⟩ := ImportState.ensureChain_steps hctx hs
    (Module.complete_declaringChain (Context.fault?_module hctx m) id)
    (ImportState.declaringChain_lt hctx hid)
  rw [ensureDeclared_eq]
  refine .deciding hsteps fun _ ↦ hplace id ?_
  obtain ⟨rest, hrest⟩ := Chain.follow_eq_cons
    (fun t ↦ ((ctx.module m).typeDef t).declaring) (ctx.module m).types.length id
  simp [Module.declaringChain, hrest]

end Import

end ModuleLinker

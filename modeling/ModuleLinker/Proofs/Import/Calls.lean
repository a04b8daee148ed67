import ModuleLinker.Proofs.Import.Recall

/-!
# Calls of an import

A client of an import may ask for anything at any time: for all modules, for one type in a container
of its choice, for a signature, for an operand. Each call either answers or fails, and a call that
fails has still moved the state on.

Whatever is asked for, the state moves by the steps of an import; only a type that a client wants in
a container of its own need not fit there. A call that answers writes its answer down, and no call
erases what is written down.
-/

namespace ModuleLinker

open Relation (ReflTransGen)
open Import (Reaches Step)

/-! ## Calls -/

/-- What a client may ask an import for, with the type of the answer. -/
inductive Call : Type → Type
  /-- All types of all modules. -/
  | run : Call Unit
  /-- A type in a container, with its members. -/
  | importType (m : ModuleId) (p : Pending) : Call TypeId
  /-- The place of a type. -/
  | ensureDeclared (m : ModuleId) (id : TypeId) : Call TypeId
  | importSig (m : ModuleId) (sig : TypeSig) : Call TypeSig
  | importOperand (m : ModuleId) (operand : Operand) : Call Operand
  | importMethodHandle (m : ModuleId) (handle : MethodHandle) : Call MethodHandle
  | importFieldHandle (m : ModuleId) (handle : FieldHandle) : Call FieldHandle

namespace Call

/-- Carry a call out. -/
def perform (ctx : Context) : {α : Type} → Call α → Import α
  | _, run => Import.run ctx
  | _, importType m p => Import.importType ctx m p
  | _, ensureDeclared m id => Import.ensureDeclared ctx m id
  | _, importSig m sig => Import.importSig ctx m sig
  | _, importOperand m operand => Import.importOperand ctx m operand
  | _, importMethodHandle m handle => Import.importMethodHandle ctx m handle
  | _, importFieldHandle m handle => Import.importFieldHandle ctx m handle

/-- A call speaks of symbols of the modules and of a container that the output has. -/
def Within (ctx : Context) (s : ImportState) : {α : Type} → Call α → Prop
  | _, run => True
  | _, importType m p => p.Within ctx m s
  | _, ensureDeclared m id => id.index < (ctx.module m).types.length
  | _, importSig m sig => ∀ x ∈ sig.ids, (ctx.module m).Has x
  | _, importOperand m operand => ∀ x ∈ operand.ids, (ctx.module m).Has x
  | _, importMethodHandle m handle => ∀ x ∈ (Operand.method handle).ids, (ctx.module m).Has x
  | _, importFieldHandle m handle => ∀ x ∈ (Operand.field handle).ids, (ctx.module m).Has x

/-- The answer to a call is written down. -/
def Answered (ctx : Context) (s : ImportState) : {α : Type} → Call α → α → Prop
  | _, run, _ =>
    (∀ m ∈ ctx.registry.importOrder, ∀ id ∈ (ctx.module m).topLevelTypes,
        ctx.decides m id = true ∧ ∃ t, s.map.typeOf? m id = some t)
      ∧ (∀ x ∈ ctx.allTypes, x ∈ s.populated) ∧ ∀ x ∈ ctx.allMethods, x ∈ s.copied
  | _, importType m p, t => s.map.typeOf? m p.type = some t ∧ (m, p.type) ∈ s.populated
  | _, ensureDeclared m id, t => s.map.typeOf? m id = some t
  | _, importSig m sig, r => s.map.remapSig? m sig = some r
  | _, importOperand m operand, r => s.map.remapOperand? m operand = some r
  | _, importMethodHandle m handle, r => s.map.remapMethod? m handle = some r
  | _, importFieldHandle m handle, r => s.map.remapField? m handle = some r

end Call

/-- A call has been made, whether it answered or failed. -/
def Called (ctx : Context) (s s' : ImportState) : Prop :=
  ∃ (α : Type) (c : Call α), c.Within ctx s ∧ s' = Import.finalState (c.perform ctx) s

/-- Any number of calls have been made, one after the other. -/
abbrev Calls (ctx : Context) : ImportState → ImportState → Prop := ReflTransGen (Called ctx)

/-! ## What calls do

Calls add one kind of step to those of an import: a type entered in whatever container the client
names. Such a type need not fit there, so less is known of places than after an import alone. -/

/-- What a call does to the state: what imports do, and a type entered where the client wants it. -/
inductive CallStep (ctx : Context) (s : ImportState) : ImportState → Prop
  | step {s' : ImportState} (h : Step ctx s s') : CallStep ctx s s'
  | enter {m : ModuleId} {p : Pending} (hfresh : s.map.find? m (.type p.type) = none)
      (hin : p.Within ctx m s) : CallStep ctx s (s.declareOne ctx m p).2

/-- Nothing that was written down is erased. -/
structure ImportState.Keeps (s s' : ImportState) : Prop where
  map : s.map.Extends s'.map
  populated : s.populated ⊆ s'.populated
  copied : s.copied ⊆ s'.copied

namespace ImportState.Keeps

variable {s s' s'' : ImportState}

theorem refl (s : ImportState) : s.Keeps s := ⟨.refl _, fun _ h ↦ h, fun _ h ↦ h⟩

theorem trans (h : s.Keeps s') (h' : s'.Keeps s'') : s.Keeps s'' :=
  ⟨h.map.trans h'.map, fun _ hx ↦ h'.populated (h.populated hx),
    fun _ hx ↦ h'.copied (h.copied hx)⟩

theorem of_eq (hmap : s.map.Extends s'.map) (hpopulated : s'.populated = s.populated)
    (hcopied : s'.copied = s.copied) : s.Keeps s' :=
  ⟨hmap, fun _ hx ↦ hpopulated ▸ hx, fun _ hx ↦ hcopied ▸ hx⟩

end ImportState.Keeps

variable {ctx : Context} {s s' : ImportState} {α : Type}

theorem Import.Step.keeps_visits (h : Step ctx s s') : s.Keeps s' := by
  have hmap := h.grows.map
  cases h with
  | shape h =>
    cases h with
    | fill h => exact .of_eq hmap h.frame.populated h.frame.copied
    | visit _ _ => exact ⟨hmap, List.subset_cons_self _ _, fun _ hx ↦ hx⟩
  | copy h =>
    cases h with
    | use h => exact .of_eq hmap h.sameMembers.populated h.sameMembers.copied
    | visit _ _ => exact ⟨hmap, fun _ hx ↦ hx, List.subset_cons_self _ _⟩
    | setBody _ _ _ _ => exact .of_eq hmap rfl rfl

namespace CallStep

theorem sound (h : CallStep ctx s s') (hs : s.Sound ctx) : s'.Sound ctx := by
  cases h with
  | step h => exact h.sound hs
  | enter hfresh hin => exact hs.enter hfresh hin

theorem keeps (h : CallStep ctx s s') : s.Keeps s' := by
  cases h with
  | step h => exact h.keeps_visits
  | enter hfresh _ =>
    exact .of_eq (ImportState.grows_declareOne hfresh).map ImportState.populated_declareOne
      ImportState.copied_declareOne

theorem sound_steps (h : ReflTransGen (CallStep ctx) s s') (hs : s.Sound ctx) : s'.Sound ctx :=
  .of_steps CallStep.sound h hs

theorem keeps_steps (h : ReflTransGen (CallStep ctx) s s') : s.Keeps s' := by
  induction h with
  | refl => exact .refl s
  | tail _ hstep ih => exact ih.trans hstep.keeps

end CallStep

/-! ## An answer is written down

That a call writes its answer down has to be shown from any state that calls lead to, not only
from those that an import comes through. -/

namespace Import

section Accepted

variable (hctx : ctx.registry.Accepted) {m : ModuleId}
include hctx

/-- A type without a place is entered, and then what is listed in it is declared inside. -/
theorem declare_eq_of_fresh {p : Pending} (hs : s.Sound ctx) (hin : p.Within ctx m s)
    (hfresh : s.map.find? m (.type p.type) = none) :
    s.declare ctx m p = ((s.declareOne ctx m p).1, ImportState.declareAll ctx m
        (s.declareOne ctx m p).2 (ImportState.nestedPending ctx m p.type (s.declareOne ctx m p).1))
      ∧ ∀ q ∈ ImportState.nestedPending ctx m p.type (s.declareOne ctx m p).1,
        q.Fits ctx m (s.declareOne ctx m p).2 := by
  have hnew : s.map.contains m (.type p.type) = false := by
    rw [SymbolMap.contains, Table.contains, ← SymbolMap.find?, hfresh, Option.isSome_none]
  have hplace : (s.declareOne ctx m p).2.map.typeOf? m p.type = some (s.declareOne ctx m p).1 :=
    ImportState.typeOf?_declareOne hfresh
  -- what is listed in the type fits into its place, wherever that is
  have hfits := ImportState.nestedPending_fits hctx hplace
  have hsteps := (ImportState.declareAll_steps hctx (hs.enter hfresh hin) hfits).1
  have hkept := (DeclareStep.grows_steps hsteps).map.typeOf? hplace
  have hall : ImportState.declareAll ctx m s [p] = ImportState.declareAll ctx m
      (s.declareOne ctx m p).2
      (ImportState.nestedPending ctx m p.type (s.declareOne ctx m p).1) := by
    rw [ImportState.declareAll, hnew]
    simp
  refine ⟨?_, hfits⟩
  rw [ImportState.declare, hall]
  simp only [hkept, Option.getD_some]

theorem declare_callSteps {p : Pending} (hs : s.Sound ctx) (hin : p.Within ctx m s) :
    ReflTransGen (CallStep ctx) s (s.declare ctx m p).2
      ∧ (s.declare ctx m p).2.map.typeOf? m p.type = some (s.declare ctx m p).1 := by
  cases ht : s.map.typeOf? m p.type with
  | some t =>
    rw [declare_eq_of_typeOf? ht]
    exact ⟨.refl, ht⟩
  | none =>
    have hfresh := hs.find?_type_eq_none ht
    obtain ⟨hdeclare, hfits⟩ := declare_eq_of_fresh hctx hs hin hfresh
    have henter : CallStep ctx s (s.declareOne ctx m p).2 := .enter hfresh hin
    have hrest := ImportState.declares_declareAll hctx (henter.sound hs) hfits
    rw [hdeclare]
    exact ⟨.head henter (.single (.step (.copy (.use (.sign (.place (.declare hrest))))))),
      (DeclareStep.grows_steps hrest.steps).map.typeOf? (ImportState.typeOf?_declareOne hfresh)⟩

theorem reaches_populate_visits (hs : s.Sound ctx) {id : TypeId}
    (hid : id.index < (ctx.module m).types.length) :
    Reaches (CallStep ctx) s (populate ctx m id) fun _ s' ↦ (m, id) ∈ s'.populated := by
  refine (reaches_populate hctx hs hid).mono (fun _ _ h ↦ .step (.shape h)) fun _ s' hs' h ↦ ?_
  by_cases hmem : (m, id) ∈ s.populated
  · have hkeeps := CallStep.keeps_steps (ReflTransGen.mono (fun _ _ h ↦ .step (.shape h)) _ _ hs')
    exact hkeeps.populated hmem
  · rw [(h hmem).2.2.populated]
    exact List.mem_cons_self ..

theorem reaches_copyBody_visits (hs : s.Sound ctx) {id : MethodId}
    (hid : id.index < (ctx.module m).methods.length) :
    Reaches (CallStep ctx) s (copyBody ctx m id) fun _ s' ↦ (m, id) ∈ s'.copied := by
  refine (reaches_copyBody hctx hs hid).mono (fun _ _ h ↦ .step (.copy h)) fun _ s' hs' h ↦ ?_
  by_cases hmem : (m, id) ∈ s.copied
  · exact (CallStep.keeps_steps (ReflTransGen.mono (fun _ _ h ↦ .step (.copy h)) _ _ hs')).copied
      hmem
  · rw [(h hmem).copied]
    exact List.mem_cons_self ..

theorem reaches_importType {p : Pending} (hs : s.Sound ctx) (hin : p.Within ctx m s) :
    Reaches (CallStep ctx) s (importType ctx m p) fun t s' ↦
      (Call.importType m p).Answered ctx s' t := by
  obtain ⟨hsteps, hplace⟩ := declare_callSteps hctx hs hin
  have hdeclared : Reaches (CallStep ctx) s
      (deciding ctx m (fun s s' ↦ s.listedSince s' ctx m) fun s ↦ s.declare ctx m p)
      fun t s' ↦ s'.map.typeOf? m p.type = some t := .deciding hsteps fun _ ↦ hplace
  refine .bind hdeclared fun t s₁ hs₁ ht ↦ ?_
  refine .bind (reaches_populate_visits hctx (CallStep.sound_steps hs₁ hs) hin.inRange)
    fun _ s' hs' hvisited ↦ .pure ⟨?_, hvisited⟩
  exact (CallStep.keeps_steps hs').map.typeOf? ht

/-- A whole import declares, fills in and copies whatever has not been, from any state. -/
theorem reaches_run_answered (hs : s.Sound ctx) :
    Reaches (CallStep ctx) s (run ctx) fun _ s' ↦ Call.run.Answered ctx s' () := by
  unfold run
  dsimp only
  rw [forM_pairs, forM_pairs]
  have hdeclared : Reaches (CallStep ctx) s (ctx.registry.importOrder.forM (declareModule ctx))
      fun _ s' ↦ ∀ m ∈ ctx.registry.importOrder, ∀ id ∈ (ctx.module m).topLevelTypes,
        ctx.decides m id = true ∧ ∃ t, s'.map.typeOf? m id = some t := by
    refine .forM_each (fun m s' s'' hs' h id hid ↦ ?_) fun m _ s' hs' ↦
      (reaches_declareModule hctx (CallStep.sound_steps hs' hs) m).mono
        (fun _ _ h ↦ .step (.copy (.use (.sign (.place (.declare h)))))) fun _ _ _ h ↦ h
    obtain ⟨hdecides, t, ht⟩ := h id hid
    exact ⟨hdecides, t, (CallStep.keeps_steps hs').map.typeOf? ht⟩
  refine .bind hdeclared fun _ s₁ hs₁ hdeclared ↦ ?_
  have hsound₁ := CallStep.sound_steps hs₁ hs
  have hpopulated : Reaches (CallStep ctx) s₁ (ctx.allTypes.forM fun x ↦ populate ctx x.1 x.2)
      fun _ s' ↦ ∀ x ∈ ctx.allTypes, x ∈ s'.populated :=
    .forM_each (fun _ _ _ hs' h ↦ (CallStep.keeps_steps hs').populated h) fun x hx s' hs' ↦
      reaches_populate_visits hctx (CallStep.sound_steps hs' hsound₁) (Context.mem_allTypes.mp hx).2
  refine .bind hpopulated fun _ s₂ hs₂ hpopulated ↦ ?_
  have hsound₂ := CallStep.sound_steps hs₂ hsound₁
  have hcopied : Reaches (CallStep ctx) s₂ (ctx.allMethods.forM fun x ↦ copyBody ctx x.1 x.2)
      fun _ s' ↦ ∀ x ∈ ctx.allMethods, x ∈ s'.copied :=
    .forM_each (fun _ _ _ hs' h ↦ (CallStep.keeps_steps hs').copied h) fun x hx s' hs' ↦
      reaches_copyBody_visits hctx (CallStep.sound_steps hs' hsound₂)
        (Context.mem_allMethods.mp hx).2
  refine hcopied.imp fun _ s₃ hs₃ hcopied ↦ ⟨fun m hm id hid ↦ ?_, fun x hx ↦ ?_, hcopied⟩
  · obtain ⟨hdecides, t, ht⟩ := hdeclared m hm id hid
    exact ⟨hdecides, t, (CallStep.keeps_steps (hs₂.trans hs₃)).map.typeOf? ht⟩
  · exact (CallStep.keeps_steps hs₃).populated (hpopulated x hx)

/-- A call that answers has written its answer down. -/
theorem reaches_perform (hs : s.Sound ctx) (c : Call α) (hc : c.Within ctx s) :
    Reaches (CallStep ctx) s (c.perform ctx) fun a s' ↦ c.Answered ctx s' a := by
  have hplace : ∀ s s', PlaceStep ctx s s' → CallStep ctx s s' := fun _ _ h ↦
    .step (.copy (.use (.sign (.place h))))
  have hsign : ∀ s s', SignStep ctx s s' → CallStep ctx s s' := fun _ _ h ↦
    .step (.copy (.use (.sign h)))
  have huse : ∀ s s', UseStep ctx s s' → CallStep ctx s s' := fun _ _ h ↦ .step (.copy (.use h))
  cases c with
  | run => exact reaches_run_answered hctx hs
  | importType m p => exact reaches_importType hctx hs hc
  | ensureDeclared m id =>
    exact (reaches_ensureDeclared hctx hs hc).mono hplace fun _ _ _ h ↦ h
  | importSig m sig => exact (reaches_importSig hctx sig hs hc).mono hsign fun _ _ _ h ↦ h
  | importOperand m operand =>
    exact (reaches_importOperand hctx hs operand hc).mono huse fun _ _ _ h ↦ h
  | importMethodHandle m handle =>
    exact (reaches_importMethodHandle hctx hs handle hc).mono huse fun _ _ _ h ↦ h
  | importFieldHandle m handle =>
    exact (reaches_importFieldHandle hctx hs handle hc).mono huse fun _ _ _ h ↦ h

end Accepted

end Import

/-! ## Sequences of calls -/

theorem Called.callSteps (hctx : ctx.registry.Accepted) (h : Called ctx s s')
    (hs : s.Sound ctx) : ReflTransGen (CallStep ctx) s s' := by
  obtain ⟨α, c, hc, rfl⟩ := h
  have hreach := Import.reaches_perform hctx hs c hc
  unfold Reaches at hreach
  unfold Import.finalState
  cases hx : c.perform ctx s with
  | ok a s' =>
    rw [hx] at hreach
    exact hreach.1
  | error e s' =>
    rw [hx] at hreach
    exact hreach

theorem Calls.callSteps (hctx : ctx.registry.Accepted) (h : Calls ctx s s') (hs : s.Sound ctx) :
    ReflTransGen (CallStep ctx) s s' := by
  induction h with
  | refl => exact .refl
  | tail _ hcall ih => exact ih.trans (hcall.callSteps hctx (CallStep.sound_steps ih hs))

end ModuleLinker

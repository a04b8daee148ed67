import ModuleLinker.Link
import ModuleLinker.Proofs.Import.Copy
import ModuleLinker.Proofs.Import.Fill

/-!
# A whole import

The three sweeps in turn. The first gives types their places and makes place steps only. The second
fills types in; every type of every module is gone through once, and what it says of its members and
of its base is done when it has been. The third copies bodies. It changes no member and no entry of
a member, so the body that a method ends with is the one that was copied into it last.
-/

namespace ModuleLinker

open Relation (ReflTransGen)

/-! ## The start -/

namespace Context

variable (ctx : Context)

theorem sound_startImport : ctx.startImport.Sound ctx where
  linked := .of_empty rfl rfl rfl rfl
  closed := .of_empty rfl rfl rfl rfl rfl rfl
  interned := ⟨List.nodup_nil, List.Pairwise.nil⟩
  admits h := by cases h
  has h := by cases h
  inputs h := by cases h
  sources := ⟨fun h ↦ (by cases h), fun h ↦ by cases h⟩

theorem faithful_startImport : ctx.startImport.Faithful ctx where
  fields h := by cases h
  methods h := by cases h
  typeRefs h := by cases h
  makers h := by cases h
  made _ h := by cases h
  sourced _ h := by cases h

end Context

/-! ## Outcomes -/

namespace Import

/-- The state that a run leaves, whether it succeeds or not. -/
def finalState {α : Type} (x : Import α) (s : ImportState) : ImportState :=
  match x s with
  | .ok _ s' => s'
  | .error _ s' => s'

/-- Whether a run succeeds. -/
def succeeds {α : Type} (x : Import α) (s : ImportState) : Bool :=
  match x s with
  | .ok _ _ => true
  | .error _ _ => false

theorem bind_eq_ok {α β : Type} {x : Import α} {f : α → Import β} {s s' : ImportState} {b : β}
    (h : (x >>= f) s = .ok b s') : ∃ a s₁, x s = .ok a s₁ ∧ f a s₁ = .ok b s' := by
  change EStateM.bind x f s = .ok b s' at h
  unfold EStateM.bind at h
  cases hx : x s with
  | error e s₁ =>
    rw [hx] at h
    cases h
  | ok a s₁ =>
    rw [hx] at h
    exact ⟨a, s₁, rfl, h⟩

theorem foldlM_eq_ok {α β : Type} {xs : List α} {f : β → α → Import β}
    {J : List α → β → ImportState → Prop} {s s' : ImportState} {b b' : β} (h₀ : J [] b s)
    (hf : ∀ done a b s b' s', done ++ [a] <+: xs → J done b s → f b a s = .ok b' s' →
      J (done ++ [a]) b' s')
    (h : xs.foldlM f b s = .ok b' s') : J xs b' s' := by
  suffices hloop : ∀ rest done b s, done ++ rest = xs → J done b s →
      rest.foldlM f b s = .ok b' s' → J xs b' s' from hloop xs [] b s rfl h₀ h
  intro rest
  induction rest with
  | nil =>
    intro done b s hxs hJ h
    rw [List.append_nil] at hxs
    cases h
    exact hxs ▸ hJ
  | cons a rest ih =>
    intro done b s hxs hJ h
    rw [List.foldlM_cons] at h
    obtain ⟨b₁, s₁, hround, h⟩ := bind_eq_ok h
    have hpre : done ++ [a] <+: xs := ⟨rest, by simpa using hxs⟩
    exact ih (done ++ [a]) b₁ s₁ (by simpa using hxs) (hf done a b s b₁ s₁ hpre hJ hround) h

/-- What a run answers, if it does. -/
def answer? {α : Type} (x : Import α) (s : ImportState) : Option α :=
  match x s with
  | .ok a _ => some a
  | .error _ _ => none

theorem eq_ok_of_answer? {α : Type} {x : Import α} {s : ImportState} {a : α}
    (h : answer? x s = some a) : x s = .ok a (finalState x s) := by
  unfold answer? at h
  unfold finalState
  cases hx : x s with
  | ok b s' => simpa [hx] using h
  | error e s' => simp [hx] at h

theorem eq_ok_of_succeeds {x : Import Unit} {s : ImportState} (h : succeeds x s = true) :
    x s = .ok () (finalState x s) := by
  unfold succeeds at h
  unfold finalState
  cases hx : x s with
  | ok u s' => rfl
  | error e s' => simp [hx] at h

end Import

/-! ## Going through all modules

The sweeps are loops inside loops. They are taken as one loop over pairs of a module and one of
its entries, so that what has been gone through is a beginning of one list. -/

/-- The entries of lists that belong to the elements of a list, each with the element. -/
def pairs {α β : Type} (xs : List α) (f : α → List β) : List (α × β) :=
  xs.flatMap fun a ↦ (f a).map fun b ↦ (a, b)

section Pairs

variable {α β : Type} {xs : List α} {f : α → List β}

@[simp] theorem mem_pairs {x : α × β} : x ∈ pairs xs f ↔ x.1 ∈ xs ∧ x.2 ∈ f x.1 := by
  obtain ⟨a, b⟩ := x
  simp [pairs]

theorem nodup_pairs (hxs : xs.Nodup) (hf : ∀ a, (f a).Nodup) : (pairs xs f).Nodup := by
  refine List.nodup_flatMap.mpr ⟨fun a _ ↦ (hf a).map fun b b' h ↦ congrArg Prod.snd h, ?_⟩
  refine hxs.imp fun {a a'} hne ↦ ?_
  rintro x hx hx'
  obtain ⟨b, -, rfl⟩ := List.mem_map.mp hx
  obtain ⟨b', -, heq⟩ := List.mem_map.mp hx'
  exact hne (congrArg Prod.fst heq).symm

/-- Loops inside a loop go through the pairs one after the other. -/
theorem forM_pairs (xs : List α) (f : α → List β) (g : α → β → Import Unit) :
    (xs.forM fun a ↦ (f a).forM (g a)) = (pairs xs f).forM fun x ↦ g x.1 x.2 := by
  induction xs with
  | nil => rfl
  | cons a xs ih =>
    have hcons : pairs (a :: xs) f = (f a).map (fun b ↦ (a, b)) ++ pairs xs f := rfl
    rw [hcons]
    simp only [List.forM_eq_forM] at ih ⊢
    rw [List.forM_cons, List.forM_append, List.forM_map, ih]

theorem fst_eq_of_initial {a : α} (ha : a ∉ xs) {done : List (α × β)} {x : α × β}
    (hpre : done ++ [x] <+: pairs (a :: xs) f) (hx : x.1 = a) : ∀ y ∈ done, y.1 = a := by
  obtain ⟨rest, hrest⟩ := hpre
  rw [pairs, List.flatMap_cons, ← pairs] at hrest
  rcases List.append_eq_append_iff.mp hrest with ⟨mid, hfirst, -⟩ | ⟨mid, hsplit, hlast⟩
  · intro y hy
    have hmem : y ∈ (f a).map fun b ↦ (a, b) := by
      rw [hfirst]
      simp [hy]
    obtain ⟨b, -, rfl⟩ := List.mem_map.mp hmem
    rfl
  · -- what is behind the pairs of the first element belongs to another one
    cases hmid : mid.getLast? with
    | none =>
      obtain rfl := List.getLast?_eq_none_iff.mp hmid
      intro y hy
      have hmem : y ∈ (f a).map fun b ↦ (a, b) := by
        rw [← List.append_nil (List.map _ _), ← hsplit]
        simp [hy]
      obtain ⟨b, -, rfl⟩ := List.mem_map.mp hmem
      rfl
    | some z =>
      have hz : z = x := by
        have hlast := congrArg List.getLast? hsplit
        rw [List.getLast?_concat, List.getLast?_append, hmid] at hlast
        simpa using hlast.symm
      have hmem : x ∈ pairs xs f := by
        rw [hlast, ← hz]
        exact List.mem_append_left _ (List.mem_of_getLast? hmid)
      exact absurd (hx ▸ (mem_pairs.mp hmem).1) ha

end Pairs

namespace Context

/-- The types of all modules, in import order. -/
def allTypes (ctx : Context) : List (ModuleId × TypeId) :=
  pairs ctx.registry.importOrder fun m ↦ (ctx.module m).typeIds

/-- The methods of all modules, in import order. -/
def allMethods (ctx : Context) : List (ModuleId × MethodId) :=
  pairs ctx.registry.importOrder fun m ↦ (ctx.module m).methodIds

theorem mem_allTypes {ctx : Context} {x : ModuleId × TypeId} :
    x ∈ ctx.allTypes ↔ x.1.index < ctx.registry.size
      ∧ x.2.index < (ctx.module x.1).types.length := by
  rw [allTypes, mem_pairs, Registry.mem_importOrder, Module.mem_typeIds]

theorem mem_allTypes_of_lt {ctx : Context} {m : ModuleId} {id : TypeId}
    (hid : id.index < (ctx.module m).types.length) : (m, id) ∈ ctx.allTypes :=
  mem_allTypes.mpr ⟨Registry.lt_of_type hid, hid⟩

theorem mem_allMethods {ctx : Context} {x : ModuleId × MethodId} :
    x ∈ ctx.allMethods ↔ x.1.index < ctx.registry.size
      ∧ x.2.index < (ctx.module x.1).methods.length := by
  rw [allMethods, mem_pairs, Registry.mem_importOrder, Module.mem_methodIds]

theorem nodup_allTypes (ctx : Context) : ctx.allTypes.Nodup :=
  nodup_pairs (Registry.nodup_importOrder _) fun m ↦ (ctx.module m).nodup_typeIds

theorem nodup_allMethods (ctx : Context) : ctx.allMethods.Nodup :=
  nodup_pairs (Registry.nodup_importOrder _) fun m ↦ (ctx.module m).nodup_methodIds

end Context

/-! ## The sweeps

What is known before and after each sweep is said by a structure of its own. The methods of the
primary are treated apart, since nobody but the primary makes methods before its types have been
filled in. -/

namespace ImportState

/-- The methods of the primary are mapped onto methods that the primary made. -/
def PrimaryMakes (s : ImportState) (ctx : Context) : Prop :=
  ∀ {p id d}, ctx.registry.primary? = some p → s.map.methodOf? p id = some (.definition d) →
    s.map.methodOrigin? d = some p

/-- What is known when all types have been filled in that come before a point. -/
structure FilledIn (s : ImportState) (ctx : Context) (done : List (ModuleId × TypeId)) : Prop where
  sound : s.Sound ctx
  faithful : s.Faithful ctx
  populated : ∀ x ∈ s.populated, x ∈ done
  filled : ∀ x ∈ done, ∃ t, s.Filled ctx x.1 x.2 t
  makers : ∀ {d l}, s.map.methodOrigin? d = some l → ∃ x ∈ done, x.1 = l
  primary : s.PrimaryMakes ctx
  bodies : ∀ d, (Module.method s.target d).body = none
  copied : s.copied = []

/-- What is known when an import has succeeded. -/
structure Imported (s : ImportState) (ctx : Context) : Prop where
  sound : s.Sound ctx
  faithful : s.Faithful ctx
  filled : ∀ {m id}, m.index < ctx.registry.size → id.index < (ctx.module m).types.length →
    ∃ t, s.Filled ctx m id t
  primary : s.PrimaryMakes ctx
  copied : ∀ d, s.Copied ctx ctx.allMethods d

end ImportState

namespace Import

open ImportState

variable {ctx : Context} {s s' : ImportState} {m : ModuleId}

theorem ShapeStep.step (h : ReflTransGen (ShapeStep ctx) s s') : ReflTransGen (Step ctx) s s' :=
  ReflTransGen.mono (fun _ _ ↦ .shape) _ _ h

theorem CopyStep.step (h : ReflTransGen (CopyStep ctx) s s') : ReflTransGen (Step ctx) s s' :=
  ReflTransGen.mono (fun _ _ ↦ .copy) _ _ h

theorem PlaceStep.step (h : ReflTransGen (PlaceStep ctx) s s') : ReflTransGen (Step ctx) s s' :=
  ReflTransGen.mono (fun _ _ h ↦ .copy (.use (.sign (.place h)))) _ _ h

theorem PlaceStep.sameMembers_steps (h : ReflTransGen (PlaceStep ctx) s s') : s.SameMembers s' :=
  UseStep.sameMembers_steps (ReflTransGen.mono (fun _ _ h ↦ .sign (.place h)) _ _ h)

section Accepted

variable (hctx : ctx.registry.Accepted)
include hctx

omit hctx in
theorem fits_topLevel {id : TypeId} (h : id ∈ (ctx.module m).topLevelTypes) :
    Pending.Fits ⟨id, none, ctx.internalizesType m id⟩ ctx m s := by
  obtain ⟨hid, htop⟩ := List.mem_filter.mp h
  exact ⟨Module.mem_typeIds.mp hid, rfl, fun _ ↦ Option.isNone_iff_eq_none.mp htop,
    fun hc ↦ by cases hc⟩

/-- Declaring the types of a module decides about those at the top, and gives them places. -/
theorem reaches_declareModule (hs : s.Sound ctx) (m : ModuleId) :
    Reaches (Declares ctx m) s (declareModule ctx m) fun _ s' ↦
      ∀ id ∈ (ctx.module m).topLevelTypes, ctx.decides m id = true
        ∧ ∃ t, s'.map.typeOf? m id = some t := by
  refine .forM_each (fun id s' s'' hs' h ↦ ?_) fun id hmem s' hs' ↦ ?_
  · obtain ⟨hdecides, t, ht⟩ := h
    exact ⟨hdecides, t, (DeclareStep.grows_steps (Declares.of_steps hs').steps).map.typeOf? ht⟩
  have hsound := DeclareStep.sound_steps (Declares.of_steps hs').steps hs
  have hfits := fits_topLevel (s := s') hmem
  exact .deciding (.single (declares_declare hctx hsound hfits))
    fun hdecides ↦ ⟨hdecides id (List.mem_cons_self ..), _, (declare_steps hctx hsound hfits).2⟩

/-- Declaring the types of several modules only places types. -/
theorem reaches_declareEach (hs : s.Sound ctx) (ms : List ModuleId) :
    Reaches (PlaceStep ctx) s (ms.forM (declareModule ctx)) fun _ _ ↦ True :=
  .forM (J := fun _ _ ↦ True) trivial fun _ m _ _ hsteps _ ↦
    (reaches_declareModule hctx (PlaceStep.sound_steps hsteps hs) m).mono (fun _ _ ↦ .declare)
      fun _ _ _ _ ↦ trivial

/-- The first sweep: everything that is filled in or copied is still to come. -/
theorem reaches_declareModules :
    Reaches (PlaceStep ctx) ctx.startImport
      (ctx.registry.importOrder.forM (declareModule ctx)) fun _ s' ↦ s'.FilledIn ctx [] := by
  have hs := ctx.sound_startImport
  refine (reaches_declareEach hctx hs _).imp fun _ s' hs' _ ↦ ?_
  have hsame := PlaceStep.sameMembers_steps hs'
  obtain ⟨hsound, hfaithful⟩ := Step.invariants (PlaceStep.step hs') hs ctx.faithful_startImport
  refine ⟨hsound, hfaithful, ?_, by simp, fun {d l} ho ↦ ?_, fun {p id d} _ hid ↦ ?_, fun d ↦ ?_,
    hsame.copied⟩
  · rw [hsame.populated]
    exact fun x hx ↦ by cases hx
  · rw [hsame.origins] at ho
    cases ho
  · rw [hsame.sameWriters.entries] at hid
    cases hid
  · rw [hsame.method_eq]
    rfl

/-- The second sweep: every type has been filled in. -/
theorem reaches_populateAll (hs : s.FilledIn ctx []) :
    Reaches (ShapeStep ctx) s
      (ctx.registry.importOrder.forM fun m ↦ (ctx.module m).typeIds.forM (populate ctx m))
      fun _ s' ↦ s'.FilledIn ctx ctx.allTypes := by
  rw [forM_pairs]
  refine .forM (J := fun done s' ↦ s'.FilledIn ctx done) hs fun done x s' hpre hs' hdone ↦ ?_
  have hid := (Context.mem_allTypes.mp (mem_of_initial hpre)).2
  -- the sweep meets no type twice, so this one has not been looked at
  have hnew : x ∉ s'.populated := fun hmem ↦
    not_mem_of_initial ctx.nodup_allTypes hpre (hdone.populated x hmem)
  refine (reaches_populate hctx hdone.sound hid).imp fun _ s'' hs'' h ↦ ?_
  obtain ⟨hfilled, hentered, hframe⟩ := h hnew
  have hsteps := ShapeStep.step hs''
  obtain ⟨hsound, hfaithful⟩ := Step.invariants hsteps hdone.sound hdone.faithful
  have hmakers : ∀ {d l}, s''.map.methodOrigin? d = some l → ∃ y ∈ done ++ [x], y.1 = l := by
    intro d l ho
    rcases hframe.origins ho with ho | rfl
    · obtain ⟨y, hy, hl⟩ := hdone.makers ho
      exact ⟨y, List.mem_append_left _ hy, hl⟩
    · exact ⟨x, by simp, rfl⟩
  refine ⟨hsound, hfaithful, fun y hy ↦ ?_, fun y hy ↦ ?_, hmakers, fun {p id d} hp hentry ↦ ?_,
    hframe.bodies hdone.bodies, hframe.copied.trans hdone.copied⟩
  · rw [hframe.populated] at hy
    rcases List.mem_cons.mp hy with rfl | hy
    · simp
    · exact List.mem_append_left _ (hdone.populated y hy)
  · rcases List.mem_append.mp hy with hy | hy
    · obtain ⟨t, ht⟩ := hdone.filled y hy
      exact ⟨t, Step.filled_steps hsteps hdone.sound ht⟩
    · rw [List.mem_singleton.mp hy]
      exact hfilled
  · by_cases hx : x.1 = p
    · -- so far only the primary has been gone through
      obtain ⟨place, owner, t, heq, himage⟩ := hfaithful.methods hentry
      cases heq
      obtain ⟨l, hl⟩ := hfaithful.made d himage.inRange
      obtain ⟨y, hy, rfl⟩ := hmakers hl
      have hother : p ∉ ctx.registry.secondaries := by
        simp [Registry.mem_secondaries, Registry.isPrimary, hp]
      have horder : ctx.registry.importOrder = p :: ctx.registry.secondaries := by
        simp [Registry.importOrder, hp]
      rw [horder] at hpre
      have hall := fst_eq_of_initial hother hpre hx
      rcases List.mem_append.mp hy with hy | hy
      · rw [hl, hall y hy]
      · rw [hl, List.mem_singleton.mp hy, hx]
    · rw [hentered.methodOf?_eq (Ne.symm hx)] at hentry
      exact (Step.grows_steps hsteps).origins (hdone.primary hp hentry)

/-- The third sweep: every method of the output has the body of its last writer. -/
theorem reaches_copyAll (hs : s.FilledIn ctx ctx.allTypes) :
    Reaches (CopyStep ctx) s
      (ctx.registry.importOrder.forM fun m ↦ (ctx.module m).methodIds.forM (copyBody ctx m))
      fun _ s' ↦ s'.Imported ctx := by
  rw [forM_pairs]
  -- who writes what does not change any more, so the writers are those of the state before
  have hloop : Reaches (CopyStep ctx) s
      (ctx.allMethods.forM fun x ↦ copyBody ctx x.1 x.2) fun _ s' ↦
        (∀ x ∈ s'.copied, x ∈ ctx.allMethods) ∧ s.SameWriters s'
          ∧ ∀ d, s'.Copied ctx ctx.allMethods d := by
    refine .forM (J := fun done s' ↦ (∀ x ∈ s'.copied, x ∈ done) ∧ s.SameWriters s'
      ∧ ∀ d, s'.Copied ctx done d) ⟨?_, .refl s, fun d ↦ .inl ⟨by simp, hs.bodies d⟩⟩
      fun done x s' hpre hs' h ↦ ?_
    · rw [hs.copied]
      exact fun x hx ↦ by cases hx
    obtain ⟨hcopied, hsame, hdone⟩ := h
    have hid := (Context.mem_allMethods.mp (mem_of_initial hpre)).2
    have hnew : x ∉ s'.copied := fun hmem ↦
      not_mem_of_initial ctx.nodup_allMethods hpre (hcopied x hmem)
    have hsound := (Step.invariants (CopyStep.step hs') hs.sound hs.faithful).1
    refine (reaches_copyBody hctx hsound hid).imp fun _ s'' hs'' h ↦ ?_
    have heffect := h hnew
    refine ⟨fun y hy ↦ ?_, hsame.trans heffect.writers, fun d ↦ ?_⟩
    · rw [heffect.copied] at hy
      rcases List.mem_cons.mp hy with rfl | hy
      · simp
      · exact List.mem_append_left _ (hcopied y hy)
    · exact (hdone d).concat (Step.grows_steps (CopyStep.step hs'')) heffect.writers heffect.writes
        heffect.keeps
  refine hloop.imp fun _ s' hs' h ↦ ?_
  have hsteps := CopyStep.step hs'
  obtain ⟨hsound, hfaithful⟩ := Step.invariants hsteps hs.sound hs.faithful
  refine ⟨hsound, hfaithful, fun hm hid ↦ ?_, fun {p id d} hp hentry ↦ ?_, h.2.2⟩
  · obtain ⟨t, ht⟩ := hs.filled (_, _) (Context.mem_allTypes.mpr ⟨hm, hid⟩)
    exact ⟨t, Step.filled_steps hsteps hs.sound ht⟩
  · rw [h.2.1.entries] at hentry
    rw [h.2.1.origins]
    exact hs.primary hp hentry

theorem reaches_run :
    Reaches (Step ctx) ctx.startImport (run ctx) fun _ s' ↦ s'.Imported ctx := by
  unfold run
  refine .bind ((reaches_declareModules hctx).mono
    (fun _ _ h ↦ .copy (.use (.sign (.place h)))) fun _ _ _ h ↦ h) fun _ s₁ _ h₁ ↦ ?_
  refine .bind ((reaches_populateAll hctx h₁).mono (fun _ _ ↦ .shape) fun _ _ _ h ↦ h)
    fun _ s₂ _ h₂ ↦ ?_
  exact (reaches_copyAll hctx h₂).mono (fun _ _ ↦ .copy) fun _ _ _ h ↦ h

/-- An import of accepted modules that succeeds has done all there is to do. -/
theorem imported_of_run (h : run ctx ctx.startImport = .ok () s) : s.Imported ctx :=
  ((reaches_run hctx).of_ok h).2

end Accepted

end Import

end ModuleLinker

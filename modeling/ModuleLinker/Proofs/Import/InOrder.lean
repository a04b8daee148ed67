import ModuleLinker.Proofs.Homomorphism
import ModuleLinker.Proofs.Import.Makers
import ModuleLinker.Proofs.Import.Mirror

/-!
# Members in order

Members of the output are numbered in the order in which they are made. A type's members get their
entries in the order in which it lists them; so where every member of the output was made for one
member of the inputs alone, the members of a type have places whose numbers go up along its lists.

Why a member was not mapped onto one that was there need not be asked. What was there had a maker;
the maker had an entry when the member had none, so it is another member with the same place.
-/

namespace ModuleLinker

open Relation (ReflTransGen)

namespace Import

open ImportState

variable {ctx : Context} {s s' : ImportState} {m : ModuleId}

/-! ## The members of a type -/

theorem nodup_membersOf {id : TypeId} (hfields : ((ctx.module m).typeDef id).fields.Nodup)
    (hmethods : ((ctx.module m).typeDef id).methods.Nodup) : (membersOf ctx m id).Nodup := by
  refine List.nodup_append.mpr ⟨hfields.map fun _ _ ↦ Symbol.field.inj,
    (hmethods.filter _).map fun _ _ ↦ Symbol.method.inj, ?_⟩
  rintro x hx y hy rfl
  obtain ⟨f, -, rfl⟩ := List.mem_map.mp hx
  obtain ⟨d, -, heq⟩ := List.mem_map.mp hy
  cases heq

theorem field_mem_membersOf {id : TypeId} {f : FieldId} :
    .field f ∈ membersOf ctx m id ↔ f ∈ ((ctx.module m).typeDef id).fields := by
  simp [membersOf]

theorem method_mem_membersOf {id : TypeId} {d : MethodId} :
    .method d ∈ membersOf ctx m id
      ↔ d ∈ ((ctx.module m).typeDef id).methods ∧ isFoldedLater ctx m id d = false := by
  simp [membersOf]

/-! ## The sweep

The sweep fills in one type after the other. A type that is filled in later has no members entered
before that, so the order of its entries is that of its own list. -/

/-- What is known of the order of entries when all types have been filled in that come before a
point: the members of those types have entries, in order, and no other members of the module do. -/
structure SweptInOrder (ctx : Context) (m : ModuleId) (s : ImportState)
    (done : List (ModuleId × TypeId)) (s' : ImportState) : Prop where
  populated : ∀ x ∈ s'.populated, x ∈ done
  entered : ∀ {x}, x.IsMember → s'.map.find? m x ≠ none →
    ∃ id, (m, id) ∈ done ∧ x ∈ membersOf ctx m id
  order : ∀ {id}, (m, id) ∈ done → (membersOf ctx m id).Pairwise (Before ctx m s s')

section Accepted

variable (hctx : ctx.registry.Accepted)
include hctx

section Once

variable (hnodup : ∀ id, (membersOf ctx m id).Nodup)
  (hunique : ∀ {x id id'}, x ∈ membersOf ctx m id → x ∈ membersOf ctx m id' → id = id')
include hnodup hunique

theorem SweptInOrder.populate {s₁ : ImportState} {done : List (ModuleId × TypeId)}
    {x : ModuleId × TypeId} (h : SweptInOrder ctx m s₁ done s)
    (hsteps : ReflTransGen (Step ctx) s₁ s) (hs : s.Sound ctx) (hnew : x ∉ done)
    (hid : x.2.index < (ctx.module x.1).types.length) :
    Reaches (ShapeStep ctx) s (populate ctx x.1 x.2) fun _ s' ↦
      SweptInOrder ctx m s₁ (done ++ [x]) s' := by
  refine (reaches_populate hctx hs hid).imp fun _ s' hs' hpopulate ↦ ?_
  obtain ⟨-, hentered, hframe⟩ := hpopulate fun hmem ↦ hnew (h.populated x hmem)
  have hsteps' := ShapeStep.step hs'
  have hold : ∀ {id}, (m, id) ∈ done →
      (membersOf ctx m id).Pairwise (Before ctx m s₁ s') := fun hmem ↦
    (h.order hmem).imp fun hbefore ↦ hbefore.mono .refl hsteps'
  refine ⟨fun y hy ↦ ?_, fun {y} hy hmapped ↦ ?_, fun {id} hmem ↦ ?_⟩
  · rw [hframe.populated] at hy
    rcases List.mem_cons.mp hy with rfl | hy
    · simp
    · exact List.mem_append_left _ (h.populated y hy)
  · by_cases hlisted : x.1 = m ∧ y ∈ membersOf ctx x.1 x.2
    · obtain ⟨rfl, hlisted⟩ := hlisted
      exact ⟨x.2, by simp, hlisted⟩
    · rw [hentered.only hy fun heq hmem ↦ hlisted ⟨heq.symm, hmem⟩] at hmapped
      obtain ⟨id, hmem, hy⟩ := h.entered hy hmapped
      exact ⟨id, List.mem_append_left _ hmem, hy⟩
  · rcases List.mem_append.mp hmem with hmem | hmem
    · exact hold hmem
    · obtain rfl := List.mem_singleton.mp hmem
      refine (hentered.order (hnodup id) fun y hy ↦ ?_).imp fun hbefore ↦
        hbefore.mono (hsteps.tail (.shape (.visit m id))) .refl
      -- a member of this type is listed by no type that has been filled in
      by_contra hmapped
      obtain ⟨id', hmem', hy'⟩ := h.entered (hentered.members y hy) hmapped
      obtain rfl := hunique hy' hy
      exact hnew hmem'

theorem reaches_populateAll_inOrder (hs : s.FilledIn ctx [])
    (hfresh : ∀ {x}, x.IsMember → s.map.find? m x = none) :
    Reaches (ShapeStep ctx) s
      (ctx.registry.importOrder.forM fun m ↦ (ctx.module m).typeIds.forM (Import.populate ctx m))
      fun _ s' ↦ SweptInOrder ctx m s ctx.allTypes s' := by
  rw [forM_pairs]
  refine .forM (J := fun done s' ↦ SweptInOrder ctx m s done s')
    ⟨hs.populated, fun hx hmapped ↦ absurd (hfresh hx) hmapped, by simp⟩
    fun done x s' hpre hs' hdone ↦ ?_
  have hsteps := ShapeStep.step hs'
  exact hdone.populate hctx hnodup hunique hsteps
    (Step.invariants hsteps hs.sound hs.faithful).1 (not_mem_of_initial ctx.nodup_allTypes hpre)
    (Context.mem_allTypes.mp (mem_of_initial hpre)).2

/-- The members of a type have got their entries in the order in which it lists them. -/
theorem inOrder_of_run (h : run ctx ctx.startImport = .ok () s) (id : TypeId) :
    (membersOf ctx m id).Pairwise (Before ctx m ctx.startImport s) := by
  obtain ⟨_, s₁, hdeclare, h⟩ := bind_eq_ok h
  obtain ⟨_, s₂, hpopulate, hcopy⟩ := bind_eq_ok h
  obtain ⟨hs₁, hstart⟩ := (reaches_declareModules hctx).of_ok hdeclare
  obtain ⟨hs₂, hfilled⟩ := (reaches_populateAll hctx hstart).of_ok hpopulate
  obtain ⟨hs₃, -⟩ := (reaches_copyAll hctx hfilled).of_ok hcopy
  have hfresh : ∀ {x : Symbol}, x.IsMember → s₁.map.find? m x = none := fun hx ↦
    (PlaceStep.sameMembers_steps hs₁).find?_eq hx
  by_cases hid : id.index < (ctx.module m).types.length
  · have hswept := ((reaches_populateAll_inOrder hctx hnodup hunique hstart hfresh).of_ok
      hpopulate).2
    exact (hswept.order (Context.mem_allTypes_of_lt hid)).imp
      fun hbefore ↦ hbefore.mono (PlaceStep.step hs₁) (CopyStep.step hs₃)
  · rw [membersOf, Module.typeDef_of_not_lt hid]
    exact .nil

end Once

/-! ## Places in order

The place of a member is its position in the table of the output. If it is made for that member,
the place is as late as the entry. -/

omit hctx in
/-- A field has a greater place than one that had an entry before, if its place is its own. -/
theorem fieldPlace_lt_of_before {f g : FieldId} {p q : FieldId}
    (h : Before ctx m ctx.startImport s (.field f) (.field g))
    (hf : s.map.fieldOf? m f = some (.definition p))
    (hown : ∀ {l g'}, s.map.fieldOf? l g' = some (.definition q) → l = m ∧ g' = g) :
    p.index < q.index := by
  obtain ⟨s₀, hs₀, hs, hmapped, hunmapped⟩ := h
  obtain ⟨hsound, hfaithful⟩ := Step.invariants hs₀ ctx.sound_startImport ctx.faithful_startImport
  have hgrows := Step.grows_steps hs
  have hp : p.index < s₀.target.fields.length := by
    obtain ⟨handle, hhandle⟩ := Option.ne_none_iff_exists'.mp fun hnone ↦
      hmapped (hsound.find?_field_eq_none hnone)
    obtain ⟨place, owner, t, rfl, himage⟩ := hfaithful.fields hhandle
    cases (hgrows.map.fieldOf? hhandle).symm.trans hf
    exact himage.inRange
  by_contra hlt
  -- otherwise the place was there already, and was made for another field
  obtain ⟨l, g', hmaker⟩ := (Step.membersMade_steps hs₀ ctx.sound_startImport
    ctx.membersMade_startImport).makers q (by omega)
  obtain ⟨rfl, rfl⟩ := hown (hgrows.map.fieldOf? hmaker.entry)
  have hentry := SymbolMap.fieldOf?_eq_some.mp hmaker.entry
  rw [hunmapped] at hentry
  cases hentry

omit hctx in
theorem methodPlace_lt_of_before {d e : MethodId} {p q : MethodId}
    (h : Before ctx m ctx.startImport s (.method d) (.method e))
    (hd : s.map.methodOf? m d = some (.definition p))
    (hown : ∀ {l e'}, s.map.methodOf? l e' = some (.definition q) → l = m ∧ e' = e) :
    p.index < q.index := by
  obtain ⟨s₀, hs₀, hs, hmapped, hunmapped⟩ := h
  obtain ⟨hsound, hfaithful⟩ := Step.invariants hs₀ ctx.sound_startImport ctx.faithful_startImport
  have hgrows := Step.grows_steps hs
  have hp : p.index < s₀.target.methods.length := by
    obtain ⟨handle, hhandle⟩ := Option.ne_none_iff_exists'.mp fun hnone ↦
      hmapped (hsound.find?_method_eq_none hnone)
    obtain ⟨place, owner, t, rfl, himage⟩ := hfaithful.methods hhandle
    cases (hgrows.map.methodOf? hhandle).symm.trans hd
    exact himage.inRange
  by_contra hlt
  obtain ⟨l, hl⟩ := hfaithful.made q (by omega)
  obtain ⟨e', hmaker⟩ := hfaithful.makers hl
  obtain ⟨rfl, rfl⟩ := hown (hgrows.map.methodOf? hmaker.entry)
  have hentry := SymbolMap.methodOf?_eq_some.mp hmaker.entry
  rw [hunmapped] at hentry
  cases hentry

section Links

variable (hlinks : (ctx.module m).LinksAgree) (h : run ctx ctx.startImport = .ok () s)
include hlinks h

theorem inOrder_of_links (id : TypeId) :
    (membersOf ctx m id).Pairwise (Before ctx m ctx.startImport s) := by
  refine inOrder_of_run hctx (fun id ↦ nodup_membersOf ?_ ?_) (fun {x id id'} hx hx' ↦ ?_) h id
  · exact hlinks.nodup_fields fun f hf ↦ field_lt hctx hf
  · exact hlinks.nodup_methods fun d hd ↦ method_lt hctx hd
  · -- a member is listed by its declaring type alone
    rcases List.mem_append.mp hx with hmem | hmem
    · obtain ⟨f, hf, rfl⟩ := List.mem_map.mp hmem
      have hid := field_lt hctx hf
      exact (hlinks.field_owner hid hf).symm.trans
        (hlinks.field_owner hid (field_mem_membersOf.mp hx'))
    · obtain ⟨d, hd, rfl⟩ := List.mem_map.mp hmem
      have hd := (List.mem_filter.mp hd).1
      have hid := method_lt hctx hd
      exact (hlinks.method_owner hid hd).symm.trans
        (hlinks.method_owner hid (method_mem_membersOf.mp hx').1)

/-- The fields of a type have places in the order in which it lists them, if no two fields share a
place. -/
theorem ascends_fields
    (hown : ∀ {f l g p}, s.map.fieldOf? m f = some (.definition p) →
      s.map.fieldOf? l g = some (.definition p) → l = m ∧ g = f) (id : TypeId) :
    Ascends (fun f p ↦ s.map.fieldOf? m f = some (.definition p)) FieldId.index
      ((ctx.module m).typeDef id).fields := by
  have hbefore := (List.pairwise_append.mp (inOrder_of_links hctx hlinks h id)).1
  refine (List.pairwise_map.mp hbefore).imp fun {f g} hfg p q hp hq ↦ ?_
  exact fieldPlace_lt_of_before hfg hp (hown hq)

theorem ascends_methods (hkept : ∀ id d, isFoldedLater ctx m id d = false)
    (hown : ∀ {d l e p}, s.map.methodOf? m d = some (.definition p) →
      s.map.methodOf? l e = some (.definition p) → l = m ∧ e = d) (id : TypeId) :
    Ascends (fun d p ↦ s.map.methodOf? m d = some (.definition p)) MethodId.index
      ((ctx.module m).typeDef id).methods := by
  have hbefore := (List.pairwise_append.mp (inOrder_of_links hctx hlinks h id)).2.1
  have hall : (((ctx.module m).typeDef id).methods.filter fun d ↦ !isFoldedLater ctx m id d)
      = ((ctx.module m).typeDef id).methods :=
    List.filter_eq_self.mpr fun d _ ↦ by simp [hkept]
  rw [hall] at hbefore
  refine (List.pairwise_map.mp hbefore).imp fun {d e} hde p q hp hq ↦ ?_
  exact methodPlace_lt_of_before hde hp (hown hq)

end Links

end Accepted

end Import

end ModuleLinker

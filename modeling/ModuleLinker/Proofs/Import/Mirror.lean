import Mathlib.Data.List.Nodup
import ModuleLinker.Proofs.Import.Outcome

/-!
# The types of the first module

The module that is declared first finds no name taken. So each of its types gets a place that looks
like it: with its name, inside the place of the type around it. Places are numbered in the order in
which they are made, and a work list is worked off from the front; so the types listed in a type get
places in the order of the list.
-/

namespace ModuleLinker

open Relation (ReflTransGen)
open Import (DeclareStep Declares)

/-! ## Lists that are mapped in order

Two lists whose elements correspond in order, and which hold the same elements up to that, are
equal element by element. That is how lists of the output are compared with lists of the
module. -/

/-- What the elements of a list are mapped onto has indices that go up. -/
def Ascends {α β : Type} (P : α → β → Prop) (index : β → Nat) (l : List α) : Prop :=
  l.Pairwise fun a a' ↦ ∀ b b', P a b → P a' b' → index b < index b'

theorem Ascends.imp {α β : Type} {P Q : α → β → Prop} {index : β → Nat} {l : List α}
    (h : Ascends P index l) (hPQ : ∀ a ∈ l, ∀ b, Q a b → P a b) : Ascends Q index l :=
  List.Pairwise.imp_of_mem (fun ha ha' hP b b' hb hb' ↦ hP b b' (hPQ _ ha b hb) (hPQ _ ha' b' hb'))
    h

theorem Ascends.concat {α β : Type} {P : α → β → Prop} {index : β → Nat} {l : List α} {a : α}
    (h : Ascends P index l) (hlast : ∀ a' ∈ l, ∀ b b', P a' b → P a b' → index b < index b') :
    Ascends P index (l ++ [a]) :=
  List.pairwise_append.mpr ⟨h, List.pairwise_singleton _ _, fun a' ha' _ ha b b' hb hb' ↦
    hlast a' ha' b b' hb (List.mem_singleton.mp ha ▸ hb')⟩

section Forall₂

variable {α β : Type} {P : α → β → Prop} {index : β → Nat} {a : α} {b : β} {l : List α} {r : List β}

/-- Lists that are mapped in order onto each other begin with elements that correspond: both have
the least index. -/
theorem Ascends.head (hl : Ascends P index (a :: l))
    (hr : (b :: r).Pairwise fun b b' ↦ index b < index b') (hto : ∃ b' ∈ b :: r, P a b')
    (hfrom : ∃ a' ∈ a :: l, P a' b) : P a b := by
  obtain ⟨b', hb', hab⟩ := hto
  obtain ⟨a', ha', h'⟩ := hfrom
  have hle : index b ≤ index b' := by
    rcases List.mem_cons.mp hb' with rfl | hb'
    · exact Nat.le_refl _
    · exact Nat.le_of_lt ((List.pairwise_cons.mp hr).1 b' hb')
  rcases List.mem_cons.mp ha' with rfl | ha'
  · exact h'
  · exact absurd ((List.pairwise_cons.mp hl).1 a' ha' b' b hab h') (Nat.not_lt.mpr hle)

theorem Ascends.forall₂ (hl : Ascends P index l) (hr : r.Pairwise fun b b' ↦ index b < index b')
    (hunique : ∀ {a b b'}, P a b → P a b' → b = b') (hto : ∀ a ∈ l, ∃ b ∈ r, P a b)
    (hfrom : ∀ b ∈ r, ∃ a ∈ l, P a b) : List.Forall₂ P l r := by
  induction l generalizing r with
  | nil =>
    cases r with
    | nil => exact .nil
    | cons b r =>
      obtain ⟨a, ha, -⟩ := hfrom b (by simp)
      cases ha
  | cons a l ih =>
    cases r with
    | nil =>
      obtain ⟨b, hb, -⟩ := hto a (by simp)
      cases hb
    | cons b r =>
      have hab : P a b := hl.head hr (hto a (by simp)) (hfrom b (by simp))
      obtain ⟨hhead, hl⟩ := List.pairwise_cons.mp hl
      obtain ⟨hfirst, hr⟩ := List.pairwise_cons.mp hr
      refine .cons hab (ih hl hr (fun a' ha' ↦ ?_) fun b' hb' ↦ ?_)
      · obtain ⟨b', hb', h'⟩ := hto a' (by simp [ha'])
        rcases List.mem_cons.mp hb' with rfl | hb'
        · exact absurd (hhead a' ha' _ _ hab h') (Nat.lt_irrefl _)
        · exact ⟨b', hb', h'⟩
      · obtain ⟨a', ha', h'⟩ := hfrom b' (by simp [hb'])
        rcases List.mem_cons.mp ha' with rfl | ha'
        · exact absurd (hunique hab h' ▸ hfirst b' hb') (Nat.lt_irrefl _)
        · exact ⟨a', ha', h'⟩

end Forall₂

theorem exists_of_rel {α β : Type} {R : α → β → Prop} {a : α} {c : Option β}
    (h : Option.Rel R (some a) c) : ∃ b, c = some b ∧ R a b := by
  cases h with
  | some h => exact ⟨_, rfl, h⟩

/-! ## What a place looks like

While types are being declared, a nested list is cut in two: types in front that have places
already, in order, and types behind that the work list still has, in order. -/

namespace ImportState

/-- A place has the name of a type, inside the place of the type around it. -/
structure Mirrored (s : ImportState) (ctx : Context) (m : ModuleId) (id t : TypeId) : Prop where
  nspace : (Module.typeDef s.target t).nspace = ((ctx.module m).typeDef id).nspace
  name : (Module.typeDef s.target t).name = ((ctx.module m).typeDef id).name
  declaring : Option.Rel (fun o u ↦ s.map.typeOf? m o = some u)
    ((ctx.module m).typeDef id).declaring (Module.typeDef s.target t).declaring

/-- The places of the types of a module look like them. -/
def Mirrors (s : ImportState) (ctx : Context) (m : ModuleId) : Prop :=
  ∀ id t, s.map.typeOf? m id = some t → s.Mirrored ctx m id t

/-- A list begins with types that have got places in order, and goes on with types that a work list
has in order. -/
structure SplitBy (s : ImportState) (m : ModuleId) (work l done todo : List TypeId) : Prop where
  split : l = done ++ todo
  placed : ∀ n ∈ done, ∃ t, s.map.typeOf? m n = some t
  ascends : Ascends (fun n t ↦ s.map.typeOf? m n = some t) TypeId.index done
  unplaced : ∀ n ∈ todo, s.map.typeOf? m n = none
  sublist : todo.Sublist work

/-- What is listed in types that have places gets places in order, as a work list goes on. -/
def Ordered (s : ImportState) (ctx : Context) (m : ModuleId) (work : List TypeId) : Prop :=
  ∀ o t, s.map.typeOf? m o = some t →
    ∃ done todo, s.SplitBy m work ((ctx.module m).typeDef o).nested done todo

variable {s s' : ImportState} {ctx : Context} {m : ModuleId} {p : Pending}

theorem rel_of_grows (hg : s.Grows s') {c c' : Option TypeId}
    (h : Option.Rel (fun o u ↦ s.map.typeOf? m o = some u) c c') :
    Option.Rel (fun o u ↦ s'.map.typeOf? m o = some u) c c' := by
  cases h with
  | none => exact .none
  | some h => exact .some (hg.map.typeOf? h)

theorem Mirrored.mono {id t : TypeId} (h : s.Mirrored ctx m id t)
    (ht : t.index < s.target.types.length) (hg : s.Grows s') : s'.Mirrored ctx m id t where
  nspace := (hg.typeDef_eq ht TypeDef.nspace fun _ ↦ rfl).trans h.nspace
  name := (hg.typeDef_eq ht TypeDef.name fun _ ↦ rfl).trans h.name
  declaring := by
    rw [hg.typeDef_eq ht TypeDef.declaring fun _ ↦ rfl]
    exact rel_of_grows hg h.declaring

section SplitBy

variable {work work' l done todo : List TypeId}

theorem SplitBy.of_unplaced (h : ∀ n ∈ l, s.map.typeOf? m n = none) (hsub : l.Sublist work) :
    s.SplitBy m work l [] l :=
  ⟨rfl, by simp, .nil, h, hsub⟩

theorem SplitBy.rework (h : s.SplitBy m work l done todo) (hsub : todo.Sublist work') :
    s.SplitBy m work' l done todo :=
  { h with sublist := hsub }

theorem SplitBy.of_eq (h : s.SplitBy m work l done todo)
    (heq : ∀ n ∈ done ++ todo, s'.map.typeOf? m n = s.map.typeOf? m n) :
    s'.SplitBy m work l done todo where
  split := h.split
  placed n hn := by
    rw [heq n (List.mem_append_left _ hn)]
    exact h.placed n hn
  ascends := h.ascends.imp fun n hn t ht ↦ (heq n (List.mem_append_left _ hn)).symm.trans ht
  unplaced n hn := (heq n (List.mem_append_right _ hn)).trans (h.unplaced n hn)
  sublist := h.sublist

theorem SplitBy.next {n : TypeId} {t : TypeId} (h : s.SplitBy m work l done (n :: todo))
    (hn : s'.map.typeOf? m n = some t)
    (hlast : ∀ n' t', s.map.typeOf? m n' = some t' → t'.index < t.index)
    (heq : ∀ n' ∈ done ++ todo, s'.map.typeOf? m n' = s.map.typeOf? m n') :
    s'.SplitBy m work l (done ++ [n]) todo := by
  have hrest : s'.SplitBy m work (done ++ todo) done todo :=
    SplitBy.of_eq ⟨rfl, h.placed, h.ascends, fun n' hn' ↦ h.unplaced n' (.tail _ hn'),
      (List.sublist_cons_self _ _).trans h.sublist⟩ heq
  refine ⟨by simp [h.split], fun n' hn' ↦ ?_, hrest.ascends.concat fun n' hn' t' u ht' hu ↦ ?_,
    hrest.unplaced, hrest.sublist⟩
  · rcases List.mem_append.mp hn' with hn' | hn'
    · exact hrest.placed n' hn'
    · exact ⟨t, List.mem_singleton.mp hn' ▸ hn⟩
  · cases hn.symm.trans hu
    exact hlast n' t' ((heq n' (List.mem_append_left _ hn')).symm.trans ht')

end SplitBy

/-! ## Declaring one type

The type in front of the work list is at the cut of the list that it is on. When it gets a place,
that is the last one, so the cut moves on by one type; and its own list comes in front of the work
list, all of it behind a cut. -/

section DeclareOne

variable (hlinks : ∀ o t, t ∈ ((ctx.module m).typeDef o).nested →
  ((ctx.module m).typeDef t).declaring = some o)
include hlinks

/-- Where links agree, a type is declared in the place of its declaring type. -/
theorem container_of_fits (hfits : p.Fits ctx m s) :
    Option.Rel (fun o u ↦ s.map.typeOf? m o = some u) ((ctx.module m).typeDef p.type).declaring
      p.container := by
  cases hc : p.container with
  | none =>
    rw [hfits.top hc]
    exact .none
  | some u =>
    obtain ⟨o, ho, hlink⟩ := hfits.inside hc
    have hdeclaring : ((ctx.module m).typeDef p.type).declaring = some o :=
      hlink.elim (hlinks o _) id
    rw [hdeclaring]
    exact .some ho

/-- So what is declared is not listed in a type without a place. -/
theorem placed_of_fits (hfits : p.Fits ctx m s) {o : TypeId}
    (hmem : p.type ∈ ((ctx.module m).typeDef o).nested) : ∃ u, s.map.typeOf? m o = some u := by
  have hrel := container_of_fits hlinks hfits
  rw [hlinks o _ hmem] at hrel
  obtain ⟨u, -, hu⟩ := exists_of_rel hrel
  exact ⟨u, hu⟩

theorem Mirrors.placed_of_listed (h : s.Mirrors ctx m) {n o t : TypeId}
    (hn : s.map.typeOf? m n = some t) (hmem : n ∈ ((ctx.module m).typeDef o).nested) :
    ∃ u, s.map.typeOf? m o = some u := by
  have hrel := (h n t hn).declaring
  rw [hlinks o n hmem] at hrel
  obtain ⟨u, -, hu⟩ := exists_of_rel hrel
  exact ⟨u, hu⟩

variable (hs : s.Sound ctx) (hfresh : s.map.find? m (.type p.type) = none)
  (hfits : p.Fits ctx m s) (hfree : s.target.lookup? (s.wantedName ctx m p) = none)
include hs hfits hfree

/-- A type that finds its name free gets a new place that has it. -/
theorem place_of_free : (s.place ctx m p).1 = ⟨s.target.types.length⟩
    ∧ (Module.typeDef (s.declareOne ctx m p).2.target ⟨s.target.types.length⟩).nspace
      = ((ctx.module m).typeDef p.type).nspace
    ∧ (Module.typeDef (s.declareOne ctx m p).2.target ⟨s.target.types.length⟩).name
      = ((ctx.module m).typeDef p.type).name
    ∧ (Module.typeDef (s.declareOne ctx m p).2.target ⟨s.target.types.length⟩).declaring
      = p.container := by
  have hout := s.outcome ctx m p
  rw [target_declareOne]
  generalize s.place ctx m p = r at hout
  cases hout with
  | reserved hmod =>
    have hrel := container_of_fits hlinks hfits
    have hwanted : s.wantedName ctx m p = moduleTypeName := by simp [wantedName, hmod]
    rw [hwanted] at hfree
    simp only [TypeDef.isModuleType, Bool.and_eq_true, Option.isNone_iff_eq_none,
      decide_eq_true_eq] at hmod
    obtain ⟨⟨hdeclaring, hnspace⟩, hname⟩ := hmod
    rw [hdeclaring] at hrel
    have hnew : s.target.ensureModuleType
        = s.target.addType { name := moduleTypeName, visibility := .notPublic } := by
      rw [Target.ensureModuleType, hfree]
    rw [hnew]
    refine ⟨rfl, ?_⟩
    rw [Module.typeDef_addType _ fun o ho ↦ by cases ho]
    simp only [if_pos]
    refine ⟨hnspace.symm, hname.symm, ?_⟩
    generalize p.container = c at hrel ⊢
    cases hrel
    rfl
  | own _ _ =>
    refine ⟨rfl, ?_⟩
    rw [typeDef_addShell hs hfits rfl]
    exact ⟨rfl, rfl, rfl⟩
  | renamed _ htaken _ _ =>
    rw [hfree] at htaken
    cases htaken
  | shared _ htaken _ =>
    rw [hfree] at htaken
    cases htaken

include hfresh

theorem Mirrors.declareOne (h : s.Mirrors ctx m) : (s.declareOne ctx m p).2.Mirrors ctx m := by
  have hg : s.Grows (s.declareOne ctx m p).2 := grows_declareOne hfresh
  obtain ⟨hplace, hnspace, hname, hdeclaring⟩ := place_of_free hlinks hs hfits hfree
  intro id t ht
  by_cases heq : (m, id) = (m, p.type)
  · cases heq
    rw [typeOf?_declareOne hfresh, declareOne_fst, hplace] at ht
    cases ht
    refine ⟨hnspace, hname, ?_⟩
    rw [hdeclaring]
    exact rel_of_grows hg (container_of_fits hlinks hfits)
  · have hold := (typeOf?_declareOne_of_ne hfresh heq).symm.trans ht
    exact (h id t hold).mono (hs.typeOf?_lt hold) hg

/-- The type in front of a work list is the next one of the list that it is on, and what it lists
itself comes in front of the others. -/
theorem Ordered.declareOne (h : s.Mirrors ctx m) {work : List TypeId}
    (hnodup : (p.type :: work).Nodup) (hord : s.Ordered ctx m (p.type :: work)) :
    (s.declareOne ctx m p).2.Ordered ctx m (((ctx.module m).typeDef p.type).nested ++ work) := by
  have hself : (s.declareOne ctx m p).2.map.typeOf? m p.type = some ⟨s.target.types.length⟩ := by
    rw [typeOf?_declareOne hfresh, declareOne_fst, (place_of_free hlinks hs hfits hfree).1]
  have hother : ∀ {n}, n ≠ p.type →
      (s.declareOne ctx m p).2.map.typeOf? m n = s.map.typeOf? m n := fun hne ↦
    typeOf?_declareOne_of_ne (x := (m, _)) hfresh fun heq ↦ hne (congrArg Prod.snd heq)
  have hunplaced : ∀ t, s.map.typeOf? m p.type ≠ some t := fun t ht ↦ by
    rw [SymbolMap.typeOf?, hfresh] at ht
    cases ht
  intro o t ho
  by_cases heq : o = p.type
  · -- nothing that is listed in the type has a place, since the type had none
    subst heq
    refine ⟨[], _, .of_unplaced (fun n hn ↦ ?_) (List.sublist_append_left _ _)⟩
    have hne : n ≠ p.type := by
      rintro rfl
      obtain ⟨u, hu⟩ := placed_of_fits hlinks hfits hn
      exact hunplaced u hu
    rw [hother hne]
    refine Option.eq_none_iff_forall_ne_some.mpr fun t' ht' ↦ ?_
    obtain ⟨u, hu⟩ := h.placed_of_listed hlinks ht' hn
    exact hunplaced u hu
  · rw [hother heq] at ho
    obtain ⟨done, todo, hsplit⟩ := hord o t ho
    have hkeep : ∀ {rest : List TypeId}, rest.Sublist work → ∀ n ∈ done ++ rest,
        (s.declareOne ctx m p).2.map.typeOf? m n = s.map.typeOf? m n := by
      refine fun hsub n hn ↦ hother ?_
      rintro rfl
      rcases List.mem_append.mp hn with hn | hn
      · obtain ⟨t', ht'⟩ := hsplit.placed _ hn
        exact hunplaced t' ht'
      · exact (List.nodup_cons.mp hnodup).1 (hsub.subset hn)
    have hsub := hsplit.sublist
    cases hsub with
    | cons _ hsub =>
      exact ⟨done, todo,
        (hsplit.of_eq (hkeep hsub)).rework (hsub.trans (List.sublist_append_right _ _))⟩
    | @cons_cons todo _ _ hsub =>
      exact ⟨done ++ [p.type], todo,
        (hsplit.next hself (fun _ _ ht' ↦ hs.typeOf?_lt ht') (hkeep hsub)).rework
          (hsub.trans (List.sublist_append_right _ _))⟩

end DeclareOne

theorem Ordered.skip {id : TypeId} {work : List TypeId} (h : s.Ordered ctx m (id :: work))
    (hmapped : ∃ t, s.map.typeOf? m id = some t) : s.Ordered ctx m work := by
  intro o t ho
  obtain ⟨done, todo, hsplit⟩ := h o t ho
  refine ⟨done, todo, hsplit.rework ?_⟩
  have hsub := hsplit.sublist
  cases hsub with
  | cons _ hsub => exact hsub
  | cons_cons _ hsub =>
    obtain ⟨t', ht'⟩ := hmapped
    rw [hsplit.unplaced id (by simp)] at ht'
    cases ht'

/-! ## Declaring all types

When the work list is empty, no type is behind a cut. -/

/-- What is known of the first module while its types are declared. -/
structure First (s : ImportState) (ctx : Context) (m : ModuleId) (work : List TypeId) : Prop where
  alone : s.Alone ctx m
  mirrors : s.Mirrors ctx m
  ordered : s.Ordered ctx m work

section Accepted

variable (hctx : ctx.registry.Accepted)
  (hlinks : ∀ o t, t ∈ ((ctx.module m).typeDef o).nested →
    ((ctx.module m).typeDef t).declaring = some o)
  (hnodup : ∀ o, ((ctx.module m).typeDef o).nested.Nodup)
  (hnames : Module.NamesDistinct (ctx.module m))
include hctx hlinks hnodup hnames

/-- Working off a list keeps the order of all lists. -/
theorem first_declareAll {work : List Pending} (hs : s.Sound ctx)
    (hwork : ∀ p ∈ work, p.Fits ctx m s) (honce : (work.map Pending.type).Nodup)
    (h : s.First ctx m (work.map Pending.type)) : (declareAll ctx m s work).First ctx m [] := by
  fun_induction declareAll ctx m s work with
  | case1 s => exact h
  | case2 s p rest hmapped ih =>
    exact ih hs (fun q hq ↦ hwork q (by simp [hq])) (List.nodup_cons.mp honce).2
      ⟨h.alone, h.mirrors, h.ordered.skip (hs.typeOf?_of_contains hmapped)⟩
  | case3 s p rest hnew placed ih =>
    have hfresh := find?_eq_none_of_not_contains hnew
    have hfits := hwork p (by simp)
    have hstep : DeclareStep ctx m s placed.2 := .declare hfresh hfits
    have hfree := h.alone.free hctx hlinks hnames hs hfresh hfits
    have hplace : placed.2.map.typeOf? m p.type = some placed.1 := typeOf?_declareOne hfresh
    have hunplaced : s.map.typeOf? m p.type = none := by rw [SymbolMap.typeOf?, hfresh]
    have hmap : (nestedPending ctx m p.type placed.1 ++ rest).map Pending.type
        = ((ctx.module m).typeDef p.type).nested ++ rest.map Pending.type := by
      simp [nestedPending, Function.comp_def]
    refine ih (hstep.sound hs) (fun q hq ↦ ?_) ?_ ?_
    · rcases List.mem_append.mp hq with hq | hq
      · exact nestedPending_fits hctx hplace q hq
      · exact (hwork q (by simp [hq])).mono hstep.grows
    · rw [hmap]
      refine List.nodup_append.mpr ⟨hnodup _, (List.nodup_cons.mp honce).2, ?_⟩
      rintro n hn _ hlater rfl
      -- what fits elsewhere is not listed in a type that had no place
      obtain ⟨q, hq, rfl⟩ := List.mem_map.mp hlater
      obtain ⟨u, hu⟩ := placed_of_fits hlinks (hwork q (List.mem_cons_of_mem _ hq)) hn
      rw [hunplaced] at hu
      cases hu
    · rw [hmap]
      exact ⟨hstep.alone hctx hlinks hnames hs h.alone,
        h.mirrors.declareOne hlinks hs hfresh hfits hfree,
        h.ordered.declareOne hlinks hs hfresh hfits hfree h.mirrors honce⟩

end Accepted

theorem Ordered.mono_work (h : s.Ordered ctx m []) (work : List TypeId) : s.Ordered ctx m work := by
  intro o t ho
  obtain ⟨done, todo, hsplit⟩ := h o t ho
  exact ⟨done, todo, hsplit.rework (hsplit.sublist.trans (List.nil_sublist _))⟩

/-- When no type is left on a work list, the types that are listed in one have places in order. -/
theorem Ordered.ascends (h : s.Ordered ctx m []) {o t : TypeId} (ho : s.map.typeOf? m o = some t) :
    Ascends (fun n t' ↦ s.map.typeOf? m n = some t') TypeId.index
      ((ctx.module m).typeDef o).nested := by
  obtain ⟨done, todo, hsplit⟩ := h o t ho
  rw [hsplit.split, List.sublist_nil.mp hsplit.sublist, List.append_nil]
  exact hsplit.ascends

end ImportState

/-! ## The primary -/

namespace Import

open ImportState

variable {ctx : Context} {s : ImportState} {m : ModuleId}

section Accepted

variable (hctx : ctx.registry.Accepted)
  (hlinks : ∀ o t, t ∈ ((ctx.module m).typeDef o).nested ↔
    t.index < (ctx.module m).types.length ∧ ((ctx.module m).typeDef t).declaring = some o)
  (hnodup : ∀ o, ((ctx.module m).typeDef o).nested.Nodup)
  (hnames : Module.NamesDistinct (ctx.module m))
include hctx hlinks hnodup hnames

theorem first_of_declareModule (h : declareModule ctx m ctx.startImport = .ok () s) :
    s.First ctx m [] := by
  have hstart : ctx.startImport.First ctx m [] :=
    ⟨⟨fun h ↦ (by cases h), fun h ↦ (by cases h), fun t ht ↦ (by cases ht)⟩,
      fun _ _ h ↦ (by cases h), fun _ _ h ↦ by cases h⟩
  have hloop : Reaches (Declares ctx m) ctx.startImport (declareModule ctx m) fun _ s' ↦
      s'.First ctx m [] := by
    refine .forM (J := fun _ s' ↦ s'.First ctx m []) hstart fun done id s' hpre hs' hfirst ↦ ?_
    have hsound := DeclareStep.sound_steps (Declares.of_steps hs').steps ctx.sound_startImport
    have hfits := fits_topLevel (s := s') (mem_of_initial hpre)
    refine .deciding (.single (declares_declare hctx hsound hfits)) fun _ ↦ ?_
    exact first_declareAll hctx (fun o t ht ↦ ((hlinks o t).mp ht).2) hnodup hnames hsound
      (by simpa using hfits) (by simp) ⟨hfirst.alone, hfirst.mirrors, hfirst.ordered.mono_work _⟩
  exact (hloop.of_ok h).2

/-- After an import the places of the primary look like its types, and the types that are listed in
one have places in the order of the list. -/
theorem mirrors_of_run (hp : ctx.registry.primary? = some m)
    (h : run ctx ctx.startImport = .ok () s) : s.Mirrors ctx m
      ∧ ∀ o, Ascends (fun n t ↦ s.map.typeOf? m n = some t) TypeId.index
        ((ctx.module m).typeDef o).nested := by
  obtain ⟨s₁, hdeclared, hs₁, hgrows⟩ := exists_declared_of_run hctx hp h
  obtain ⟨-, hmirrors, hordered⟩ :=
    first_of_declareModule hctx hlinks hnodup hnames hdeclared
  have hplaced := leads_of_declareModule hctx hlinks hnames hdeclared
  have hsound := (imported_of_run hctx h).sound
  -- all types had places then, and have kept them
  have hold : ∀ {id t}, s.map.typeOf? m id = some t → s₁.map.typeOf? m id = some t := by
    intro id t ht
    obtain ⟨t', ht', -⟩ := hplaced id (hsound.inputs ht)
    obtain rfl : t' = t := Option.some.inj ((hgrows.map.typeOf? ht').symm.trans ht)
    exact ht'
  refine ⟨fun id t ht ↦ (hmirrors id t (hold ht)).mono (hs₁.typeOf?_lt (hold ht)) hgrows,
    fun o ↦ ?_⟩
  by_cases ho : o.index < (ctx.module m).types.length
  · obtain ⟨t, ht, -⟩ := hplaced o ho
    exact (hordered.ascends ht).imp fun n _ u hu ↦ hold hu
  · rw [Module.typeDef_of_not_lt ho]
    exact .nil

end Accepted

end Import

end ModuleLinker

import ModuleLinker.Proofs.Import.References

/-!
# Entries of members

Carrying signatures and operands over never touches a member of the output, nor the entry of a
member of an input. Entries of members are made one at a time, and a type's are made in the order in
which the type lists them. What is remembered of the order is that at some moment the one had an
entry when the other had none: what had been made by then was made before.
-/

namespace ModuleLinker

open Relation (ReflTransGen)

/-! ## States with the same members

Placing types and entering references changes the types and the references of the output, and
nested lists. What is known of members does not read any of these. -/

/-- A type without its nested list. -/
def TypeDef.unnested (d : TypeDef) : TypeDef := { d with nested := [] }

/-- A symbol is that of a member. -/
def Symbol.IsMember : Symbol → Prop
  | .method _ | .field _ => True
  | .type _ | .typeRef _ | .memberRef _ | .export _ => False

namespace ImportState

/-- Two states have the same members, mapped alike, and the same types to them; types, references
and what became of them may have been added. -/
structure SameMembers (s s' : ImportState) : Prop where
  methods : s'.target.methods = s.target.methods
  fields : s'.target.fields = s.target.fields
  types : ∀ {t : TypeId}, t.index < s.target.types.length →
    (s'.target.typeDef t).unnested = (s.target.typeDef t).unnested
  within : s.target.types.length ≤ s'.target.types.length
  methodEntries : ∀ m id, s'.map.find? m (.method id) = s.map.find? m (.method id)
  fieldEntries : ∀ m id, s'.map.find? m (.field id) = s.map.find? m (.field id)
  origins : ∀ d, s'.map.methodOrigin? d = s.map.methodOrigin? d
  populated : s'.populated = s.populated
  copied : s'.copied = s.copied

namespace SameMembers

variable {s s' s'' : ImportState}

theorem refl (s : ImportState) : s.SameMembers s :=
  ⟨rfl, rfl, fun _ ↦ rfl, Nat.le_refl _, fun _ _ ↦ rfl, fun _ _ ↦ rfl, fun _ ↦ rfl, rfl, rfl⟩

theorem trans (h : s.SameMembers s') (h' : s'.SameMembers s'') : s.SameMembers s'' where
  methods := h'.methods.trans h.methods
  fields := h'.fields.trans h.fields
  types ht := (h'.types (Nat.lt_of_lt_of_le ht h.within)).trans (h.types ht)
  within := Nat.le_trans h.within h'.within
  methodEntries m id := (h'.methodEntries m id).trans (h.methodEntries m id)
  fieldEntries m id := (h'.fieldEntries m id).trans (h.fieldEntries m id)
  origins d := (h'.origins d).trans (h.origins d)
  populated := h'.populated.trans h.populated
  copied := h'.copied.trans h.copied

theorem find?_eq (h : s.SameMembers s') {m : ModuleId} {x : Symbol} (hx : x.IsMember) :
    s'.map.find? m x = s.map.find? m x := by
  cases x with
  | method id => exact h.methodEntries m id
  | field id => exact h.fieldEntries m id
  | type _ | typeRef _ | memberRef _ | «export» _ => exact hx.elim

theorem methodOf?_eq (h : s.SameMembers s') (m : ModuleId) (id : MethodId) :
    s'.map.methodOf? m id = s.map.methodOf? m id := by
  unfold SymbolMap.methodOf?
  rw [h.methodEntries]

theorem method_eq (h : s.SameMembers s') (d : MethodId) :
    Module.method s'.target d = Module.method s.target d :=
  Module.method_congr h.methods d

theorem of_references {t : Target} (ht : t.types = s.target.types)
    (hm : t.methods = s.target.methods) (hf : t.fields = s.target.fields) :
    s.SameMembers { s with target := t } :=
  ⟨hm, hf, fun _ ↦ by simp only [Module.typeDef, ht], Nat.le_of_eq (congrArg _ ht.symm),
    fun _ _ ↦ rfl, fun _ _ ↦ rfl, fun _ ↦ rfl, rfl, rfl⟩

theorem of_record {m : ModuleId} {symbol : Symbol} {c : Counterpart}
    (hm : ∀ id, symbol ≠ .method id) (hf : ∀ id, symbol ≠ .field id) :
    s.SameMembers { s with map := s.map.record m symbol c } :=
  ⟨rfl, rfl, fun _ ↦ rfl, Nat.le_refl _,
    fun _ id ↦ SymbolMap.find?_record_of_ne (fun heq ↦ hm id (congrArg Prod.snd heq).symm) _,
    fun _ id ↦ SymbolMap.find?_record_of_ne (fun heq ↦ hf id (congrArg Prod.snd heq).symm) _,
    fun _ ↦ rfl, rfl, rfl⟩

theorem type_eq (h : s.SameMembers s') {t : TypeId} (ht : t.index < s.target.types.length)
    {β : Type} (f : TypeDef → β) (hf : ∀ d, f d.unnested = f d) :
    f (Module.typeDef s'.target t) = f (Module.typeDef s.target t) := by
  rw [← hf, ← hf (Module.typeDef s.target t), h.types ht]

theorem findField? (h : s.SameMembers s') {t : TypeId} (ht : t.index < s.target.types.length)
    (name : String) : s'.target.findField? t name = s.target.findField? t name := by
  have hfield : ∀ id, Module.field s'.target id = Module.field s.target id := fun id ↦ by
    rw [Module.field, h.fields]
    rfl
  unfold Target.findField?
  rw [h.type_eq ht TypeDef.fields fun _ ↦ rfl]
  exact congrArg (List.find? · _) (funext fun id ↦ by rw [hfield id])

end SameMembers

end ImportState

namespace Import

variable {ctx : Context} {s s' : ImportState} {m : ModuleId}

theorem DeclareStep.sameMembers (h : DeclareStep ctx m s s') : s.SameMembers s' := by
  have hstep := h
  cases h with
  | @declare p hfresh _ =>
    have hcases := s.place_cases ctx m p
    refine ⟨?_, ?_, fun {t} ht ↦ ?_, (ImportState.grows_declareOne hfresh).target.within .type,
      fun l id ↦ hstep.find?_eq l (by simp), fun l id ↦ hstep.find?_eq l (by simp),
      fun d ↦ ImportState.methodOrigin?_declareOne d, ImportState.populated_declareOne,
      ImportState.copied_declareOne⟩
    · rw [ImportState.target_declareOne]
      rcases hcases with hshares | ⟨shell, henters⟩
      · rw [hshares.target]
      · rw [henters.target, Module.addType_tables]
    · rw [ImportState.target_declareOne]
      rcases hcases with hshares | ⟨shell, henters⟩
      · rw [hshares.target]
      · rw [henters.target, Module.addType_tables]
    · rw [ImportState.target_declareOne]
      rcases hcases with hshares | ⟨shell, henters⟩
      · rw [hshares.target]
      · rw [henters.target]
        exact Module.typeDef_addType_of_lt _ shell TypeDef.unnested (fun _ _ ↦ rfl) ht

theorem DeclareStep.sameMembers_steps (h : ReflTransGen (DeclareStep ctx m) s s') :
    s.SameMembers s' := by
  induction h with
  | refl => exact .refl s
  | tail _ hstep ih => exact ih.trans hstep.sameMembers

theorem PlaceStep.sameMembers (h : PlaceStep ctx s s') : s.SameMembers s' := by
  cases h with
  | declare h => exact DeclareStep.sameMembers_steps h.steps
  | @refer l a _ _ =>
    have htab := s.target.referAssembly_tables ((ctx.module l).assemblyRef a)
    refine .of_references ?_ ?_ ?_
    all_goals rw [htab]
  | @intern r _ =>
    rcases s.target.internTypeRef_cases r with ⟨heq, -⟩ | ⟨-, heq⟩ <;> rw [heq]
    · exact .refl s
    · exact .of_references rfl rfl rfl

theorem SignStep.sameMembers (h : SignStep ctx s s') : s.SameMembers s' := by
  cases h with
  | place h => exact h.sameMembers
  | resolve _ _ _ _ _ => exact .of_record (by simp) (by simp)

theorem UseStep.sameMembers (h : UseStep ctx s s') : s.SameMembers s' := by
  cases h with
  | sign h => exact h.sameMembers
  | @intern r _ =>
    rcases s.target.internMemberRef_cases r with ⟨heq, -⟩ | ⟨-, heq⟩ <;> rw [heq]
    · exact .refl s
    · exact .of_references rfl rfl rfl
  | resolve _ _ _ _ => exact .of_record (by simp) (by simp)

theorem UseStep.grows_steps (h : ReflTransGen (UseStep ctx) s s') : s.Grows s' :=
  .of_steps (fun _ _ ↦ UseStep.grows) h

theorem UseStep.sound_steps (h : ReflTransGen (UseStep ctx) s s') (hs : s.Sound ctx) :
    s'.Sound ctx :=
  .of_steps UseStep.sound h hs

theorem UseStep.sameMembers_steps (h : ReflTransGen (UseStep ctx) s s') : s.SameMembers s' := by
  induction h with
  | refl => exact .refl s
  | tail _ hstep ih => exact ih.trans hstep.sameMembers

theorem SignStep.of_places (h : ReflTransGen (PlaceStep ctx) s s') :
    ReflTransGen (SignStep ctx) s s' :=
  ReflTransGen.mono (fun _ _ ↦ .place) _ _ h

theorem UseStep.of_signs (h : ReflTransGen (SignStep ctx) s s') : ReflTransGen (UseStep ctx) s s' :=
  ReflTransGen.mono (fun _ _ ↦ .sign) _ _ h

theorem SignStep.find?_memberRef_steps (h : ReflTransGen (SignStep ctx) s s') (l : ModuleId)
    (r : MemberRefId) : s'.map.find? l (.memberRef r) = s.map.find? l (.memberRef r) := by
  induction h with
  | refl => rfl
  | tail _ hstep ih =>
    refine Eq.trans ?_ ih
    cases hstep with
    | place h =>
      cases h with
      | declare h => exact DeclareStep.find?_eq_steps h.steps l (by simp)
      | refer _ _ | intern _ => rfl
    | resolve _ _ _ _ _ => exact SymbolMap.find?_record_of_ne (fun heq ↦ by cases heq) _

/-! ## Members entered in order

A stretch of the way is given by its two ends. On it some members got their entries, in an order
that can be told from states in between: the earlier one had an entry when the later had none. -/

/-- On the way from one state to another, one symbol of a module had an entry when another still had
none. -/
def Before (ctx : Context) (m : ModuleId) (s s' : ImportState) (x y : Symbol) : Prop :=
  ∃ s₀, ReflTransGen (Step ctx) s s₀ ∧ ReflTransGen (Step ctx) s₀ s'
    ∧ s₀.map.find? m x ≠ none ∧ s₀.map.find? m y = none

theorem FillStep.step (h : ReflTransGen (FillStep ctx m) s s') : ReflTransGen (Step ctx) s s' :=
  ReflTransGen.mono (fun _ _ h ↦ .shape (.fill h)) _ _ h

theorem Before.mono {s₁ s₁' : ImportState} {x y : Symbol} (h : Before ctx m s s' x y)
    (hbefore : ReflTransGen (Step ctx) s₁ s) (hafter : ReflTransGen (Step ctx) s' s₁') :
    Before ctx m s₁ s₁' x y := by
  obtain ⟨s₀, hs, hs', hx, hy⟩ := h
  exact ⟨s₀, hbefore.trans hs, hs'.trans hafter, hx, hy⟩

/-- Members of a module have got entries, one after the other, and no other member has got one. -/
structure EntersInOrder (ctx : Context) (m : ModuleId) (xs : List Symbol) (s s' : ImportState) :
    Prop where
  steps : ReflTransGen (FillStep ctx m) s s'
  members : ∀ x ∈ xs, x.IsMember
  entered : ∀ x ∈ xs, s'.map.find? m x ≠ none
  only : ∀ {l x}, x.IsMember → (l = m → x ∉ xs) → s'.map.find? l x = s.map.find? l x
  order : xs.Nodup → (∀ x ∈ xs, s.map.find? m x = none) → xs.Pairwise (Before ctx m s s')

namespace EntersInOrder

theorem nil (hsteps : ReflTransGen (FillStep ctx m) s s')
    (hsame : ∀ {l x}, x.IsMember → s'.map.find? l x = s.map.find? l x) :
    EntersInOrder ctx m [] s s' :=
  ⟨hsteps, by simp, by simp, fun hx _ ↦ hsame hx, fun _ _ ↦ .nil⟩

theorem of_signs (h : ReflTransGen (SignStep ctx) s s') : EntersInOrder ctx m [] s s' :=
  .nil (ReflTransGen.mono (fun _ _ ↦ .sign) _ _ h)
    (UseStep.sameMembers_steps (UseStep.of_signs h)).find?_eq

theorem singleton {x : Symbol} (hx : x.IsMember) (hsteps : ReflTransGen (FillStep ctx m) s s')
    (hself : s'.map.find? m x ≠ none)
    (hother : ∀ {l y}, (l, y) ≠ (m, x) → s'.map.find? l y = s.map.find? l y) :
    EntersInOrder ctx m [x] s s' where
  steps := hsteps
  members := by simpa using hx
  entered := by simpa using hself
  only _ hne := hother fun heq ↦
    hne (congrArg Prod.fst heq) (List.mem_singleton.mpr (congrArg Prod.snd heq))
  order _ _ := List.pairwise_singleton _ _

theorem methodOf?_eq {xs : List Symbol} (h : EntersInOrder ctx m xs s s') {l : ModuleId}
    (hne : l ≠ m) (id : MethodId) : s'.map.methodOf? l id = s.map.methodOf? l id := by
  rw [SymbolMap.methodOf?, h.only (x := .method id) trivial fun heq ↦ absurd heq hne]
  rfl

theorem append {xs ys : List Symbol} {s'' : ImportState} (h : EntersInOrder ctx m xs s s')
    (h' : EntersInOrder ctx m ys s' s'') : EntersInOrder ctx m (xs ++ ys) s s'' where
  steps := h.steps.trans h'.steps
  members x hx := (List.mem_append.mp hx).elim (h.members x) (h'.members x)
  entered x hx := by
    rcases List.mem_append.mp hx with hx | hx
    · obtain ⟨c, hc⟩ := Option.ne_none_iff_exists'.mp (h.entered x hx)
      have hg : s'.Grows s'' := .of_steps (fun _ _ ↦ FillStep.grows) h'.steps
      rw [hg.map m x c hc]
      exact Option.some_ne_none c
    · exact h'.entered x hx
  only hx hne := (h'.only hx fun hl hmem ↦ hne hl (List.mem_append_right _ hmem)).trans
    (h.only hx fun hl hmem ↦ hne hl (List.mem_append_left _ hmem))
  order hnodup hfresh := by
    obtain ⟨hxs, hys, hdisjoint⟩ := List.nodup_append.mp hnodup
    have hlater : ∀ y ∈ ys, s'.map.find? m y = none := fun y hy ↦
      (h.only (h'.members y hy) fun _ hmem ↦ hdisjoint y hmem y hy rfl).trans
        (hfresh y (List.mem_append_right _ hy))
    refine List.pairwise_append.mpr ⟨?_, ?_, fun x hx y hy ↦ ?_⟩
    · exact (h.order hxs fun x hx ↦ hfresh x (List.mem_append_left _ hx)).imp fun hbefore ↦
        hbefore.mono .refl (FillStep.step h'.steps)
    · exact (h'.order hys hlater).imp fun hbefore ↦ hbefore.mono (FillStep.step h.steps) .refl
    · exact ⟨s', FillStep.step h.steps, FillStep.step h'.steps, h.entered x hx, hlater y hy⟩

end EntersInOrder

end Import

end ModuleLinker

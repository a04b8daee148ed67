import ModuleLinker.Proofs.ControlFlow
import ModuleLinker.Proofs.Import.Late

/-!
# Folding initializers

The combined routine is built block by block. A block holds a body that has been moved behind what
is there, with its operands remapped by the map of the moment; since maps only grow, every block is
at all times what the current map makes of its source. The primary's own body has been remapped
before, when it was copied, and is only moved.
-/

namespace ModuleLinker

open Relation (ReflTransGen)

/-! ## Relinking

The branches of a carried instruction still name positions of the source. They are moved when the
length of the block is known, and one that does not lead anywhere in the body is an error. -/

theorem mapM_eq_ok_iff {α β ε : Type} {f : α → Except ε β} {xs : List α} {ys : List β} :
    xs.mapM f = .ok ys ↔ List.Forall₂ (fun x y ↦ f x = .ok y) xs ys := by
  induction xs generalizing ys with
  | nil =>
    rw [List.mapM_nil, List.forall₂_nil_left_iff]
    constructor
    · intro h
      cases h
      rfl
    · rintro rfl
      rfl
  | cons x xs ih =>
    rw [List.mapM_cons]
    constructor
    · intro h
      cases hx : f x with
      | error e =>
        rw [hx] at h
        cases h
      | ok y =>
        cases hxs : xs.mapM f with
        | error e =>
          rw [hx, hxs] at h
          cases h
        | ok ys' =>
          rw [hx, hxs] at h
          cases h
          exact .cons hx (ih.mp hxs)
    · rintro (_ | ⟨hx, hxs⟩)
      rw [hx, ih.mpr hxs]
      rfl

theorem landing_eq_ok {name : RoutineName} {is : List Instruction} {first p q : Nat}
    (h : landing name is first p = .ok q) : p ≤ is.length ∧ q = place is first p := by
  unfold landing at h
  split at h
  · next hp =>
    cases h
    exact ⟨hp, rfl⟩
  · cases h

theorem Operand.relink_eq_ok {name : RoutineName} {is : List Instruction} {first : Nat}
    {o o' : Operand} (h : o.relink (landing name is first) = .ok o') :
    (∀ t ∈ o.targets, t ≤ is.length) ∧ o' = o.retarget (place is first) := by
  cases o with
  | branch target =>
    cases hl : landing name is first target with
    | error e =>
      rw [Operand.relink, hl] at h
      cases h
    | ok q =>
      rw [Operand.relink, hl] at h
      cases h
      obtain ⟨hle, rfl⟩ := landing_eq_ok hl
      exact ⟨by simpa [targets] using hle, rfl⟩
  | switch ts =>
    cases hl : ts.mapM (landing name is first) with
    | error e =>
      rw [Operand.relink, hl] at h
      cases h
    | ok qs =>
      rw [Operand.relink, hl] at h
      cases h
      have hall := (mapM_eq_ok_iff.mp hl).imp fun _ _ ↦ landing_eq_ok
      rw [List.forall₂_and_left] at hall
      obtain ⟨hle, hqs⟩ := hall
      have heq : List.Forall₂ (· = ·) qs (ts.map (place is first)) :=
        List.forall₂_map_right_iff.mpr hqs.flip
      rw [List.forall₂_eq_eq_eq] at heq
      exact ⟨hle, congrArg Operand.switch heq⟩
  | none | int32 _ | int64 _ | float64 _ | string _ | type _ | method _ | field _ | «local» _
    | argument _ | signature _ =>
    cases h
    exact ⟨fun t ht ↦ (by cases ht), rfl⟩

/-! ## Moving a body

Operands are carried over one by one, and that may change the state. A block is known to be a
moved body under the map that there is at the end, since the map is only extended on the way. -/

theorem exists_position_of_mem {pre block : List Instruction} {j : Instruction} (hj : j ∈ block) :
    ∃ p, pre.length ≤ p ∧ p < pre.length + block.length ∧ (pre ++ block)[p]? = some j := by
  obtain ⟨k, hk⟩ := List.mem_iff_getElem?.mp hj
  have hlt := (List.getElem?_eq_some_iff.mp hk).1
  refine ⟨pre.length + k, Nat.le_add_right _ _, Nat.add_lt_add_left hlt _, ?_⟩
  rw [List.getElem?_append_right (Nat.le_add_right _ _), Nat.add_sub_cancel_left]
  exact hk

namespace Import

/-- A carried instruction, before its branches are relinked. -/
def Carried (remap : Operand → Option Operand) (length : Nat) (i j : Instruction) : Prop :=
  i.opcode = .ret ∧ j = .branch .br length
    ∨ i.opcode ≠ .ret ∧ ∃ o, remap i.operand = some o ∧ j = { i with operand := o }

theorem moved_of_carried {remap : Operand → Option Operand} (hr : KeepsTargets remap)
    {name : RoutineName} {is carried block : List Instruction} (pre : List Instruction)
    (hcarried : List.Forall₂ (Carried remap is.length) (keptInstructions is) carried)
    (hblock : carried.mapM (fun i ↦ i.relink (landing name is pre.length)) = .ok block) :
    Moved remap is (pre ++ block) pre.length (pre.length + block.length) := by
  rw [mapM_eq_ok_iff] at hblock
  -- every kept instruction has one of the block, behind what was there before
  have hget : ∀ {p : Nat} {i : Instruction}, (keptInstructions is)[p]? = some i → ∃ j b,
      Carried remap is.length i j ∧ j.relink (landing name is pre.length) = .ok b
        ∧ (pre ++ block)[pre.length + p]? = some b := by
    intro p i hi
    obtain ⟨hp, rfl⟩ := List.getElem?_eq_some_iff.mp hi
    have hp' := hcarried.length_eq ▸ hp
    have hp'' := hblock.length_eq ▸ hp'
    refine ⟨_, _, hcarried.get hp hp', hblock.get hp' hp'', ?_⟩
    rw [List.getElem?_append_right (Nat.le_add_right _ _), Nat.add_sub_cancel_left]
    exact List.getElem?_eq_getElem hp''
  have hrelink : ∀ {j b : Instruction}, j.relink (landing name is pre.length) = .ok b →
      (∀ t ∈ j.operand.targets, t ≤ is.length)
        ∧ b = { j with operand := j.operand.retarget (place is pre.length) } := by
    intro j b hb
    cases ho : j.operand.relink (landing name is pre.length) with
    | error e =>
      rw [Instruction.relink, ho] at hb
      cases hb
    | ok o =>
      rw [Instruction.relink, ho] at hb
      cases hb
      obtain ⟨hle, rfl⟩ := Operand.relink_eq_ok ho
      exact ⟨hle, rfl⟩
  have hlast : pre.length + block.length = pre.length + (keptInstructions is).length := by
    rw [← hblock.length_eq, ← hcarried.length_eq]
  refine ⟨hlast, fun {p i} hi hret ↦ ?_, fun {p i} hi hret ↦ ?_⟩
  · obtain ⟨j, b, hj, hb, hat⟩ := hget hi
    rcases hj with ⟨-, rfl⟩ | ⟨hne, -⟩
    · obtain ⟨-, rfl⟩ := hrelink hb
      have hend : place is pre.length is.length = pre.length + block.length := by
        rw [place, hlast, Nat.min_eq_right (length_keptInstructions_le is)]
      rw [hat, ← hend]
      rfl
    · exact absurd hret hne
  · obtain ⟨j, b, hj, hb, hat⟩ := hget hi
    rcases hj with ⟨hret', -⟩ | ⟨-, o, ho, rfl⟩
    · exact absurd hret' hret
    · obtain ⟨hle, rfl⟩ := hrelink hb
      rw [← hr.targets ho]
      exact ⟨o, ho, hle, hat⟩

/-- Moving a body carries its operands over and puts the block behind what is there. -/
theorem reaches_moveInstructions {T : ImportState → ImportState → Prop} {s : ImportState}
    {carry : Operand → Import Operand} {remap : ImportState → Operand → Option Operand}
    {name : RoutineName} {is : List Instruction} (pre : List Instruction)
    (hr : ∀ s, KeepsTargets (remap s))
    (hkeep : ∀ s s', ReflTransGen T s s' → ∀ o o', remap s o = some o' → remap s' o = some o')
    (hcarry : ∀ i ∈ is, ∀ s', ReflTransGen T s s' → Reaches T s' (carry i.operand) fun o s'' ↦
      remap s'' i.operand = some o) :
    Reaches T s (moveInstructions carry name is pre.length) fun block s' ↦
      Moved (remap s') is (pre ++ block) pre.length (pre.length + block.length) := by
  unfold moveInstructions
  have hmap : Reaches T s ((keptInstructions is).mapM (carryInstruction carry is.length))
      fun carried s' ↦
        List.Forall₂ (Carried (remap s') is.length) (keptInstructions is) carried := by
    refine .mapM (P := fun i j s' ↦ Carried (remap s') is.length i j) ?_ fun i hi s' hs' ↦ ?_
    · rintro i j s₁ s₂ hs (⟨hret, rfl⟩ | ⟨hne, o, ho, rfl⟩)
      · exact .inl ⟨hret, rfl⟩
      · exact .inr ⟨hne, o, hkeep s₁ s₂ hs _ _ ho, rfl⟩
    · unfold carryInstruction
      split
      · next hret => exact .pure (.inl ⟨hret, rfl⟩)
      · next hne =>
        obtain ⟨p, hp⟩ := List.mem_iff_getElem?.mp hi
        rw [getElem?_keptInstructions (List.getElem?_eq_some_iff.mp hp).1] at hp
        refine .bind (hcarry i (List.mem_of_getElem? hp) s' hs') fun o s'' _ ho ↦ .pure ?_
        exact .inr ⟨hne, o, ho, rfl⟩
  refine .bind hmap fun carried s' _ hcarried ↦ ?_
  exact .ofExcept fun block hblock ↦ moved_of_carried (hr s') pre hcarried hblock

end Import

/-! ## Compositions -/

/-- Blocks that follow one another without a gap, from one position to another. -/
def Tiles : Nat → List Block → Nat → Prop
  | first, [], last => first = last
  | first, b :: bs, last => b.first = first ∧ b.first ≤ b.last ∧ Tiles b.last bs last

theorem Tiles.concat {bs : List Block} {b : Block} {first mid : Nat} (h : Tiles first bs mid)
    (hb : b.first = mid) (hle : b.first ≤ b.last) : Tiles first (bs ++ [b]) b.last := by
  induction bs generalizing first with
  | nil =>
    refine ⟨?_, hle, rfl⟩
    rw [hb]
    exact Eq.symm h
  | cons c cs ih => exact ⟨h.1, h.2.1, ih h.2.2⟩

theorem Tiles.le {bs : List Block} {first last : Nat} (h : Tiles first bs last) : first ≤ last := by
  induction bs generalizing first with
  | nil => exact Nat.le_of_eq h
  | cons b bs ih =>
    obtain ⟨rfl, hle, hrest⟩ := h
    exact Nat.le_trans hle (ih hrest)

namespace ImportState

/-- A combined routine is the composition of bodies of input modules, one block for each. -/
structure Composes (s : ImportState) (f : Folding) (sources : List (ModuleId × Body)) : Prop where
  tiles : Tiles 0 f.blocks f.instructions.length
  moved : List.Forall₂ (fun b x ↦ b.origin = x.1 ∧ Moved (s.map.remapOperand? x.1)
    x.2.instructions f.instructions b.first b.last) f.blocks sources
  noReturn : ∀ i ∈ f.instructions, i.opcode ≠ .ret
  has : ∀ i ∈ f.instructions, ∀ x ∈ i.operand.ids, s.target.Has x

namespace Composes

variable {s s' : ImportState} {f : Folding} {sources : List (ModuleId × Body)}

theorem nil (s : ImportState) : s.Composes {} [] :=
  ⟨rfl, .nil, fun i hi ↦ (by cases hi), fun i hi ↦ by cases hi⟩

theorem mono (h : s.Composes f sources) (hs : s.Grows s') : s'.Composes f sources where
  tiles := h.tiles
  moved := h.moved.imp fun _ _ hb ↦ ⟨hb.1, hb.2.mono fun _ _ ↦ hs.map.remapOperand?⟩
  noReturn := h.noReturn
  has i hi x hx := (h.has i hi x hx).mono hs.target.within

theorem append (h : s.Composes f sources) {m : ModuleId} {body : Body} {block : List Instruction}
    (hmoved : Moved (s.map.remapOperand? m) body.instructions (f.instructions ++ block)
      f.instructions.length (f.instructions.length + block.length))
    (hhas : ∀ i ∈ block, ∀ x ∈ i.operand.ids, s.target.Has x) :
    s.Composes (f.append m block) (sources ++ [(m, body)]) := by
  have hlast : (f.instructions ++ block).length = f.instructions.length + block.length :=
    List.length_append
  constructor
  case tiles =>
    refine h.tiles.concat rfl ?_
    change f.instructions.length ≤ (f.instructions ++ block).length
    omega
  case moved =>
    refine List.rel_append (h.moved.imp fun _ _ hb ↦ ⟨hb.1, hb.2.append block⟩)
      (.cons ⟨rfl, ?_⟩ .nil)
    change Moved _ _ _ _ (f.instructions ++ block).length
    rw [hlast]
    exact hmoved
  case noReturn =>
    intro i hi
    rcases List.mem_append.mp hi with hi | hi
    · exact h.noReturn i hi
    · obtain ⟨p, hfirst, hend, hp⟩ := exists_position_of_mem hi
      exact hmoved.opcode_ne_ret hfirst hend hp
  case has =>
    intro i hi
    rcases List.mem_append.mp hi with hi | hi
    · exact h.has i hi
    · exact hhas i hi

end Composes

end ImportState

theorem Module.listed_of_initializer? {m : Module} {id : MethodId} (h : m.initializer? = some id) :
    ∃ owner, owner.index < m.types.length ∧ id ∈ (m.typeDef owner).methods := by
  unfold initializer? at h
  rw [Option.bind_eq_bind, Option.bind_eq_some_iff] at h
  obtain ⟨owner, howner, hfind⟩ := h
  have hmem := (List.mem_filter.mp (List.mem_of_find?_eq_some howner)).1
  exact ⟨owner, mem_typeIds.mp hmem, List.mem_of_find?_eq_some hfind⟩

namespace Import

variable {ctx : Context} {s : ImportState}

/-! ## One initializer -/

/-- The body of a method of a module, if it has one. -/
def bodyOf (ctx : Context) (x : ModuleId × MethodId) : List (ModuleId × Body) :=
  (((ctx.module x.1).method x.2).body.map fun body ↦ (x.1, body)).toList

section Accepted

variable (hctx : ctx.registry.Accepted)
include hctx

theorem reaches_importFoldedOperand (hs : s.Sound ctx) {m : ModuleId} (name : RoutineName)
    (o : Operand) (hin : ∀ x ∈ o.ids, (ctx.module m).Has x) :
    Reaches (UseStep ctx) s (importFoldedOperand ctx m name o) fun r s' ↦
      s'.map.remapOperand? m o = some r := by
  unfold importFoldedOperand
  split
  · exact .throw
  · exact .throw
  · exact .throw
  · exact reaches_importOperand hctx hs o hin

theorem reaches_foldSecondary (hs : s.Sound ctx) {f : Folding} {sources : List (ModuleId × Body)}
    (hf : s.Composes f sources) {m : ModuleId} {id : MethodId}
    (hid : id.index < (ctx.module m).methods.length) :
    Reaches (FoldStep ctx) s (foldSecondary ctx f m id) fun f' s' ↦
      s'.Composes f' (sources ++ bodyOf ctx (m, id)) ∧ s'.target.methods = s.target.methods
        ∧ s'.map.blocks = s.map.blocks := by
  unfold foldSecondary bodyOf
  cases hbody : ((ctx.module m).method id).body with
  | none => exact .pure ⟨by simpa using hf, rfl, rfl⟩
  | some body =>
    have hin : ∀ i ∈ body.instructions, ∀ x ∈ i.operand.ids, (ctx.module m).Has x := by
      intro i hi x hx
      refine body_has hctx hid hbody x ?_
      exact List.mem_append_right _ (List.mem_flatMap.mpr ⟨i, hi, hx⟩)
    refine .bind ((reaches_moveInstructions f.instructions
      (fun s ↦ keepsTargets_remapOperand? s.map m)
      (fun _ _ hs _ _ ↦ (UseStep.grows_steps hs).map.remapOperand?) fun i hi s' hs' ↦
        reaches_importFoldedOperand hctx (UseStep.sound_steps hs' hs) _ _ (hin i hi)).lift
          fun _ _ ↦ .use) fun block s₁ _ h ↦ ?_
    obtain ⟨hs₁, hmoved⟩ := h
    have hsound₁ := UseStep.sound_steps hs₁ hs
    have hhas : ∀ i ∈ block, ∀ x ∈ i.operand.ids, s₁.target.Has x := by
      intro j hj x hx
      obtain ⟨p, hfirst, hlast, hp⟩ := exists_position_of_mem hj
      obtain ⟨i, -, o, ho, hxo⟩ := hmoved.exists_of_mem_ids hfirst hlast hp hx
      exact hsound₁.has_of_brings (SymbolMap.brings_operand ho x hxo)
    have hcomposes := (hf.mono (UseStep.grows_steps hs₁)).append hmoved hhas
    have hmethods := (UseStep.sameMembers_steps hs₁).methods
    have hblocks := UseStep.blocks_eq_steps hs₁
    have hnote : FoldStep ctx s₁ { s₁ with map := s₁.map.markFolded m id } :=
      ⟨.note rfl rfl rfl, rfl, rfl, fun _ _ ↦ rfl⟩
    exact .run_bind rfl (.single hnote) (.pure ⟨hcomposes.mono hnote.late.grows, hmethods, hblocks⟩)

theorem initializer?_lt {m : ModuleId} {id : MethodId} (h : (ctx.module m).initializer? = some id) :
    id.index < (ctx.module m).methods.length := by
  obtain ⟨t, -, hmem⟩ := Module.listed_of_initializer? h
  exact method_lt hctx hmem

end Accepted

/-- The bodies of the initializers of the secondaries, in input order. -/
def secondaryBodies (ctx : Context) : List (ModuleId × Body) :=
  (secondaryInitializers ctx).flatMap (bodyOf ctx)

/-- Folding in the initializers of the secondaries adds a block for each that has a body. -/
theorem reaches_foldSecondaries (hctx : ctx.registry.Accepted) (hs : s.Sound ctx) :
    Reaches (FoldStep ctx) s
      ((secondaryInitializers ctx).foldlM (fun f x ↦ foldSecondary ctx f x.1 x.2) {}) fun f s' ↦
        s'.Composes f (secondaryBodies ctx) ∧ s'.target.methods = s.target.methods
          ∧ s'.map.blocks = s.map.blocks := by
  refine .foldlM (J := fun done f s' ↦ s'.Composes f (done.flatMap (bodyOf ctx))
    ∧ s'.target.methods = s.target.methods ∧ s'.map.blocks = s.map.blocks)
    ⟨.nil s, rfl, rfl⟩ fun done x f s' hpre hs' hJ ↦ ?_
  obtain ⟨hf, hmethods, hblocks⟩ := hJ
  have hid : x.2.index < (ctx.module x.1).methods.length := by
    obtain ⟨m, -, hm⟩ := List.mem_filterMap.mp (mem_of_initial hpre)
    obtain ⟨id, hid, rfl⟩ := Option.map_eq_some_iff.mp hm
    exact initializer?_lt hctx hid
  refine (reaches_foldSecondary hctx (FoldStep.sound_steps hs' hs) hf hid).imp fun f' s'' _ h ↦ ?_
  obtain ⟨hf', hmethods', hblocks'⟩ := h
  rw [List.flatMap_append, List.flatMap_singleton]
  exact ⟨hf', hmethods'.trans hmethods, hblocks'.trans hblocks⟩

theorem reaches_foldPrimary {f : Folding} {sources : List (ModuleId × Body)}
    (hf : s.Composes f sources) {p : ModuleId} {source body : Body}
    (hp : ctx.registry.primary? = some p) (hbody : s.map.remapBody? p source = some body)
    (hin : ∀ x ∈ body.ids, s.target.Has x) :
    Reaches (FoldStep ctx) s (foldPrimary ctx f body) fun f' s' ↦
      s' = s ∧ s.Composes f' (sources ++ [(p, source)]) := by
  unfold foldPrimary
  have hmove : Reaches (fun _ _ ↦ False) s (moveInstructions (fun o ↦ (pure o : Import Operand))
      ⟨Module.memberText moduleTypeName initializerName, ctx.targetName⟩ body.instructions
      f.instructions.length) fun block _ ↦ Moved some body.instructions (f.instructions ++ block)
        f.instructions.length (f.instructions.length + block.length) :=
    reaches_moveInstructions f.instructions (fun _ ↦ keepsTargets_some) (fun _ _ _ _ _ ho ↦ ho)
      fun i _ s' _ ↦ .pure rfl
  refine .bind (hmove.lift fun _ _ h ↦ h.elim) fun block s' _ h ↦ ?_
  obtain ⟨hsame, hmoved⟩ := h
  obtain rfl : s' = s := by
    cases hsame with
    | refl => rfl
    | tail _ h => exact h.elim
  have hsource : List.Forall₂ (fun i j ↦ i.mapOperand? (s'.map.remapOperand? p) = some j)
      source.instructions body.instructions := by
    simp only [SymbolMap.remapBody?, Option.bind_eq_bind, Option.bind_eq_some_iff] at hbody
    obtain ⟨is, his, ls, -, heq⟩ := hbody
    cases heq
    exact mapM_eq_some_iff.mp his
  rw [hp]
  refine .pure ⟨rfl, hf.append (hmoved.of_remapped (keepsTargets_remapOperand? _ p) hsource) ?_⟩
  intro j hj x hx
  obtain ⟨k, hfirst, hlast, hk⟩ := exists_position_of_mem hj
  obtain ⟨i, hi, o, ho, hxo⟩ := hmoved.exists_of_mem_ids hfirst hlast hk hx
  cases ho
  exact hin x (List.mem_append_right _ (List.mem_flatMap.mpr ⟨i, hi, hxo⟩))

/-! ## The primary's initializer

The primary's initializer is imported with its type, like any other method. If another method of
the primary has the same name and signature, the two share a method of the output, and the body
that is there is the one that was written last. -/

theorem importedInitializer?_eq_some {map : SymbolMap} {id : MethodId} :
    importedInitializer? ctx map = some id ↔ ∃ p init, ctx.registry.primary? = some p
      ∧ (ctx.module p).initializer? = some init ∧ map.methodOf? p init = some (.definition id) := by
  unfold importedInitializer?
  simp only [Option.bind_eq_bind, Option.bind_eq_some_iff]
  constructor
  · rintro ⟨p, hp, init, hinit, h⟩
    split at h
    · next hentry =>
      cases h
      exact ⟨p, init, hp, hinit, hentry⟩
    · cases h
  · rintro ⟨p, init, hp, hinit, hentry⟩
    refine ⟨p, hp, init, hinit, ?_⟩
    rw [hentry]

theorem importedInitializer?_lt (hs : s.Sound ctx) {id : MethodId}
    (h : importedInitializer? ctx s.map = some id) : id.index < s.target.methods.length := by
  obtain ⟨p, init, -, -, hentry⟩ := importedInitializer?_eq_some.mp h
  exact hs.methodOf?_lt hentry

/-- The method that holds the combined routine: the one that the primary's initializer was imported
as, or else one that is added behind all others. -/
def combinedInitializer (ctx : Context) (s : ImportState) : MethodId :=
  (importedInitializer? ctx s.map).getD ⟨s.target.methods.length⟩

/-- What the primary adds to the combined routine: the body of the last of its methods that share a
method of the output with its initializer, if any of them has one. -/
inductive OwnSource (ctx : Context) (s : ImportState) : List (ModuleId × Body) → Prop
  | nothing (hnone : ∀ id, importedInitializer? ctx s.map = some id →
      ∀ x ∈ ctx.allMethods, ¬s.Writes ctx id x) : OwnSource ctx s []
  | last {id : MethodId} {x : ModuleId × MethodId} {source : Body}
      (hid : importedInitializer? ctx s.map = some id)
      (hlast : LastWith (s.Writes ctx id) ctx.allMethods x)
      (hsource : ((ctx.module x.1).method x.2).body = some source) :
      OwnSource ctx s [(x.1, source)]

/-- The body that the import of types has left to the primary's initializer, and where it is from.
-/
theorem ownSource_cases (h : s.Imported ctx) :
    ((importedInitializer? ctx s.map).bind fun id ↦ (Module.method s.target id).body) = none
        ∧ OwnSource ctx s []
      ∨ ∃ p source body, ctx.registry.primary? = some p
        ∧ ((importedInitializer? ctx s.map).bind fun id ↦ (Module.method s.target id).body)
          = some body
        ∧ (∀ x ∈ body.ids, s.target.Has x) ∧ s.map.remapBody? p source = some body
        ∧ OwnSource ctx s [(p, source)] := by
  cases hid : importedInitializer? ctx s.map with
  | none =>
    refine .inl ⟨rfl, .nothing fun id hid' ↦ ?_⟩
    rw [hid] at hid'
    cases hid'
  | some id =>
    rcases h.copied id with ⟨hnone, hbody⟩ | ⟨x, hlast, source, body, hsource, hremap, hbody⟩
    · refine .inl ⟨hbody, .nothing fun id' hid' ↦ ?_⟩
      rw [hid] at hid'
      cases hid'
      exact hnone
    · -- whoever wrote the method is the primary, which made it
      obtain ⟨p, init, hp, -, hentry⟩ := importedInitializer?_eq_some.mp hid
      have hx : x.1 = p := by
        have heq := hlast.holds.2.1.symm.trans (h.primary hp hentry)
        simpa using heq
      have hown : OwnSource ctx s [(x.1, source)] := .last hid hlast hsource
      rw [hx] at hremap hown
      have hin := h.sound.closed.has_of_body (importedInitializer?_lt h.sound hid) hbody
      exact .inr ⟨p, source, body, hp, hbody, hin, hremap, hown⟩

/-! ## The combined routine

The state is changed for good in two steps: the body of one method is set, and its blocks are
recorded. Only then is there something to be said of the routine that refers to the state
alone. -/

theorem reaches_setInitializer {existing : Option MethodId} {owner : TypeId} {body : Body}
    (hexisting : ∀ id, existing = some id → id.index < s.target.methods.length)
    (howner : owner.index < s.target.types.length) (hin : ∀ x ∈ body.ids, s.target.Has x) :
    Reaches (FoldStep ctx) s (setInitializer existing owner body) fun id s' ↦
      id = existing.getD ⟨s.target.methods.length⟩ ∧ s'.map = s.map
        ∧ (Module.method s'.target id).body = some body
        ∧ ∀ d ≠ id, Module.method s'.target d = Module.method s.target d := by
  unfold setInitializer
  cases existing with
  | some id =>
    refine .updateTarget (.single ⟨.setBody id hin, .of_target rfl⟩) ⟨rfl, rfl, ?_, fun d hd ↦ ?_⟩
    · rw [Module.method_updateMethod, if_pos ⟨rfl, hexisting id rfl⟩]
    · rw [Module.method_updateMethod, if_neg fun h ↦ hd h.1]
  | none =>
    refine .updateTarget (.single ⟨.addMethod fun x hx ↦ ?_, .of_target rfl⟩)
      ⟨rfl, rfl, ?_, fun d hd ↦ ?_⟩
    · rcases List.mem_cons.mp hx with rfl | hx
      · exact howner
      · exact hin x hx
    · rw [Module.addMethod_fst, Module.method_addMethod, if_pos rfl]
    · rw [Module.addMethod_fst] at hd
      rw [Module.method_addMethod, if_neg hd]

theorem blocksOf_recordBlock (map : SymbolMap) (id d : MethodId) (b : Block) :
    (map.recordBlock id b).blocksOf d
      = if d = id then map.blocksOf id ++ [b] else map.blocksOf d := by
  rw [SymbolMap.blocksOf, SymbolMap.recordBlock, Table.find?_insert]
  split <;> rfl

theorem blocksOf_eq_nil {map : SymbolMap} (h : map.blocks = {}) (d : MethodId) :
    map.blocksOf d = [] := by
  rw [SymbolMap.blocksOf, h]
  rfl

theorem recordBlocks_eq (id : MethodId) (bs : List Block) (map : SymbolMap) :
    (bs.foldl (fun map b ↦ map.recordBlock id b) map).blocksOf id = map.blocksOf id ++ bs
      ∧ ∃ blocks, bs.foldl (fun map b ↦ map.recordBlock id b) map = { map with blocks }
        ∧ ∀ d ≠ id, ({ map with blocks } : SymbolMap).blocksOf d = map.blocksOf d := by
  induction bs generalizing map with
  | nil => exact ⟨(List.append_nil _).symm, _, rfl, fun _ _ ↦ rfl⟩
  | cons b bs ih =>
    obtain ⟨hblocks, blocks, hmap, hothers⟩ := ih (map.recordBlock id b)
    refine ⟨?_, blocks, ?_, fun d hd ↦ (hothers d hd).trans ?_⟩
    · rw [List.foldl_cons, hblocks, blocksOf_recordBlock, if_pos rfl, List.append_assoc]
      rfl
    · rw [List.foldl_cons, hmap]
      rfl
    · rw [blocksOf_recordBlock, if_neg hd]

end Import

/-- The body of a method of the output is a composition of bodies of input modules, followed by a
return. -/
def ImportState.Combined (s : ImportState) (id : MethodId) (sources : List (ModuleId × Body)) :
    Prop :=
  ∃ front locals, (Module.method s.target id).body = some ⟨front ++ [.ret], locals⟩
    ∧ s.Composes ⟨front, s.map.blocksOf id⟩ sources

/-- One method of the output has been given a composition of bodies; all others are as they were,
and have no blocks. -/
structure ImportState.CombinedIn (s s' : ImportState) (id : MethodId)
    (sources : List (ModuleId × Body)) : Prop where
  combined : s'.Combined id sources
  methods : ∀ d ≠ id, Module.method s'.target d = Module.method s.target d
  blocks : ∀ d ≠ id, s'.map.blocksOf d = []

namespace Import

variable {ctx : Context} {s : ImportState}

theorem reaches_recordInitializer {f : Folding} {sources : List (ModuleId × Body)}
    (hf : s.Composes f sources) (hblocks : s.map.blocks = {}) {existing : Option MethodId}
    {owner : TypeId} {locals : List TypeSig}
    (hexisting : ∀ id, existing = some id → id.index < s.target.methods.length)
    (howner : owner.index < s.target.types.length)
    (hlocals : ∀ x ∈ locals.flatMap TypeSig.ids, s.target.Has x) :
    Reaches (FoldStep ctx) s (do
      let id ← setInitializer existing owner { instructions := f.instructions ++ [.ret], locals }
      modifyMap fun map ↦ f.blocks.foldl (fun map b ↦ map.recordBlock id b) map) fun _ s' ↦
        s.CombinedIn s' (existing.getD ⟨s.target.methods.length⟩) sources := by
  have hin : ∀ x ∈ (Body.mk (f.instructions ++ [.ret]) locals).ids, s.target.Has x := by
    intro x hx
    rcases List.mem_append.mp hx with hx | hx
    · exact hlocals x hx
    · obtain ⟨i, hi, hx⟩ := List.mem_flatMap.mp hx
      rcases List.mem_append.mp hi with hi | hi
      · exact hf.has i hi x hx
      · rw [List.mem_singleton.mp hi] at hx
        cases hx
  refine .bind (reaches_setInitializer hexisting howner hin) fun id s₁ hs₁ h ↦ ?_
  obtain ⟨rfl, hmap, hbody, hmethods⟩ := h
  obtain ⟨hrecorded, blocks, heq, hothers⟩ := recordBlocks_eq
    (existing.getD ⟨s.target.methods.length⟩) f.blocks s₁.map
  have hnote : FoldStep ctx s₁ { s₁ with map := { s₁.map with blocks } } :=
    ⟨.note rfl rfl rfl, rfl, rfl, fun _ _ ↦ rfl⟩
  have hnew : ∀ d, s₁.map.blocksOf d = [] := fun d ↦ by rw [hmap, blocksOf_eq_nil hblocks]
  rw [hnew, List.nil_append] at hrecorded
  refine .modifyMap ?_ ⟨⟨f.instructions, locals, hbody, ?_⟩, hmethods, fun d hd ↦ ?_⟩
  · rw [heq]
    exact .single hnote
  · rw [hrecorded, heq]
    exact hf.mono ((FoldStep.grows_steps hs₁).trans hnote.late.grows)
  · rw [heq]
    exact (hothers d hd).trans (hnew d)

/-- What folding the initializers does to the methods: nothing if no secondary module has one, and
else one of them becomes the composition of the secondaries' bodies and the primary's. -/
inductive CombineEffect (ctx : Context) (s s' : ImportState) : Prop
  | nothing (hempty : secondaryInitializers ctx = [])
      (hmethods : s'.target.methods = s.target.methods) (hblocks : s'.map.blocks = {}) :
      CombineEffect ctx s s'
  | combined {own : List (ModuleId × Body)} (hsecondary : secondaryInitializers ctx ≠ [])
      (hown : OwnSource ctx s own)
      (hin : s.CombinedIn s' (combinedInitializer ctx s) (secondaryBodies ctx ++ own)) :
      CombineEffect ctx s s'

/-- The effect may be seen from the beginning, as long as no method has changed before the combined
routine is set. -/
theorem CombineEffect.of_combinedIn {s' s'' : ImportState} {own : List (ModuleId × Body)}
    (hsecondary : secondaryInitializers ctx ≠ []) (hown : OwnSource ctx s own)
    (hmethods : s'.target.methods = s.target.methods)
    (hin : s'.CombinedIn s'' ((importedInitializer? ctx s.map).getD ⟨s'.target.methods.length⟩)
      (secondaryBodies ctx ++ own)) : CombineEffect ctx s s'' := by
  rw [hmethods] at hin
  exact .combined hsecondary hown ⟨hin.combined,
    fun d hd ↦ (hin.methods d hd).trans (Module.method_congr hmethods d), hin.blocks⟩

/-- Later growth that changes neither methods nor blocks does not change the effect. -/
theorem CombineEffect.of_frame {s' s'' : ImportState} (h : CombineEffect ctx s s')
    (hs : s'.Grows s'') (hmethods : s''.target.methods = s'.target.methods)
    (hblocks : s''.map.blocks = s'.map.blocks) : CombineEffect ctx s s'' := by
  have hmethod := Module.method_congr hmethods
  have hblocksOf : ∀ d, s''.map.blocksOf d = s'.map.blocksOf d := fun d ↦ by
    rw [SymbolMap.blocksOf, hblocks]
    rfl
  cases h with
  | nothing hempty hsame hnone =>
    exact .nothing hempty (hmethods.trans hsame) (hblocks.trans hnone)
  | combined hsecondary hown hin =>
    obtain ⟨⟨front, locals, hbody, hcomposes⟩, hothers, hnone⟩ := hin
    refine .combined hsecondary hown ⟨⟨front, locals, (hmethod _).symm ▸ hbody, ?_⟩,
      fun d hd ↦ (hmethod d).trans (hothers d hd), fun d hd ↦ (hblocksOf d).trans (hnone d hd)⟩
    rw [hblocksOf]
    exact hcomposes.mono hs

/-- Folding the initializers leaves the composition of the secondaries' bodies and the primary's. -/
theorem reaches_combineInitializers (hctx : ctx.registry.Accepted) (h : s.Imported ctx)
    (hblocks : s.map.blocks = {}) :
    Reaches (FoldStep ctx) s (combineInitializers ctx) fun _ s' ↦ CombineEffect ctx s s' := by
  unfold combineInitializers
  dsimp only
  rcases eq_or_ne (secondaryInitializers ctx) [] with hempty | hsecondary
  · rw [if_pos (List.isEmpty_iff.mpr hempty)]
    exact .pure (.nothing hempty rfl hblocks)
  rw [if_neg fun h ↦ hsecondary (List.isEmpty_iff.mp h)]
  refine .ofMap_bind ?_
  have hmodule : FoldStep ctx s { s with target := s.target.ensureModuleType.2 } :=
    ⟨.moduleType, .of_target (exportedTypes_ensureModuleType s.target)⟩
  have hsound₁ := hmodule.late.sound h.sound
  refine .bind (.updateTarget (Q := fun owner s' ↦ owner = s.target.ensureModuleType.1
    ∧ s' = { s with target := s.target.ensureModuleType.2 }) (.single hmodule) ⟨rfl, rfl⟩)
    fun owner s₁ _ h₁ ↦ ?_
  obtain ⟨rfl, rfl⟩ := h₁
  -- no method comes with the module-level type, so the primary's body is where it was
  have hmethod := Module.method_congr (methods_ensureModuleType s.target)
  refine .ofTarget_bind ?_
  simp only [hmethod]
  refine .bind (reaches_foldSecondaries hctx hsound₁) fun f s₂ hs₂ h₂ ↦ ?_
  obtain ⟨hf, hmethods, hblocks₂⟩ := h₂
  have hgrows := hmodule.late.grows.trans (FoldStep.grows_steps hs₂)
  rw [methods_ensureModuleType] at hmethods
  have hexisting : ∀ id, importedInitializer? ctx s.map = some id →
      id.index < s₂.target.methods.length := by
    intro id hid
    rw [hmethods]
    exact importedInitializer?_lt h.sound hid
  have howner : s.target.ensureModuleType.1.index < s₂.target.types.length :=
    Nat.lt_of_lt_of_le (ensureModuleType_lt _) ((FoldStep.grows_steps hs₂).target.within .type)
  rcases ownSource_cases h with ⟨hnone, hown⟩ | ⟨p, source, body, hp, hbody, hin, hremap, hown⟩
  · rw [hnone]
    refine .run_bind rfl .refl ?_
    refine (reaches_recordInitializer hf (hblocks₂.trans hblocks) hexisting howner ?_).imp
      fun _ s' _ hin ↦ .of_combinedIn hsecondary hown hmethods ?_
    · intro x hx
      cases hx
    · rwa [List.append_nil]
  · rw [hbody]
    -- it was remapped when it was copied, and the map has grown since
    have hin₂ := fun x hx ↦ (hin x hx).mono hgrows.target.within
    refine .bind (reaches_foldPrimary hf hp (hgrows.map.remapBody? hremap) hin₂)
      fun f' s₃ _ h₃ ↦ ?_
    obtain ⟨rfl, hf'⟩ := h₃
    refine (reaches_recordInitializer hf' (hblocks₂.trans hblocks) hexisting howner ?_).imp
      fun _ s' _ hin ↦ .of_combinedIn hsecondary hown hmethods hin
    exact fun x hx ↦ hin₂ x (List.mem_append_left _ hx)

end Import

end ModuleLinker

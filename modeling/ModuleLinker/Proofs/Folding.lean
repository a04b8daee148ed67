import ModuleLinker.Proofs.Import.Combine

/-!
# The combined routine

The initializers of all modules become one routine that does what they do, one after another. Each
block of it runs like the body that it was made from, no path gets out of a block but at its end,
where the next block begins, and the return that comes last is the only one. So the traces of the
whole routine are those that consist of a trace of each body.

The primary's body is not taken from its module, however, but from the output, where the import of
types has left it. When several methods of the primary share a method of the output with its
initializer, it is the last of them that has left its body there, and the initializer is the first.
The combined routine is the composition of the initializers exactly when those two bodies run alike.
-/

namespace ModuleLinker

/-! ## Sequential composition

A composition is stated by the traces of its parts, not by their instructions. So a body may be
replaced by another one that runs like it, and only then. -/

/-- A routine with its blocks is the composition of bodies of input modules. -/
structure Sequential (map : SymbolMap) (is : List Instruction) (blocks : List Block)
    (sources : List (ModuleId × Body)) : Prop where
  /-- The blocks fill the routine, but for one return, which is the last instruction. -/
  returns_last : ∃ front, is = front ++ [.ret] ∧ (∀ i ∈ front, i.opcode ≠ .ret)
    ∧ Tiles 0 blocks front.length
  /-- No path leaves a block but at its end. -/
  encloses : ∀ b ∈ blocks, Encloses is b.first b.last
  /-- Each block runs like a body, which is of the module that is noted for the block. -/
  traces : List.Forall₂ (fun b x ↦ b.origin = x.1 ∧ blockTraces is b.first b.last
    = returnTraces (map.remapOperand? x.1) x.2.instructions) blocks sources

/-- Two bodies of a module run alike once they have been remapped. -/
def RunsLike (map : SymbolMap) (x y : ModuleId × Body) : Prop :=
  x.1 = y.1 ∧ returnTraces (map.remapOperand? x.1) x.2.instructions
    = returnTraces (map.remapOperand? y.1) y.2.instructions

theorem RunsLike.refl (map : SymbolMap) (x : ModuleId × Body) : RunsLike map x x := ⟨rfl, rfl⟩

theorem forall₂_trans {α β γ : Type} {R : α → β → Prop} {S : β → γ → Prop} {T : α → γ → Prop}
    (hcomp : ∀ {x y z}, R x y → S y z → T x z) {xs : List α} {ys : List β} {zs : List γ}
    (hR : List.Forall₂ R xs ys) (hS : List.Forall₂ S ys zs) : List.Forall₂ T xs zs := by
  induction hR generalizing zs with
  | nil =>
    cases hS
    exact .nil
  | cons hxy _ ih =>
    cases hS with
    | cons hyz hrest => exact .cons (hcomp hxy hyz) (ih hrest)

namespace Sequential

variable {map : SymbolMap} {is : List Instruction} {blocks : List Block}
  {sources sources' : List (ModuleId × Body)}

/-- A composition of some bodies is one of others exactly when they run alike, one by one. -/
theorem iff_runsLike (h : Sequential map is blocks sources) :
    Sequential map is blocks sources' ↔ List.Forall₂ (RunsLike map) sources sources' := by
  constructor
  · intro h'
    refine forall₂_trans ?_ h.traces.flip h'.traces
    rintro x b y ⟨horigin, htraces⟩ ⟨horigin', htraces'⟩
    exact ⟨horigin.symm.trans horigin', htraces.symm.trans htraces'⟩
  · intro hlike
    refine ⟨h.returns_last, h.encloses, forall₂_trans ?_ h.traces hlike⟩
    rintro b x y ⟨horigin, htraces⟩ ⟨hmodule, hruns⟩
    exact ⟨horigin.trans hmodule, htraces.trans hruns⟩

end Sequential

/-! ## The traces of a composition

A path through the whole routine is cut where one block ends and the next begins. Blocks are left
at their ends only, so the part in front of the cut is a path through the block, and what follows
begins at the next one. -/

theorem Arrives.append_walk {is : List Instruction} {goal p r : Nat} {tr tr' : List Instruction}
    (h : Arrives is goal p tr) (hw : Walk is goal tr' r) : Walk is p (tr ++ tr') r := by
  induction h with
  | here => exact hw
  | step _ hi hq _ ih =>
    rw [List.append_assoc]
    exact .step hi hq ih

/-- A path from a block to somewhere behind it goes through the end of the block. -/
theorem Walk.exists_arrives {is : List Instruction} {first last p r : Nat} {tr : List Instruction}
    (hin : Encloses is first last) (hw : Walk is p tr r) (hfirst : first ≤ p)
    (hlast : p ≤ last) (hr : last ≤ r) :
    ∃ front back, Arrives is last p front ∧ Walk is last back r ∧ tr = front ++ back := by
  induction hw with
  | done p =>
    obtain rfl : p = last := by omega
    exact ⟨[], [], .here, .done p, rfl⟩
  | @step p q r i tr hi hq rest ih =>
    by_cases hend : p = last
    · subst hend
      exact ⟨[], _, .here, .step hi hq rest, rfl⟩
    · obtain ⟨hfirst', hlast'⟩ := hin p i q hfirst (by omega) hi hq
      obtain ⟨front, back, harrives, hback, rfl⟩ := ih hfirst' hlast' hr
      exact ⟨i.visible ++ front, back, .step hend hi hq harrives, hback,
        (List.append_assoc _ _ _).symm⟩

theorem le_of_hasReturned {front : List Instruction} (hfront : ∀ i ∈ front, i.opcode ≠ .ret)
    {p : Nat} (h : HasReturned (front ++ [.ret]) p) : front.length ≤ p := by
  rcases h with rfl | ⟨i, hi, hret⟩
  · simp
  · by_contra hlt
    rw [List.getElem?_append_left (by omega)] at hi
    exact hfront i (List.mem_of_getElem? hi) hret

/-- From where a block begins, what follows returns by a trace of that block and of each one behind
it. -/
theorem exists_walk_iff_of_tiles {front : List Instruction} (hfront : ∀ i ∈ front, i.opcode ≠ .ret)
    {blocks : List Block} {first : Nat} (htiles : Tiles first blocks front.length)
    (hin : ∀ b ∈ blocks, Encloses (front ++ [.ret]) b.first b.last) (tr : List Instruction) :
    (∃ r, Walk (front ++ [.ret]) first tr r ∧ HasReturned (front ++ [.ret]) r)
      ↔ ∃ trs, List.Forall₂ (fun b t ↦ Arrives (front ++ [.ret]) b.last b.first t) blocks trs
        ∧ tr = trs.flatten := by
  induction blocks generalizing first tr with
  | nil =>
    -- only the return is left
    obtain rfl : first = front.length := htiles
    have hget : (front ++ [.ret])[front.length]? = some Instruction.ret := by simp
    constructor
    · rintro ⟨r, hw, -⟩
      cases hw with
      | done => exact ⟨[], .nil, rfl⟩
      | step hi hq _ =>
        rw [hget] at hi
        cases hi
        cases hq
    · rintro ⟨trs, htrs, rfl⟩
      cases htrs
      exact ⟨front.length, .done _, .inr ⟨.ret, hget, rfl⟩⟩
  | cons b bs ih =>
    obtain ⟨rfl, hle, hrest⟩ := htiles
    have ih' := ih hrest fun c hc ↦ hin c (List.mem_cons_of_mem b hc)
    constructor
    · rintro ⟨r, hw, hr⟩
      have hend := Nat.le_trans hrest.le (le_of_hasReturned hfront hr)
      obtain ⟨t, back, harrives, hback, rfl⟩ :=
        hw.exists_arrives (hin b (List.mem_cons_self ..)) (Nat.le_refl _) hle hend
      obtain ⟨trs, htrs, rfl⟩ := (ih' back).mp ⟨r, hback, hr⟩
      exact ⟨t :: trs, .cons harrives htrs, rfl⟩
    · rintro ⟨trs, htrs, rfl⟩
      cases htrs with
      | cons harrives hrest' =>
        obtain ⟨r, hw, hr⟩ := (ih' _).mpr ⟨_, hrest', rfl⟩
        exact ⟨r, harrives.append_walk hw, hr⟩

/-- A composition returns by a trace of each of the bodies, one after another. -/
theorem Sequential.returnTraces_eq {map : SymbolMap} {is : List Instruction} {blocks : List Block}
    {sources : List (ModuleId × Body)} (h : Sequential map is blocks sources) :
    returnTraces some is = { t | ∃ ts, List.Forall₂ (fun x t ↦
      t ∈ returnTraces (map.remapOperand? x.1) x.2.instructions) sources ts ∧ t = ts.flatten } := by
  obtain ⟨front, rfl, hfront, htiles⟩ := h.returns_last
  have hsome : Instruction.mapOperand? some = some := rfl
  have hiff := exists_walk_iff_of_tiles hfront htiles h.encloses
  ext t
  constructor
  · rintro ⟨tr, hreturns, rfl⟩
    obtain ⟨trs, htrs, rfl⟩ := (hiff tr).mp hreturns
    refine ⟨trs.map (List.map some), ?_, ?_⟩
    · rw [List.forall₂_map_right_iff]
      refine forall₂_trans ?_ h.traces.flip htrs
      rintro x b tr ⟨-, htraces⟩ harrives
      rw [← htraces]
      exact ⟨tr, harrives, rfl⟩
    · rw [hsome, List.map_flatten]
  · rintro ⟨ts, hts, rfl⟩
    -- every trace of a body is the trace of a path through its block
    have hblocks : List.Forall₂ (fun b t ↦ t ∈ blockTraces (front ++ [.ret]) b.first b.last)
        blocks ts := by
      refine forall₂_trans ?_ h.traces hts
      rintro b x t ⟨-, htraces⟩ ht
      rw [htraces]
      exact ht
    obtain ⟨trs, htrs, rfl⟩ : ∃ trs, List.Forall₂ (fun b tr ↦
        Arrives (front ++ [.ret]) b.last b.first tr) blocks trs ∧ trs.map (List.map some) = ts := by
      clear * - hblocks
      induction hblocks with
      | nil => exact ⟨[], .nil, rfl⟩
      | cons ht _ ih =>
        obtain ⟨tr, harrives, rfl⟩ := ht
        obtain ⟨trs, htrs, rfl⟩ := ih
        exact ⟨tr :: trs, .cons harrives htrs, rfl⟩
    refine ⟨trs.flatten, (hiff _).mpr ⟨trs, htrs, rfl⟩, ?_⟩
    rw [hsome, List.map_flatten]

/-! ## What folding leaves

The secondaries' bodies are folded as they stand in their modules. The primary's is taken from the
output, where the import of types has left it, and by then another method of the primary may have
written it. So the primary's part is right exactly if the last method to write runs like the
initializer. -/

/-- The body of a method of the output is the composition of bodies of input modules. -/
def ImportState.RunsInOrder (s : ImportState) (id : MethodId) (sources : List (ModuleId × Body)) :
    Prop :=
  ∃ body, (Module.method s.target id).body = some body
    ∧ Sequential s.map body.instructions (s.map.blocksOf id) sources

theorem ImportState.Combined.runsInOrder {s : ImportState} {id : MethodId}
    {sources : List (ModuleId × Body)} (h : s.Combined id sources) : s.RunsInOrder id sources := by
  obtain ⟨front, locals, hbody, hcomposes⟩ := h
  have hmoved : List.Forall₂ (fun b x ↦ Encloses (front ++ [.ret]) b.first b.last ∧ b.origin = x.1
      ∧ blockTraces (front ++ [.ret]) b.first b.last
        = returnTraces (s.map.remapOperand? x.1) x.2.instructions) (s.map.blocksOf id) sources := by
    refine hcomposes.moved.imp fun b x ⟨horigin, hmoved⟩ ↦ ?_
    have hr := keepsTargets_remapOperand? s.map x.1
    have hwhole := hmoved.append [.ret]
    exact ⟨hwhole.encloses hr, horigin, hwhole.blockTraces_eq hr⟩
  rw [List.forall₂_and_left] at hmoved
  obtain ⟨hencloses, htraces⟩ := hmoved
  exact ⟨_, hbody, ⟨front, rfl, hcomposes.noReturn, hcomposes.tiles⟩, hencloses, htraces⟩

namespace Import

/-- The primary's initializer, if it has one. -/
def primaryInitializer? (ctx : Context) : Option (ModuleId × MethodId) :=
  ctx.registry.primary?.bind fun p ↦ (ctx.module p).initializer?.map fun id ↦ (p, id)

/-- The body of the primary's initializer, if it has one. -/
def primaryBody (ctx : Context) : List (ModuleId × Body) :=
  (primaryInitializer? ctx).toList.flatMap (bodyOf ctx)

/-- The bodies of the initializers of all modules, the primary's behind those of the secondaries. -/
def initializerBodies (ctx : Context) : List (ModuleId × Body) :=
  secondaryBodies ctx ++ primaryBody ctx

variable {ctx : Context} {s s' : ImportState}

/-- The primary's initializer is imported with its type, and so it writes its method of the output
if it has a body. -/
theorem exists_writes_of_primaryBody (hctx : ctx.registry.Accepted) (h : s.Imported ctx)
    {y : ModuleId × Body} (hy : y ∈ primaryBody ctx) : ∃ id x,
      importedInitializer? ctx s.map = some id ∧ x ∈ ctx.allMethods ∧ s.Writes ctx id x := by
  obtain ⟨⟨p, init⟩, hprimary, hbody⟩ := List.mem_flatMap.mp hy
  rw [Option.mem_toList, primaryInitializer?, Option.bind_eq_some_iff] at hprimary
  obtain ⟨p', hp, hprimary⟩ := hprimary
  obtain ⟨init', hinit, heq⟩ := Option.map_eq_some_iff.mp hprimary
  cases heq
  have hm := Registry.primary?_lt hp
  have hid := initializer?_lt hctx hinit
  obtain ⟨owner, howner, hlisted⟩ := Module.listed_of_initializer? hinit
  obtain ⟨t, hfilled⟩ := h.filled hm howner
  have hnow : isFoldedLater ctx p owner init = false := by
    simp [isFoldedLater, Registry.isPrimary, hp]
  obtain ⟨handle, hhandle⟩ := hfilled.methods init hlisted hnow
  obtain ⟨d, _, _, rfl, -⟩ := h.faithful.methods hhandle
  refine ⟨d, (p, init), importedInitializer?_eq_some.mpr ⟨p, init, hp, hinit, hhandle⟩,
    Context.mem_allMethods.mpr ⟨hm, hid⟩, hhandle, h.primary hp hhandle, ?_⟩
  rw [bodyOf, Option.mem_toList, Option.map_eq_some_iff] at hbody
  obtain ⟨body, hbody, -⟩ := hbody
  rw [hbody]
  rfl

/-- The methods of the primary that share a method of the output with its initializer end with one
that runs like it. -/
def LastRunsLikeFirst (ctx : Context) (s : ImportState) (map : SymbolMap) : Prop :=
  ∀ id x, importedInitializer? ctx s.map = some id → LastWith (s.Writes ctx id) ctx.allMethods x →
    List.Forall₂ (RunsLike map) (bodyOf ctx x) (primaryBody ctx)

/-- What the primary adds runs like its initializer exactly if the last of the methods that share
its place does. -/
theorem OwnSource.runsLike_iff (hctx : ctx.registry.Accepted) (h : s.Imported ctx)
    {own : List (ModuleId × Body)} (hown : OwnSource ctx s own) (map : SymbolMap) :
    List.Forall₂ (RunsLike map) own (primaryBody ctx) ↔ LastRunsLikeFirst ctx s map := by
  cases hown with
  | nothing hnone =>
    have hempty : primaryBody ctx = [] := by
      rw [List.eq_nil_iff_forall_not_mem]
      intro y hy
      obtain ⟨id, x, hid, hx, hwrites⟩ := exists_writes_of_primaryBody hctx h hy
      exact hnone id hid x hx hwrites
    rw [hempty, List.forall₂_nil_left_iff, eq_self, true_iff]
    intro id x hid hlast
    exact absurd hlast.holds (hnone id hid x hlast.mem)
  | @last id x source hid hlast hsource =>
    have hbody : bodyOf ctx x = [(x.1, source)] := by
      rw [bodyOf, hsource]
      rfl
    rw [← hbody]
    constructor
    · intro hlike id' x' hid' hlast'
      rw [hid] at hid'
      cases hid'
      rwa [hlast'.unique hlast]
    · exact fun hlike ↦ hlike id x hid hlast

end Import

/-- Folding leaves the composition of the secondaries' bodies and of the body that the primary's
initializer has come to have. -/
theorem runsInOrder_of_combine {inputs : List Input} {ctx : Context} {s s' : ImportState}
    (hinputs : Registry.ofInputs inputs = .ok ctx.registry)
    (hrun : Import.run ctx ctx.startImport = .ok () s)
    (hcombine : Import.combineInitializers ctx s = .ok () s')
    (hsecondary : Import.secondaryInitializers ctx ≠ []) : ∃ own, Import.OwnSource ctx s own
      ∧ s'.RunsInOrder (Import.combinedInitializer ctx s) (Import.secondaryBodies ctx ++ own) := by
  obtain ⟨hctx, -, -⟩ := Registry.accepted_of_ofInputs hinputs
  have h := Import.imported_of_run hctx hrun
  have hblocks := Import.blocks_of_run hctx hrun
  obtain ⟨-, heffect⟩ := (Import.reaches_combineInitializers hctx h hblocks).of_ok hcombine
  cases heffect with
  | nothing hempty _ _ => exact absurd hempty hsecondary
  | @combined own _ hown hin => exact ⟨own, hown, hin.combined.runsInOrder⟩

theorem ImportState.RunsInOrder.iff_runsLike {s : ImportState} {id : MethodId}
    {sources sources' : List (ModuleId × Body)} (h : s.RunsInOrder id sources) :
    s.RunsInOrder id sources' ↔ List.Forall₂ (RunsLike s.map) sources sources' := by
  obtain ⟨body, hbody, hseq⟩ := h
  rw [← hseq.iff_runsLike]
  constructor
  · rintro ⟨body', hbody', hseq'⟩
    rw [hbody] at hbody'
    cases hbody'
    exact hseq'
  · exact fun hseq' ↦ ⟨body, hbody, hseq'⟩

theorem forall₂_runsLike_append_left (map : SymbolMap) (front : List (ModuleId × Body))
    {xs ys : List (ModuleId × Body)} :
    List.Forall₂ (RunsLike map) (front ++ xs) (front ++ ys)
      ↔ List.Forall₂ (RunsLike map) xs ys := by
  induction front with
  | nil => rfl
  | cons x front ih =>
    rw [List.cons_append, List.cons_append, List.forall₂_cons, ih]
    exact and_iff_right (.refl map x)

/-- The combined routine is the composition of the initializers, in input order and with the
primary's at the end, exactly if no method of the primary that comes after its initializer has taken
the place of it with a body that runs otherwise. -/
theorem runsInOrder_iff_of_combine {inputs : List Input} {ctx : Context} {s s' : ImportState}
    (hinputs : Registry.ofInputs inputs = .ok ctx.registry)
    (hrun : Import.run ctx ctx.startImport = .ok () s)
    (hcombine : Import.combineInitializers ctx s = .ok () s')
    (hsecondary : Import.secondaryInitializers ctx ≠ []) :
    s'.RunsInOrder (Import.combinedInitializer ctx s) (Import.initializerBodies ctx)
      ↔ Import.LastRunsLikeFirst ctx s s'.map := by
  obtain ⟨own, hown, hruns⟩ := runsInOrder_of_combine hinputs hrun hcombine hsecondary
  obtain ⟨hctx, -, -⟩ := Registry.accepted_of_ofInputs hinputs
  have h := Import.imported_of_run hctx hrun
  rw [hruns.iff_runsLike, Import.initializerBodies, forall₂_runsLike_append_left]
  exact hown.runsLike_iff hctx h s'.map

/-! ## Two programs -/

/-- A module with nothing but constructors of its module-level type. -/
def constructors (name : String) (bodies : List (List Instruction)) : Module where
  name
  types := [{ name := "<Module>", methods := (List.range bodies.length).map MethodId.mk }]
  methods := bodies.map fun instructions ↦
    { name := ".cctor", access := .private, isStatic := true, body := some { instructions }
      declaring := ⟨0⟩ }

/-- A program with constructors, and a library with one that throws a value away. -/
def startup (bodies : List (List Instruction)) : List Input :=
  [⟨constructors "App" bodies, true⟩,
    ⟨constructors "Lib" [[.loadInt 7, ⟨.pop, .none⟩, .ret]], false⟩]

def startupLink (bodies : List (List Instruction)) : Context where
  registry := ⟨startup bodies⟩
  policy := ⟨false, [], [], [], false⟩
  targetName := "App"

/-- What importing and what folding leaves. -/
def startupImport (bodies : List (List Instruction)) : ImportState :=
  Import.finalState (Import.run (startupLink bodies)) (startupLink bodies).startImport

def startupFold (bodies : List (List Instruction)) : ImportState :=
  Import.finalState (Import.combineInitializers (startupLink bodies)) (startupImport bodies)

/-- A constructor that returns early unless a value is null. -/
def early : List Instruction :=
  [⟨.ldnull, .none⟩, .branch .brfalse 3, .ret, .loadInt 1, ⟨.pop, .none⟩, .ret]

theorem runsInOrder_early :
    Registry.ofInputs (startup [early]) = .ok (startupLink [early]).registry
      ∧ Import.run (startupLink [early]) (startupLink [early]).startImport
        = .ok () (startupImport [early])
      ∧ Import.combineInitializers (startupLink [early]) (startupImport [early])
        = .ok () (startupFold [early])
      ∧ Import.secondaryInitializers (startupLink [early]) ≠ []
      ∧ (startupFold [early]).RunsInOrder ⟨0⟩ (Import.initializerBodies (startupLink [early])) := by
  have hinputs : Registry.ofInputs (startup [early]) = .ok (startupLink [early]).registry := rfl
  have hrun : Import.run (startupLink [early]) (startupLink [early]).startImport
      = .ok () (startupImport [early]) := Import.eq_ok_of_succeeds (by decide +kernel)
  have hcombine : Import.combineInitializers (startupLink [early]) (startupImport [early])
      = .ok () (startupFold [early]) := Import.eq_ok_of_succeeds (by decide +kernel)
  have hsecondary : Import.secondaryInitializers (startupLink [early]) ≠ [] := by decide +kernel
  refine ⟨hinputs, hrun, hcombine, hsecondary, ?_⟩
  have hid : Import.combinedInitializer (startupLink [early]) (startupImport [early]) = ⟨0⟩ := by
    decide +kernel
  rw [← hid]
  refine (runsInOrder_iff_of_combine hinputs hrun hcombine hsecondary).mpr fun id x _ hlast ↦ ?_
  -- nothing but the initializer has its place
  have honly : ∀ x ∈ (startupLink [early]).allMethods,
      (startupImport [early]).map.methodOf? x.1 x.2 ≠ none → x = (⟨0⟩, ⟨0⟩) := by
    decide +kernel
  have hx : x = (⟨0⟩, ⟨0⟩) := by
    refine honly x hlast.mem ?_
    rw [hlast.holds.1]
    exact Option.some_ne_none _
  have hown : Import.primaryBody (startupLink [early]) = [(⟨0⟩, { instructions := early })] := by
    decide +kernel
  rw [hx, hown]
  exact .cons (.refl _ _) .nil

/-- Two constructors of a program that do different things. -/
def rivals : List (List Instruction) :=
  [[.loadInt 1, ⟨.pop, .none⟩, .ret], [.loadInt 2, ⟨.pop, .none⟩, .ret]]

/-- The initializer is the first of the rivals, and what is folded is the second. -/
theorem not_runsInOrder_rivals :
    Registry.ofInputs (startup rivals) = .ok (startupLink rivals).registry
      ∧ Import.run (startupLink rivals) (startupLink rivals).startImport
        = .ok () (startupImport rivals)
      ∧ Import.combineInitializers (startupLink rivals) (startupImport rivals)
        = .ok () (startupFold rivals)
      ∧ Import.secondaryInitializers (startupLink rivals) ≠ []
      ∧ ¬(startupFold rivals).RunsInOrder
        (Import.combinedInitializer (startupLink rivals) (startupImport rivals))
        (Import.initializerBodies (startupLink rivals)) := by
  refine ⟨rfl, Import.eq_ok_of_succeeds (by decide +kernel),
    Import.eq_ok_of_succeeds (by decide +kernel), by decide +kernel, ?_⟩
  have hid : Import.combinedInitializer (startupLink rivals) (startupImport rivals) = ⟨0⟩ := by
    decide +kernel
  have hbody : (Module.method (startupFold rivals).target ⟨0⟩).body = some { instructions :=
      [.loadInt 7, ⟨.pop, .none⟩, .loadInt 2, ⟨.pop, .none⟩, .ret] } := by
    decide +kernel
  have hblocks : (startupFold rivals).map.blocksOf ⟨0⟩ = [⟨0, 2, ⟨1⟩⟩, ⟨2, 4, ⟨0⟩⟩] := by
    decide +kernel
  have hsources : Import.initializerBodies (startupLink rivals)
      = [(⟨1⟩, { instructions := [.loadInt 7, ⟨.pop, .none⟩, .ret] }),
        (⟨0⟩, { instructions := [.loadInt 1, ⟨.pop, .none⟩, .ret] })] := by
    decide +kernel
  rw [hid, hsources]
  rintro ⟨body, hbody', hseq⟩
  rw [hbody] at hbody'
  cases hbody'
  have htraces := hseq.traces
  rw [hblocks] at htraces
  cases htraces with
  | cons _ hrest =>
    cases hrest with
    | cons hlast _ =>
      obtain ⟨-, heq⟩ := hlast
      -- the first of the rivals returns after it has loaded 1
      have hpop : Walk [.loadInt 1, ⟨.pop, .none⟩, .ret] 1 [⟨.pop, .none⟩] 2 :=
        .step (i := ⟨.pop, .none⟩) rfl (by decide) (.done 2)
      have hload : Walk [.loadInt 1, ⟨.pop, .none⟩, .ret] 0 [.loadInt 1, ⟨.pop, .none⟩] 2 :=
        .step (i := .loadInt 1) rfl (by decide) hpop
      have hreturns : Returns [.loadInt 1, ⟨.pop, .none⟩, .ret] [.loadInt 1, ⟨.pop, .none⟩] :=
        ⟨2, hload, .inr ⟨.ret, rfl, rfl⟩⟩
      have hmem := (Set.ext_iff.mp heq [some (.loadInt 1), some ⟨.pop, .none⟩]).mpr
        ⟨_, hreturns, rfl⟩
      obtain ⟨tr, harrives, htr⟩ := hmem
      cases harrives with
      | step _ hi _ _ =>
        cases hi
        cases htr

end ModuleLinker

import ModuleLinker.Proofs.Import.Firsts

/-!
# Who gives a method its body

A method of the output was made for the first of the methods that are mapped onto it. It has the
access and the static flag of that one, and it should have its body too. But a body is copied from
every method of the same module that is mapped onto it, one after the other, and only methods of
other modules are passed over. So what it ends with is the body of the last such method that has
one, and the first keeps its body exactly when the two agree: that is, when the map makes the same
of them.
-/

namespace ModuleLinker

namespace ImportState

/-- What the map makes of the body of a method of an input, if it has one. -/
def carriedBody (s : ImportState) (ctx : Context) (x : ModuleId × MethodId) :
    Option (Option Body) :=
  ((ctx.module x.1).method x.2).body.map (s.map.remapBody? x.1)

/-- A method of the output has the body of a method of an input, carried over, or none if that has
none. -/
def TakesBody (s : ImportState) (ctx : Context) (d : MethodId) (x : ModuleId × MethodId) : Prop :=
  s.carriedBody ctx x = (Module.method s.target d).body.map some

/-- Methods of the output are what the first methods mapped onto them are, also in their bodies. -/
def FirstBodiesWin (s : ImportState) (ctx : Context) : Prop :=
  ∀ d ∈ Module.methodIds s.target, ∃ x, s.MadeFor ctx x d ∧ s.TakesBody ctx d x

/-- The last method that writes a method of the output has the body of the first one mapped onto
it. -/
def LastAgrees (s : ImportState) (ctx : Context) (d : MethodId) (x : ModuleId × MethodId) : Prop :=
  ∀ y, LastWith (s.Writes ctx d) ctx.allMethods y → s.carriedBody ctx y = s.carriedBody ctx x

/-- Who gives the methods of the output their outsides and their bodies. -/
structure BodiesByLast (s : ImportState) (ctx : Context) : Prop where
  /-- Every method of the output was made for the first method mapped onto it. -/
  firsts : ∀ d ∈ Module.methodIds s.target, ∃ x, s.MadeFor ctx x d
  /-- What writes it is mapped onto it and has a body, and comes from the module of the first. -/
  writers : ∀ {x d}, s.MadeFor ctx x d → ∀ y, s.Writes ctx d y
    ↔ y ∈ s.map.methodsOnto d ∧ ((ctx.module y.1).method y.2).body.isSome ∧ y.1 = x.1
  /-- Its body is that of the last of these, and it has none when there are none. -/
  bodies : ∀ d, s.Copied ctx ctx.allMethods d
  /-- The body of the first is kept exactly where the last one agrees. -/
  kept : ∀ {x d}, s.MadeFor ctx x d → (s.TakesBody ctx d x ↔ s.LastAgrees ctx d x)
  /-- So the first bodies win exactly when this is so for all methods. -/
  wins : s.FirstBodiesWin ctx
    ↔ ∀ d ∈ Module.methodIds s.target, ∃ x, s.MadeFor ctx x d ∧ s.LastAgrees ctx d x

variable {s : ImportState} {ctx : Context} {d : MethodId} {x y : ModuleId × MethodId}

theorem takesBody_of_carries (h : s.Carries ctx d y) : s.TakesBody ctx d y := by
  obtain ⟨source, body, hsource, hremap, hbody⟩ := h
  rw [TakesBody, carriedBody, hsource, hbody]
  exact congrArg some hremap

/-- A body that is taken is what the map makes of it, and nothing else takes it. -/
theorem TakesBody.iff_of_takes (hy : s.TakesBody ctx d y) :
    s.TakesBody ctx d x ↔ s.carriedBody ctx y = s.carriedBody ctx x := by
  unfold TakesBody at hy ⊢
  rw [hy]
  exact eq_comm

theorem writes_iff_of_madeFor (hdistinct : s.map.entries.keys.Nodup) (h : s.MadeFor ctx x d) :
    s.Writes ctx d y
      ↔ y ∈ s.map.methodsOnto d ∧ ((ctx.module y.1).method y.2).body.isSome ∧ y.1 = x.1 := by
  rw [SymbolMap.mem_methodsOnto hdistinct, Writes, h.origin, Option.some.injEq]
  tauto

/-- The first method mapped onto a method of the output writes it, if it has a body. -/
theorem MadeFor.writes (h : s.MadeFor ctx x d)
    (hbody : ((ctx.module x.1).method x.2).body.isSome) : s.Writes ctx d x :=
  ⟨h.maker.entry, h.origin, hbody⟩

/-- When everything has been copied, the body of the first is kept exactly where the last one that
writes agrees with it. -/
theorem takesBody_iff_lastAgrees (hcopied : s.Copied ctx ctx.allMethods d)
    (hx : s.MadeFor ctx x d) (hmem : x ∈ ctx.allMethods) :
    s.TakesBody ctx d x ↔ s.LastAgrees ctx d x := by
  rcases hcopied with ⟨hnone, hbody⟩ | ⟨y, hlast, hcarries⟩
  · -- nobody writes, not even the first, so it has no body
    have hno : ((ctx.module x.1).method x.2).body = none := by
      by_contra hsome
      exact hnone x hmem (hx.writes (Option.isSome_iff_ne_none.mpr hsome))
    have htakes : s.TakesBody ctx d x := by
      rw [TakesBody, carriedBody, hno, hbody]
      rfl
    refine iff_of_true htakes fun y hy ↦ absurd hy.holds (hnone y hy.mem)
  · rw [(takesBody_of_carries hcarries).iff_of_takes]
    constructor
    · intro hsame z hz
      rw [hz.unique hlast, hsame]
    · intro hagrees
      exact hagrees y hlast

end ImportState

/-- In every import of types the methods have their outsides from the first methods mapped onto them
and their bodies from the last that write, and the first bodies win exactly when the last agree. -/
theorem bodiesByLast_of_run {inputs : List Input} {ctx : Context} {s : ImportState}
    (hinputs : Registry.ofInputs inputs = .ok ctx.registry)
    (hrun : Import.run ctx ctx.startImport = .ok () s) : s.BodiesByLast ctx := by
  have hctx := (Registry.accepted_of_ofInputs hinputs).1
  have himported := Import.imported_of_run hctx hrun
  have hmade := Import.madeForFirsts_of_run hctx hrun
  have hkept : ∀ {x d}, s.MadeFor ctx x d → (s.TakesBody ctx d x ↔ s.LastAgrees ctx d x) := by
    intro x d hx
    obtain ⟨_, owner, _, _, himage⟩ := himported.faithful.methods hx.maker.entry
    have hmodule := Registry.lt_of_type (himported.sound.inputs himage.listed.place)
    have hmethod := Import.method_lt hctx himage.listed.listed
    exact ImportState.takesBody_iff_lastAgrees (himported.copied d) hx
      (Context.mem_allMethods.mpr ⟨hmodule, hmethod⟩)
  refine ⟨fun d hd ↦ hmade.made d (Module.mem_methodIds.mp hd), fun hx y ↦
    ImportState.writes_iff_of_madeFor hmade.distinct hx, himported.copied, hkept, ?_⟩
  exact forall₂_congr fun d _ ↦ exists_congr fun x ↦ and_congr_right fun hx ↦ hkept hx

/-! ## Gauges that can be read -/

/-- A method that reads a number. -/
def reading (access : Access) (isStatic : Bool) (number : Int32) : MethodDef where
  name := "Read"
  access := access
  isStatic := isStatic
  body := some { instructions := [.loadInt number, ⟨.pop, .none⟩, .ret], locals := [] }
  declaring := ⟨0⟩

/-- A module with a gauge and its methods. -/
def gauge (isPrimary : Bool) (name : String) (methods : List MethodDef) : Input where
  isPrimary := isPrimary
  module :=
    { name, methods
      types := [
        { name := "Gauge", visibility := .public
          methods := (List.range methods.length).map MethodId.mk }] }

/-- The link of some modules, with nothing hidden. -/
def gaugesLink (inputs : List Input) : Context where
  registry := ⟨inputs⟩
  policy := ⟨false, [], [], [], false⟩
  targetName := "App"

/-- What importing them leaves. -/
def gaugesImported (inputs : List Input) : ImportState :=
  Import.finalState (Import.run (gaugesLink inputs)) (gaugesLink inputs).startImport

/-- A program and a library that read their gauges each in its own way. -/
def rivalGauges : List Input :=
  [gauge true "App" [reading .public true 1], gauge false "Lib" [reading .private false 2]]

/-- A program that reads its gauge in two ways. -/
def doubleGauge : List Input :=
  [gauge true "App" [reading .public true 1, reading .private false 2]]

/-- The program's way of reading wins over the library's, with its body. -/
theorem bodiesByLast_rivalGauges :
    Registry.ofInputs rivalGauges = .ok (gaugesLink rivalGauges).registry
    ∧ Import.run (gaugesLink rivalGauges) (gaugesLink rivalGauges).startImport
      = .ok () (gaugesImported rivalGauges)
    ∧ (gaugesImported rivalGauges).BodiesByLast (gaugesLink rivalGauges)
    ∧ (gaugesImported rivalGauges).map.methodsOnto ⟨0⟩ = [(⟨0⟩, ⟨0⟩), (⟨1⟩, ⟨0⟩)]
    ∧ (gaugesImported rivalGauges).TakesBody (gaugesLink rivalGauges) ⟨0⟩ (⟨0⟩, ⟨0⟩) := by
  have hinputs : Registry.ofInputs rivalGauges = .ok (gaugesLink rivalGauges).registry := rfl
  have hrun := Import.eq_ok_of_succeeds (x := Import.run (gaugesLink rivalGauges))
    (s := (gaugesLink rivalGauges).startImport) (by decide +kernel)
  refine ⟨hinputs, hrun, bodiesByLast_of_run hinputs hrun, ?_, ?_⟩
  · decide +kernel
  · unfold ImportState.TakesBody
    decide +kernel

/-- Of the two ways of reading in one module the first gives its access and the second its body. -/
theorem not_firstBodiesWin_doubleGauge :
    Registry.ofInputs doubleGauge = .ok (gaugesLink doubleGauge).registry
    ∧ Import.run (gaugesLink doubleGauge) (gaugesLink doubleGauge).startImport
      = .ok () (gaugesImported doubleGauge)
    ∧ ¬(gaugesImported doubleGauge).FirstBodiesWin (gaugesLink doubleGauge) := by
  have hrun := Import.eq_ok_of_succeeds (x := Import.run (gaugesLink doubleGauge))
    (s := (gaugesLink doubleGauge).startImport) (by decide +kernel)
  refine ⟨rfl, hrun, fun h ↦ ?_⟩
  have hmade : (⟨0⟩ : MethodId) ∈ Module.methodIds (gaugesImported doubleGauge).target := by
    decide +kernel
  obtain ⟨x, hx, hbody⟩ := h ⟨0⟩ hmade
  have hfirst : ((gaugesImported doubleGauge).map.methodsOnto ⟨0⟩).head? = some (⟨0⟩, ⟨0⟩) := by
    decide +kernel
  obtain rfl : x = (⟨0⟩, ⟨0⟩) := Option.some.inj (hx.first.symm.trans hfirst)
  have hother : (gaugesImported doubleGauge).carriedBody (gaugesLink doubleGauge) (⟨0⟩, ⟨0⟩)
      ≠ (Module.method (gaugesImported doubleGauge).target ⟨0⟩).body.map some := by
    decide +kernel
  exact hother hbody

end ModuleLinker

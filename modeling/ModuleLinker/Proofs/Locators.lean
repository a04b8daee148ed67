import ModuleLinker.Proofs.BlobOffset
import ModuleLinker.Proofs.Finished

/-!
# Whose locators are patched

A literal with a locator is to be patched for the module that it was written in. The pass over the
locators takes code in a block to be of the module of the block, and other code to be of the module
whose declaration made the type around it. The blocks tell the truth, and so does what the pass over
the offsets goes by, which module made a method. But a type that several modules declare is made by
one of them and holds methods of all, and in the methods of the others literals are patched as if
they were of the first.
-/

namespace ModuleLinker

/-! ## Instructions of a module -/

/-- The instruction at a position of the body of a method. -/
def Module.instruction? (m : Module) (id : MethodId) (p : Nat) : Option Instruction :=
  (m.method id).body.bind fun b ↦ b.instructions[p]?

theorem Module.instruction?_eq_some {m : Module} {id : MethodId} {p : Nat} {i : Instruction} :
    m.instruction? id p = some i
      ↔ ∃ body, (m.method id).body = some body ∧ body.instructions[p]? = some i :=
  Option.bind_eq_some_iff

theorem Module.SameButOffsets.string_iff {m m' : Module} (h : m.SameButOffsets m') {id : MethodId}
    {p : Nat} {opcode : OpCode} {text : String} :
    m'.instruction? id p = some ⟨opcode, .string text⟩
      ↔ m.instruction? id p = some ⟨opcode, .string text⟩ := by
  unfold instruction?
  have hbody := h.body id
  generalize (m.method id).body = b at hbody ⊢
  generalize (m'.method id).body = b' at hbody ⊢
  cases hbody with
  | none => exact .rfl
  | some hsame =>
    obtain ⟨-, hpushed⟩ := hsame
    rw [Option.bind_some, Option.bind_some]
    rcases hpushed.each p with heq | ⟨value, value', ⟨hi, -⟩, hj⟩
    · rw [heq]
    · simp [hi, hj, Instruction.loadInt]

/-! ## What becomes of a literal

The pass asks where a position is from and gets one of two answers: the module of the block that
the position lies in, or the module that made the type around the method. What is then done to the
literal depends on nothing else. -/

/-- What becomes of a literal that was written in a module. -/
def Context.relocated (ctx : Context) (m : ModuleId) (literal : String) : String :=
  if ctx.usesLocators m then
    (ctx.locatorNames.patchLiteral? literal (ctx.secondaryName? m)).getD literal
  else literal

/-- The module that the pass over the locators takes a position of a method to be of: that of the
block, and outside of blocks that whose declaration made the type around the method. -/
def SymbolMap.literalOrigin? (map : SymbolMap) (t : Module) (id : MethodId) (p : Nat) :
    Option ModuleId :=
  map.blockOrigin? id p <|> map.typeOrigin? (t.method id).declaring

section Patch

variable {ctx : Context} {map : SymbolMap} {t : Module} {id : MethodId} {p : Nat} {opcode : OpCode}

/-- A literal is patched for the module that its position is taken to be of. -/
theorem instruction?_patchLocators {o : ModuleId} {literal : String}
    (hi : t.instruction? id p = some ⟨opcode, .string literal⟩)
    (horigin : map.literalOrigin? t id p = some o) :
    (patchLocators ctx map t).2.instruction? id p
      = some ⟨opcode, .string (ctx.relocated o literal)⟩ := by
  obtain ⟨body, hbody, hi⟩ := Module.instruction?_eq_some.mp hi
  obtain ⟨body', hbody', hi'⟩ := Module.exists_body_revise hbody hi (patchLocator ctx map t)
  refine Module.instruction?_eq_some.mpr ⟨body', hbody', hi'.trans (congrArg some ?_)⟩
  rw [SymbolMap.literalOrigin?] at horigin
  simp only [patchLocator, hi, horigin, Option.bind_eq_bind, Option.bind_some, Context.relocated]
  by_cases huses : ctx.usesLocators o = true
  · rw [if_pos huses, if_pos huses]
    cases ctx.locatorNames.patchLiteral? literal (ctx.secondaryName? o) <;> rfl
  · rw [if_neg huses, if_neg huses]
    rfl

theorem exists_string_of_patchLocators {text : String}
    (hj : (patchLocators ctx map t).2.instruction? id p = some ⟨opcode, .string text⟩) :
    ∃ literal, t.instruction? id p = some ⟨opcode, .string literal⟩ := by
  obtain ⟨body', hbody', hj⟩ := Module.instruction?_eq_some.mp hj
  have hmethod : (patchLocators ctx map t).2.method id
      = { t.method id with
          body := (t.method id).body.map fun b ↦ b.revise (patchLocator ctx map t id) } :=
    Module.method_revise t (patchLocator ctx map t) id
  rw [hmethod] at hbody'
  obtain ⟨body, hbody, rfl⟩ := Option.map_eq_some_iff.mp hbody'
  rw [Body.getElem?_revise] at hj
  obtain ⟨i, hi, hj⟩ := Option.map_eq_some_iff.mp hj
  cases hpatch : patchLocator ctx map t id body.instructions p with
  | none =>
    rw [hpatch, Option.getD_none] at hj
    subst hj
    exact ⟨text, Module.instruction?_eq_some.mpr ⟨body, hbody, hi⟩⟩
  | some j =>
    obtain ⟨opcode', literal, patched, hstring, rfl⟩ := exists_string_of_patchLocator hpatch
    rw [hpatch, Option.getD_some] at hj
    cases hj
    exact ⟨literal, Module.instruction?_eq_some.mpr ⟨body, hbody, hstring⟩⟩

end Patch

/-! ## Literals are copied

Copying does not change a literal, and the pass over the offsets does not either. So each literal
of the output is one of an input, and what is known of copies says where that one stood. -/

theorem Operand.retarget_eq_string {o : Operand} {f : Nat → Nat} {text : String} :
    o.retarget f = .string text ↔ o = .string text := by
  cases o <;> simp [retarget]

theorem SymbolMap.remapOperand?_eq_string {map : SymbolMap} {m : ModuleId} {o : Operand}
    {text : String} : map.remapOperand? m o = some (.string text) ↔ o = .string text := by
  cases o <;> simp [remapOperand?, Option.bind_eq_some_iff]

namespace Import

variable {ctx : Context} {s : ImportState} {d : MethodId} {q : Nat} {opcode : OpCode}

section All

variable (hctx : ctx.registry.Accepted) (h : Import.all ctx ctx.startImport = .ok () s)
include hctx h

/-- The literals that an import leaves are those of the code that was copied. -/
theorem instruction?_eq_string_iff {text : String} :
    Module.instruction? s.target d q = some ⟨opcode, .string text⟩
      ↔ ∃ m, s.Copies ctx m d q ⟨opcode, .string text⟩ := by
  constructor
  · intro hj
    obtain ⟨body, hbody, hj⟩ := Module.instruction?_eq_some.mp hj
    rcases exists_copied_of_all hctx h hbody hj with
      ⟨m, source, first, p, i, hcopied, hi, rfl, hretains | ⟨last, hjump⟩⟩ | ⟨-, hret⟩
    · have hcopies : s.Copies ctx m d (first + p) i := ⟨hcopied, hi, hretains⟩
      obtain ⟨body', o, f, hbody', ho, hj'⟩ := carried_of_copies hctx h hcopies
      cases hbody'.symm.trans hbody
      obtain ⟨hopcode, hoperand⟩ :=
        Instruction.mk.injEq .. ▸ Option.some.inj (hj'.symm.trans hj)
      rw [Operand.retarget_eq_string.mp hoperand] at ho
      obtain ⟨opcode', operand⟩ := i
      obtain rfl : opcode' = opcode := hopcode
      obtain rfl : operand = .string text := SymbolMap.remapOperand?_eq_string.mp ho
      exact ⟨m, hcopies⟩
    · cases hjump
    · cases hret
  · rintro ⟨m, hcopies⟩
    obtain ⟨body, o, f, hbody, ho, hj⟩ := carried_of_copies hctx h hcopies
    cases ho
    exact Module.instruction?_eq_some.mpr ⟨body, hbody, hj⟩

/-- A module that made a method has a part in the type around it, so that some module made it. -/
theorem exists_typeOrigin? {m : ModuleId} (horigin : s.map.methodOrigin? d = some m) :
    ∃ o, s.map.typeOrigin? (Module.method s.target d).declaring = some o := by
  obtain ⟨s₁, hrun, hlate, -⟩ := late_of_all hctx h
  have himported := imported_of_run hctx hrun
  have hgrows := LateStep.grows_steps hlate
  rw [(LateStep.sameWriters_steps hlate).origins] at horigin
  obtain ⟨id, hmaker⟩ := himported.faithful.makers horigin
  obtain ⟨place, owner, t, hplace, himage⟩ := himported.faithful.methods hmaker.entry
  cases hplace
  have himage := himage.mono hgrows
  rw [himage.declaring, SymbolMap.typeOrigin?]
  have hne := (sound_of_all hctx h).sourcesOf_ne_nil himage.listed.place
  obtain ⟨x, hx⟩ := Option.ne_none_iff_exists'.mp (mt List.head?_eq_none_iff.mp hne)
  exact ⟨x.1, by rw [hx]; rfl⟩

/-- Copied code in a block is taken to be of the module it is from, and other copied code to be of
the one that made the type around it. -/
theorem literalOrigin?_cases {m : ModuleId} {i : Instruction} (hcopies : s.Copies ctx m d q i) :
    s.map.literalOrigin? s.target d q = some m
      ∨ s.map.blocksOf d = [] ∧ ∃ o, s.map.literalOrigin? s.target d q = some o
          ∧ s.map.typeOrigin? (Module.method s.target d).declaring = some o := by
  rcases notes_of_copies hctx h hcopies with hblock | ⟨hblocks, hmethod⟩
  · exact .inl (by rw [SymbolMap.literalOrigin?, hblock]; rfl)
  · obtain ⟨o, ho⟩ := exists_typeOrigin? hctx h hmethod
    refine .inr ⟨hblocks, o, ?_, ho⟩
    rw [SymbolMap.literalOrigin?, SymbolMap.blockOrigin?, hblocks, ho]
    rfl

theorem exists_literalOrigin? {m : ModuleId} {i : Instruction} (hcopies : s.Copies ctx m d q i) :
    ∃ o, s.map.literalOrigin? s.target d q = some o := by
  rcases literalOrigin?_cases hctx h hcopies with horigin | ⟨-, o, ho, -⟩
  · exact ⟨m, horigin⟩
  · exact ⟨o, ho⟩

end All

end Import

/-! ## The literals of a link

Outside of blocks the answer about a position is that of the type, not that of the code. The two
come to the same when the code stands in a type of its own module, or when what is done to the
literal is the same for both. -/

namespace Linked

/-- The literals of a link are those of the code that was copied, each patched for the module that
its position is taken to be of. -/
def RelocatesByOrigin (r : Linked) (ctx : Context) (s : ImportState) : Prop :=
  ∀ d q opcode text, r.module.instruction? d q = some ⟨opcode, .string text⟩
    ↔ ∃ m literal o, s.Copies ctx m d q ⟨opcode, .string literal⟩
        ∧ s.map.literalOrigin? s.target d q = some o ∧ text = ctx.relocated o literal

/-- The literals of a link are patched for the modules that they were written in. -/
def RelocatesByModule (r : Linked) (ctx : Context) (s : ImportState) : Prop :=
  ∀ {m d q opcode literal}, s.Copies ctx m d q ⟨opcode, .string literal⟩ →
    r.module.instruction? d q = some ⟨opcode, .string (ctx.relocated m literal)⟩

end Linked

/-- Both passes take copied code to be of the module that it is from. -/
def ImportState.AttributesCode (s : ImportState) (ctx : Context) : Prop :=
  ∀ {m d q i}, s.Copies ctx m d q i →
    s.map.codeOrigin? d q = some m ∧ s.map.literalOrigin? s.target d q = some m

/-- Outside of blocks, code stands in types that were made by the module it is from. -/
def ImportState.KeepsCodeAtHome (s : ImportState) (ctx : Context) : Prop :=
  ∀ {m d q i}, s.Copies ctx m d q i → s.map.blocksOf d = [] →
    s.map.typeOrigin? (Module.method s.target d).declaring = some m

namespace LinkedThrough

variable {settings : Settings} {inputs : List Input} {ctx : Context} {s : ImportState} {r : Linked}

/-- The literals of a link are patched for what their positions are taken to be of. -/
theorem relocatesByOrigin (h : LinkedThrough settings inputs ctx s r) :
    r.RelocatesByOrigin ctx s := by
  have hctx := (Registry.accepted_of_ofInputs h.inputs).1
  intro d q opcode text
  have hfinish : r.module.instruction? d q = (s.finish ctx).instruction? d q := by
    rw [h.module]
    rfl
  rw [hfinish]
  -- neither the merged resources nor the offsets matter to a literal and the type around it
  let t : Module := { s.target with resources := (mergeResources ctx).1 }
  have hsame := sameButOffsets_applyOffsets t s.map (mergeResources ctx).2.offsets
  have hstring {literal : String} :
      (applyOffsets t s.map (mergeResources ctx).2.offsets).2.instruction? d q
        = some ⟨opcode, .string literal⟩ ↔ ∃ m, s.Copies ctx m d q ⟨opcode, .string literal⟩ :=
    hsame.string_iff.trans (Import.instruction?_eq_string_iff hctx h.imported)
  have horigin : s.map.literalOrigin? (applyOffsets t s.map (mergeResources ctx).2.offsets).2 d q
      = s.map.literalOrigin? s.target d q := by
    have hdeclaring := congrArg MethodDef.declaring (hsame.outside d)
    exact congrArg (fun type ↦ s.map.blockOrigin? d q <|> s.map.typeOrigin? type) hdeclaring
  constructor
  · intro hj
    obtain ⟨literal, hi⟩ := exists_string_of_patchLocators hj
    obtain ⟨m, hcopies⟩ := hstring.mp hi
    obtain ⟨o, ho⟩ := Import.exists_literalOrigin? hctx h.imported hcopies
    have hpatched := (instruction?_patchLocators hi (horigin.trans ho)).symm.trans hj
    cases hpatched
    exact ⟨m, literal, o, hcopies, ho, rfl⟩
  · rintro ⟨m, literal, o, hcopies, ho, rfl⟩
    exact instruction?_patchLocators (hstring.mpr ⟨m, hcopies⟩) (horigin.trans ho)

/-- The passes agree on copied code where it stands in types of the module it is from. -/
theorem attributesCode_iff (h : LinkedThrough settings inputs ctx s r) :
    s.AttributesCode ctx ↔ s.KeepsCodeAtHome ctx := by
  have hctx := (Registry.accepted_of_ofInputs h.inputs).1
  constructor
  · intro hagree m d q i hcopies hblocks
    have horigin := (hagree hcopies).2
    rwa [SymbolMap.literalOrigin?, SymbolMap.blockOrigin?, hblocks] at horigin
  · intro hhome m d q i hcopies
    refine ⟨(Import.notes_of_copies hctx h.imported hcopies).codeOrigin?, ?_⟩
    rcases Import.literalOrigin?_cases hctx h.imported hcopies with
      horigin | ⟨hblocks, o, ho, htype⟩
    · exact horigin
    · rw [ho, ← htype, hhome hcopies hblocks]

/-- A literal is patched for the module that it was written in where that comes to the same as what
is done. -/
theorem relocatesByModule_iff (h : LinkedThrough settings inputs ctx s r) :
    r.RelocatesByModule ctx s ↔ ∀ m d q opcode literal o,
      s.Copies ctx m d q ⟨opcode, .string literal⟩ → s.map.literalOrigin? s.target d q = some o →
        ctx.relocated o literal = ctx.relocated m literal := by
  have hctx := (Registry.accepted_of_ofInputs h.inputs).1
  constructor
  · intro hmodule m d q opcode literal o hcopies horigin
    have hdone := (h.relocatesByOrigin ..).mpr ⟨m, literal, o, hcopies, horigin, rfl⟩
    have heq := Option.some.inj (hdone.symm.trans (hmodule hcopies))
    exact Operand.string.inj (congrArg Instruction.operand heq)
  · intro halike m d q opcode literal hcopies
    obtain ⟨o, ho⟩ := Import.exists_literalOrigin? hctx h.imported hcopies
    rw [← halike m d q opcode literal o hcopies ho]
    exact (h.relocatesByOrigin ..).mpr ⟨m, literal, o, hcopies, ho, rfl⟩

end LinkedThrough

/-- The literals of every output are those of the code that was copied, each patched for the module
that the pass over the locators takes its position to be of. That is the module that it was written
in exactly when it lies in a block or in a type which that module has made; the pass over the
offsets is right about all copied code. -/
theorem relocates_of_link {settings : Settings} {inputs : List Input} {r : Linked}
    (h : link settings inputs = .ok r) :
    ∃ ctx s, LinkedThrough settings inputs ctx s r ∧ r.RelocatesByOrigin ctx s
      ∧ (∀ m d q i, s.Copies ctx m d q i → s.map.codeOrigin? d q = some m)
      ∧ (r.RelocatesByModule ctx s ∧ s.AttributesCode ctx ↔ s.KeepsCodeAtHome ctx)
      ∧ (r.RelocatesByModule ctx s ↔ ∀ m d q opcode literal o,
        s.Copies ctx m d q ⟨opcode, .string literal⟩ →
          s.map.literalOrigin? s.target d q = some o →
            ctx.relocated o literal = ctx.relocated m literal) := by
  obtain ⟨ctx, s, hthrough⟩ := link_eq_ok_iff.mp h
  have hctx := (Registry.accepted_of_ofInputs hthrough.inputs).1
  refine ⟨ctx, s, hthrough, hthrough.relocatesByOrigin, ?shifted, ?home,
    hthrough.relocatesByModule_iff⟩
  case shifted =>
    exact fun m d q i hcopies ↦ (Import.notes_of_copies hctx hthrough.imported hcopies).codeOrigin?
  case home =>
    rw [← hthrough.attributesCode_iff]
    refine ⟨And.right, fun hagree ↦ ⟨?_, hagree⟩⟩
    refine hthrough.relocatesByModule_iff.mpr fun m d q opcode literal o hcopies ho ↦ ?_
    rw [Option.some.inj (ho.symm.trans (hagree hcopies).2)]

/-! ## A program and its library -/

/-- A module with two views, one of which its initializer shows and one a routine. -/
def viewer (name nspace : String) : Module where
  name
  types := [
    { name := "<Module>", methods := [⟨0⟩] },
    { nspace, name := "Views", visibility := .public, methods := [⟨1⟩] }]
  methods := [
    { name := ".cctor", access := .private, isStatic := true, declaring := ⟨0⟩
      body := some { instructions := [.loadString "Light.xaml", .ret] } },
    { name := "Show" ++ name, access := .public, isStatic := true, declaring := ⟨1⟩
      body := some { instructions := [.loadString "Dark.xaml", .ret] } }]
  assemblyRefs := [⟨locatorFramework, {}⟩]

/-- A program and its library, which has a type of the program's name in the one case and one of its
own in another. -/
def views (nspace : String) : List Input :=
  [⟨viewer "App" "App", true⟩, ⟨viewer "Lib" nspace, false⟩]

/-- Where the library has a type of its own, both its views are found under its name. -/
theorem relocates_views : ∃ r, link {} (views "Lib") = .ok r
    ∧ r.code = [some [.loadString "Lib/Light.xaml", .loadString "Light.xaml", .ret],
      some [.loadString "Dark.xaml", .ret], some [.loadString "Lib/Dark.xaml", .ret]]
    ∧ ∃ ctx s, LinkedThrough {} (views "Lib") ctx s r ∧ r.RelocatesByOrigin ctx s
      ∧ (∀ m d q i, s.Copies ctx m d q i → s.map.codeOrigin? d q = some m)
      ∧ (r.RelocatesByModule ctx s ∧ s.AttributesCode ctx ↔ s.KeepsCodeAtHome ctx)
      ∧ (r.RelocatesByModule ctx s ↔ ∀ m d q opcode literal o,
        s.Copies ctx m d q ⟨opcode, .string literal⟩ →
          s.map.literalOrigin? s.target d q = some o →
            ctx.relocated o literal = ctx.relocated m literal) := by
  obtain ⟨r, h, hcode⟩ := exists_link_of_decide {} (views "Lib")
    (P := fun r ↦ r.code
      = [some [.loadString "Lib/Light.xaml", .loadString "Light.xaml", .ret],
        some [.loadString "Dark.xaml", .ret], some [.loadString "Lib/Dark.xaml", .ret]])
    (by decide +kernel)
  exact ⟨r, h, hcode, relocates_of_link h⟩

/-- The link of the program with the library that has a type of the program's name. -/
def viewsLink : Context where
  registry := ⟨views "App"⟩
  policy := ⟨false, [], [], [], false⟩
  targetName := "App"

/-- What all steps before the output is finished leave. -/
def viewsImported : ImportState :=
  Import.finalState (Import.all viewsLink) viewsLink.startImport

/-- A view of the library is looked for among those of the program when it is shown from a type that
both have. -/
theorem not_relocatesByModule_views :
    ¬∀ ctx s r, LinkedThrough {} (views "App") ctx s r →
      r.RelocatesByModule ctx s ∧ s.AttributesCode ctx := by
  intro h
  have hall : Import.all viewsLink viewsLink.startImport = .ok () viewsImported :=
    Import.eq_ok_of_succeeds (by decide +kernel)
  have hthrough : LinkedThrough {} (views "App") viewsLink viewsImported ⟨_, _⟩ :=
    ⟨rfl, rfl, rfl, hall, rfl, rfl⟩
  have hctx := (Registry.accepted_of_ofInputs hthrough.inputs).1
  have hliteral : Module.instruction? viewsImported.target ⟨2⟩ 0
      = some (.loadString "Dark.xaml") := by decide +kernel
  obtain ⟨m, hcopies⟩ := (Import.instruction?_eq_string_iff hctx hall).mp hliteral
  -- the literal was written in the library
  have hnoted : viewsImported.map.codeOrigin? ⟨2⟩ 0 = some ⟨1⟩ := by decide +kernel
  obtain rfl := Option.some.inj
    ((Import.notes_of_copies hctx hall hcopies).codeOrigin?.symm.trans hnoted)
  have hpatched := (h _ _ _ hthrough).1 hcopies
  have hleft : (viewsImported.finish viewsLink).instruction? ⟨2⟩ 0
      ≠ some (.loadString (viewsLink.relocated ⟨1⟩ "Dark.xaml")) := by decide +kernel
  exact hleft hpatched

end ModuleLinker

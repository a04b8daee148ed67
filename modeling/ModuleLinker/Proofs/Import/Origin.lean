import ModuleLinker.BlobOffset
import ModuleLinker.Proofs.Import.Named
import ModuleLinker.Proofs.Stages

/-!
# Where copied code stands

The body of a method of an input reaches the output in one of two ways: as a whole, in the method
that it is the last to write, or as a block of the routine that initializers are folded into. Either
way an instruction stands as far behind the first one as in its source, with its operand remapped,
and what is noted as its origin is the module it is from; only returns become jumps in a block.
-/

namespace ModuleLinker

/-! ## Finding the block of a position

Blocks that follow one another without a gap share no position, so it does not matter that the
first one is taken which holds it. -/

theorem Tiles.le_first {bs : List Block} {first last : Nat} (h : Tiles first bs last) {b : Block}
    (hb : b ∈ bs) : first ≤ b.first := by
  induction bs generalizing first with
  | nil => cases hb
  | cons c cs ih =>
    obtain ⟨rfl, hle, hrest⟩ := h
    rcases List.mem_cons.mp hb with rfl | hb
    · exact Nat.le_refl _
    · exact Nat.le_trans hle (ih hrest hb)

/-- Of blocks that follow one another, the one that a position lies in is the one that is found. -/
theorem Tiles.find?_eq {bs : List Block} {first last : Nat} (h : Tiles first bs last) {b : Block}
    (hb : b ∈ bs) {p : Nat} (hfirst : b.first ≤ p) (hlast : p < b.last) :
    bs.find? (fun b ↦ decide (b.first ≤ p) && decide (p < b.last)) = some b := by
  induction bs generalizing first with
  | nil => cases hb
  | cons c cs ih =>
    obtain ⟨rfl, -, hrest⟩ := h
    rcases List.mem_cons.mp hb with rfl | hb
    · rw [List.find?_cons_of_pos (by simp [hfirst, hlast])]
    · -- the block at hand ends before that of the position begins
      have hbefore := hrest.le_first hb
      have hend : ¬p < c.last := by omega
      rw [List.find?_cons_of_neg (by simp [hend])]
      exact ih hrest hb

theorem Tiles.exists_mem {bs : List Block} {first last : Nat} (h : Tiles first bs last) {p : Nat}
    (hfirst : first ≤ p) (hlast : p < last) : ∃ b ∈ bs, b.first ≤ p ∧ p < b.last := by
  induction bs generalizing first with
  | nil =>
    obtain rfl : first = last := h
    omega
  | cons c cs ih =>
    obtain ⟨rfl, -, hrest⟩ := h
    by_cases hp : p < c.last
    · exact ⟨c, List.mem_cons_self .., hfirst, hp⟩
    · obtain ⟨b, hb, hin⟩ := ih hrest (by omega)
      exact ⟨b, List.mem_cons_of_mem c hb, hin⟩

theorem exists_mem_zip {α β : Type} {xs : List α} {ys : List β} (h : xs.length = ys.length) {x : α}
    (hx : x ∈ xs) : ∃ y, (x, y) ∈ xs.zip ys := by
  obtain ⟨k, hk, rfl⟩ := List.mem_iff_getElem.mp hx
  have hzip : k < (xs.zip ys).length := by
    rw [List.length_zip]
    omega
  exact ⟨ys[k], List.mem_iff_getElem.mpr ⟨k, hzip, List.getElem_zip⟩⟩

theorem Operand.retarget_self (o : Operand) : o.retarget (fun t ↦ t) = o := by
  cases o <;> simp [retarget]

/-! ## Copies -/

namespace ImportState

/-- A body of a module stands in a method of the output, from a position on. -/
inductive CopiedTo (s : ImportState) (ctx : Context) (m : ModuleId) (d : MethodId) :
    Body → Nat → Prop
  /-- The method has no blocks, and the body is that of the last method which writes it. -/
  | whole {id : MethodId} {body : Body} (hblocks : s.map.blocksOf d = [])
      (hlast : LastWith (s.Writes ctx d) ctx.allMethods (m, id))
      (hbody : ((ctx.module m).method id).body = some body) : CopiedTo s ctx m d body 0
  /-- The method holds the folded initializers, and the body is one of them. -/
  | block {own : List (ModuleId × Body)} {b : Block} {body : Body}
      (hown : Import.OwnSource ctx s own)
      (hblock : (b, m, body) ∈ (s.map.blocksOf d).zip (Import.secondaryBodies ctx ++ own)) :
      CopiedTo s ctx m d body b.first

/-- Each instruction of the output stands in a copy of a body, except that a return is put behind
the folded initializers. -/
def MadeOfCopies (s : ImportState) (ctx : Context) : Prop :=
  ∀ d body q j, (Module.method s.target d).body = some body → body.instructions[q]? = some j →
    (∃ m source first, s.CopiedTo ctx m d source first ∧ first ≤ q
        ∧ q < first + source.instructions.length)
      ∨ q + 1 = body.instructions.length ∧ j = .ret

/-- An instruction is retained when its body is copied to a method. A return is not when the method
holds folded initializers. -/
def Retains (s : ImportState) (d : MethodId) (i : Instruction) : Prop :=
  i.opcode ≠ .ret ∨ s.map.blocksOf d = []

/-- The code at a position of a method is noted to be of a module: it lies in a block of the module,
or there are no blocks and the module has made the method. -/
def Notes (s : ImportState) (m : ModuleId) (d : MethodId) (q : Nat) : Prop :=
  s.map.blockOrigin? d q = some m ∨ s.map.blocksOf d = [] ∧ s.map.methodOrigin? d = some m

/-- What the retained instructions of a body have become: behind a position of a method of the
output, each stands in its place with its operand remapped, and is noted to be of the module. -/
structure Holds (s : ImportState) (m : ModuleId) (source : List Instruction) (d : MethodId)
    (is : List Instruction) (first : Nat) : Prop where
  carried : ∀ {p i}, source[p]? = some i → s.Retains d i → ∃ o f,
    s.map.remapOperand? m i.operand = some o
      ∧ is[first + p]? = some { i with operand := o.retarget f }
  noted : ∀ {p i}, source[p]? = some i → s.Retains d i → s.Notes m d (first + p)

theorem Notes.codeOrigin? {s : ImportState} {m : ModuleId} {d : MethodId} {q : Nat}
    (h : s.Notes m d q) : s.map.codeOrigin? d q = some m := by
  rcases h with horigin | ⟨hblocks, horigin⟩
  · rw [SymbolMap.codeOrigin?, horigin]
    rfl
  · rw [SymbolMap.codeOrigin?, SymbolMap.blockOrigin?, hblocks, horigin]
    rfl

/-- An instruction in the code of a module was copied to a position of a method. -/
inductive Copies (s : ImportState) (ctx : Context) (m : ModuleId) (d : MethodId) :
    Nat → Instruction → Prop
  | intro {source : Body} {first p : Nat} {i : Instruction}
      (hcopied : s.CopiedTo ctx m d source first) (hi : source.instructions[p]? = some i)
      (hretains : s.Retains d i) : Copies s ctx m d (first + p) i

end ImportState

namespace Import

open ImportState

variable {ctx : Context} {s s' : ImportState} {m : ModuleId} {d : MethodId}

/-! ## What late stages leave

Folding sets the body of one method. All other methods hold what the import of types has copied to
them, and they have no blocks. -/

theorem importedInitializer?_eq (h : s.SameWriters s') :
    importedInitializer? ctx s'.map = importedInitializer? ctx s.map := by
  unfold importedInitializer?
  simp only [h.entries]

theorem writes_eq (h : s.SameWriters s') : s'.Writes ctx d = s.Writes ctx d :=
  funext fun _ ↦ propext h.writes_iff

theorem OwnSource.of_sameWriters (h : s.SameWriters s') {own : List (ModuleId × Body)}
    (hown : OwnSource ctx s' own) : OwnSource ctx s own := by
  cases hown with
  | nothing hnone =>
    refine .nothing fun id hid x hx hw ↦ ?_
    exact hnone id ((importedInitializer?_eq h).trans hid) x hx (h.writes_iff.mpr hw)
  | last hid hlast hsource =>
    rw [importedInitializer?_eq h] at hid
    rw [writes_eq h] at hlast
    exact .last hid hlast hsource

theorem OwnSource.unique {own own' : List (ModuleId × Body)} (h : OwnSource ctx s own)
    (h' : OwnSource ctx s own') : own = own' := by
  cases h with
  | nothing hnone =>
    cases h' with
    | nothing _ => rfl
    | last hid hlast _ => exact absurd hlast.holds (hnone _ hid _ hlast.mem)
  | last hid hlast hsource =>
    cases h' with
    | nothing hnone => exact absurd hlast.holds (hnone _ hid _ hlast.mem)
    | last hid' hlast' hsource' =>
      cases hid.symm.trans hid'
      cases hlast.unique hlast'
      cases hsource.symm.trans hsource'
      rfl

theorem length_blocks_of_combined {id : MethodId} {sources : List (ModuleId × Body)}
    (h : s.Combined id sources) : (s.map.blocksOf id).length = sources.length := by
  obtain ⟨_, _, _, hcomposes⟩ := h
  exact hcomposes.moved.length_eq

theorem CombineEffect.method_eq (h : CombineEffect ctx s s') (hs : s.Sound ctx)
    (hblocks : s'.map.blocksOf d = []) {x : ModuleId × MethodId} (hx : x ∈ ctx.allMethods)
    (hwrites : s.Writes ctx d x) : Module.method s'.target d = Module.method s.target d := by
  cases h with
  | nothing _ hmethods _ => exact Module.method_congr hmethods d
  | @combined own _ hown hin =>
    refine hin.methods d fun hd ↦ ?_
    -- the combined routine would have a block for what the primary has written
    have hlength := length_blocks_of_combined hin.combined
    rw [← hd, hblocks, List.length_nil, List.length_append] at hlength
    obtain rfl : own = [] := List.eq_nil_of_length_eq_zero (by omega)
    cases hown with
    | nothing hnone =>
      cases hid : importedInitializer? ctx s.map with
      | some id =>
        rw [combinedInitializer, hid, Option.getD_some] at hd
        exact hnone id hid x hx (hd ▸ hwrites)
      | none =>
        rw [combinedInitializer, hid, Option.getD_none] at hd
        have hlt := hs.methodOf?_lt hwrites.1
        rw [hd] at hlt
        exact Nat.lt_irrefl _ hlt

/-! ## Where copies stand

A body that was copied as a whole begins at the start of its method, and a folded one at the start
of its block. In both cases the instructions that were kept are at the distances that they had. -/

theorem holds_of_whole (h : s.Imported ctx) (hs : s.Grows s') (hwriters : s.SameWriters s')
    (heffect : CombineEffect ctx s s') {id : MethodId} {source : Body}
    (hblocks : s'.map.blocksOf d = [])
    (hlast : LastWith (s'.Writes ctx d) ctx.allMethods (m, id))
    (hsource : ((ctx.module m).method id).body = some source) :
    ∃ body, (Module.method s'.target d).body = some body
      ∧ s'.Holds m source.instructions d body.instructions 0 := by
  rw [writes_eq hwriters] at hlast
  rcases h.copied d with ⟨hnone, -⟩ | ⟨x, hlast', source', body, hsource', hremap, hbody⟩
  · exact absurd hlast.holds (hnone _ hlast.mem)
  · cases hlast'.unique hlast
    cases hsource'.symm.trans hsource
    rw [← heffect.method_eq h.sound hblocks hlast.mem hlast.holds] at hbody
    simp only [SymbolMap.remapBody?, Option.bind_eq_bind, Option.bind_eq_some_iff] at hremap
    obtain ⟨is, his, ls, -, heq⟩ := hremap
    cases heq
    refine ⟨_, hbody, fun {p i} hi _ ↦ ?_, fun {p i} _ _ ↦ ?_⟩
    · obtain ⟨hp, rfl⟩ := List.getElem?_eq_some_iff.mp hi
      have hcarried := mapM_eq_some_iff.mp his
      have hp' := hcarried.length_eq ▸ hp
      have hj : s.map.remapInstruction? m source.instructions[p] = some is[p] :=
        hcarried.get hp hp'
      simp only [SymbolMap.remapInstruction?, Option.map_eq_some_iff] at hj
      obtain ⟨o, ho, hj⟩ := hj
      refine ⟨o, fun t ↦ t, hs.map.remapOperand? ho, ?_⟩
      rw [Operand.retarget_self, hj, Nat.zero_add]
      exact List.getElem?_eq_getElem hp'
    · exact .inr ⟨hblocks, (hwriters.origins d).trans hlast.holds.2.1⟩

theorem holds_of_block (hwriters : s.SameWriters s') (heffect : CombineEffect ctx s s')
    {own : List (ModuleId × Body)} {b : Block} {source : Body} (hown : OwnSource ctx s' own)
    (hblock : (b, m, source) ∈ (s'.map.blocksOf d).zip (secondaryBodies ctx ++ own)) :
    ∃ body, (Module.method s'.target d).body = some body
      ∧ s'.Holds m source.instructions d body.instructions b.first := by
  have hb : b ∈ s'.map.blocksOf d := (List.of_mem_zip hblock).1
  cases heffect with
  | nothing _ _ hnone =>
    rw [blocksOf_eq_nil hnone] at hb
    cases hb
  | @combined own' _ hown' hin =>
    cases hown'.unique (hown.of_sameWriters hwriters)
    obtain rfl : d = combinedInitializer ctx s := by
      by_contra hd
      rw [hin.blocks d hd] at hb
      cases hb
    obtain ⟨front, locals, hbody, hcomposes⟩ := hin.combined
    obtain ⟨horigin, hmoved⟩ := (List.forall₂_iff_zip.mp hcomposes.moved).2 hblock
    refine ⟨_, hbody, fun {p i} hi hretains ↦ ?_, fun {p i} hi hretains ↦ ?_⟩
    · have hne := hretains.resolve_right (List.ne_nil_of_mem hb)
      have hp := lt_of_opcode_ne_ret hi hne
      rw [← getElem?_keptInstructions hp] at hi
      obtain ⟨o, ho, -, hj⟩ := (hmoved.append [.ret]).carried hi hne
      exact ⟨o, _, ho, hj⟩
    · have hp := lt_of_opcode_ne_ret hi (hretains.resolve_right (List.ne_nil_of_mem hb))
      have hlast : b.last = b.first + (keptInstructions source.instructions).length :=
        hmoved.last_eq
      have hfind := hcomposes.tiles.find?_eq hb (Nat.le_add_right b.first p) (by omega)
      refine .inl ?_
      rw [SymbolMap.blockOrigin?, hfind, Option.map_some, horigin]

/-- A copied body stands where it was copied to, once the import is over. -/
theorem holds_of_all (hctx : ctx.registry.Accepted)
    (h : Import.all ctx ctx.startImport = .ok () s) {source : Body} {first : Nat}
    (hcopied : s.CopiedTo ctx m d source first) :
    ∃ body, (Module.method s.target d).body = some body
      ∧ s.Holds m source.instructions d body.instructions first := by
  obtain ⟨s₁, hrun, hlate, heffect⟩ := late_of_all hctx h
  have hwriters := LateStep.sameWriters_steps hlate
  cases hcopied with
  | whole hblocks hlast hbody =>
    exact holds_of_whole (imported_of_run hctx hrun) (LateStep.grows_steps hlate) hwriters heffect
      hblocks hlast hbody
  | block hown hblock => exact holds_of_block hwriters heffect hown hblock

/-! ## Copies are all there is

What stands in the combined routine is in a block or is the one return at its end, and what stands
elsewhere was copied as a whole. -/

/-- A body that the import of types has left was copied as a whole. -/
theorem exists_whole (h : s.Imported ctx) (hwriters : s.SameWriters s')
    (hblocks : s'.map.blocksOf d = [])
    (hmethod : Module.method s'.target d = Module.method s.target d) {body : Body}
    (hbody : (Module.method s'.target d).body = some body) :
    ∃ m source, s'.CopiedTo ctx m d source 0
      ∧ source.instructions.length = body.instructions.length := by
  rw [hmethod] at hbody
  rcases h.copied d with ⟨-, hnone⟩ | ⟨⟨m, id⟩, hlast, source, body', hsource, hremap, hbody'⟩
  · rw [hnone] at hbody
    cases hbody
  · cases hbody'.symm.trans hbody
    rw [← writes_eq hwriters] at hlast
    simp only [SymbolMap.remapBody?, Option.bind_eq_bind, Option.bind_eq_some_iff] at hremap
    obtain ⟨is, his, ls, -, heq⟩ := hremap
    cases heq
    exact ⟨m, source, .whole hblocks hlast hsource, (mapM_eq_some_iff.mp his).length_eq⟩

/-- An instruction that an import leaves stands where one of a copied body stood: it is that one
carried over, or jumps where that one returned. One return is not from a body. -/
theorem exists_copied_of_all (hctx : ctx.registry.Accepted)
    (h : Import.all ctx ctx.startImport = .ok () s) {body : Body} {q : Nat} {j : Instruction}
    (hbody : (Module.method s.target d).body = some body) (hj : body.instructions[q]? = some j) :
    (∃ m source first p i, s.CopiedTo ctx m d source first ∧ source.instructions[p]? = some i
        ∧ q = first + p ∧ (s.Retains d i ∨ ∃ last, j = .branch .br last))
      ∨ q + 1 = body.instructions.length ∧ j = .ret := by
  obtain ⟨s₁, hrun, hlate, heffect⟩ := late_of_all hctx h
  have himported := imported_of_run hctx hrun
  have hwriters := LateStep.sameWriters_steps hlate
  have hq := (List.getElem?_eq_some_iff.mp hj).1
  have hwhole : s.map.blocksOf d = [] → Module.method s.target d = Module.method s₁.target d →
      ∃ m source first p i, s.CopiedTo ctx m d source first ∧ source.instructions[p]? = some i
        ∧ q = first + p ∧ (s.Retains d i ∨ ∃ last, j = .branch .br last) := by
    intro hblocks hmethod
    obtain ⟨m, source, hcopied, hlength⟩ :=
      exists_whole himported hwriters hblocks hmethod hbody
    exact ⟨m, source, 0, q, _, hcopied, List.getElem?_eq_getElem (hlength ▸ hq),
      (Nat.zero_add q).symm, .inl (.inr hblocks)⟩
  cases heffect with
  | nothing _ hmethods hnone =>
    exact .inl (hwhole (blocksOf_eq_nil hnone d) (Module.method_congr hmethods d))
  | @combined own _ hown hin =>
    by_cases hd : d = combinedInitializer ctx s₁
    · subst hd
      obtain ⟨front, locals, hbody', hcomposes⟩ := hin.combined
      cases hbody'.symm.trans hbody
      rcases Nat.lt_or_ge q front.length with hfront | hfront
      · obtain ⟨b, hb, hfirst, hlast⟩ := hcomposes.tiles.exists_mem (Nat.zero_le q) hfront
        obtain ⟨⟨m, source⟩, hblock⟩ := exists_mem_zip hcomposes.moved.length_eq hb
        obtain ⟨-, hmoved⟩ := (List.forall₂_iff_zip.mp hcomposes.moved).2 hblock
        obtain ⟨p, rfl⟩ := Nat.exists_eq_add_of_le hfirst
        have hp : p < (keptInstructions source.instructions).length := by
          have hend : b.last = b.first + (keptInstructions source.instructions).length :=
            hmoved.last_eq
          omega
        have hi := List.getElem?_eq_getElem hp
        have hown' := hown.of_sameWriters hwriters.symm
        refine .inl ⟨m, source, b.first, p, _, .block hown' hblock,
          (getElem?_keptInstructions hp).symm.trans hi, rfl, ?_⟩
        by_cases hret : (keptInstructions source.instructions)[p].opcode = .ret
        · have hjump := (hmoved.append [.ret]).ret hi hret
          exact .inr ⟨_, Option.some.inj (hj.symm.trans hjump)⟩
        · exact .inl (.inl hret)
      · rw [List.getElem?_append_right hfront, List.getElem?_singleton] at hj
        simp only [List.length_append, List.length_singleton] at hq
        have hend : q = front.length := by omega
        rw [if_pos (by omega)] at hj
        refine .inr ⟨by simp [hend], (Option.some.inj hj).symm⟩
    · exact .inl (hwhole (hin.blocks d hd) (hin.methods d hd))

/-- The output of an import is made of copies. -/
theorem madeOfCopies_of_all (hctx : ctx.registry.Accepted)
    (h : Import.all ctx ctx.startImport = .ok () s) : s.MadeOfCopies ctx := by
  intro d body q j hbody hj
  refine (exists_copied_of_all hctx h hbody hj).imp_left ?_
  rintro ⟨m, source, first, p, i, hcopied, hi, rfl, -⟩
  have hp := (List.getElem?_eq_some_iff.mp hi).1
  exact ⟨m, source, first, hcopied, Nat.le_add_right first p, by omega⟩

theorem carried_of_copies (hctx : ctx.registry.Accepted)
    (h : Import.all ctx ctx.startImport = .ok () s) {q : Nat} {i : Instruction}
    (hcopies : s.Copies ctx m d q i) : ∃ body o f,
      (Module.method s.target d).body = some body ∧ s.map.remapOperand? m i.operand = some o
        ∧ body.instructions[q]? = some { i with operand := o.retarget f } := by
  obtain ⟨hcopied, hi, hretains⟩ := hcopies
  obtain ⟨body, hbody, hholds⟩ := holds_of_all hctx h hcopied
  obtain ⟨o, f, ho, hj⟩ := hholds.carried hi hretains
  exact ⟨body, o, f, hbody, ho, hj⟩

/-- A copied instruction is noted to be of the module it is from. -/
theorem notes_of_copies (hctx : ctx.registry.Accepted)
    (h : Import.all ctx ctx.startImport = .ok () s) {q : Nat} {i : Instruction}
    (hcopies : s.Copies ctx m d q i) : s.Notes m d q := by
  obtain ⟨hcopied, hi, hretains⟩ := hcopies
  obtain ⟨body, -, hholds⟩ := holds_of_all hctx h hcopied
  exact hholds.noted hi hretains

end Import

end ModuleLinker

import ModuleLinker.Proofs.Import.Origin
import ModuleLinker.Proofs.ResourceMerge
import ModuleLinker.Proofs.Revision

/-!
# Constants into the appended blob

The payload of a module stands in the blob of the output at the offset that is reported for it.
Constants into the payload are moved along with it, in whatever the code of the module was copied
into: what is noted as the origin of a copied instruction is the module it is from, and a call that
takes an offset is still known by the name of what it calls.
-/

namespace ModuleLinker

/-! ## What the pass changes

The pass is a revision of the code: it looks at one instruction at a time, and may put another
constant in its place. Only a constant that a call three instructions later takes as an offset is
looked at. -/

/-- A constant that is pushed for a call of a routine that takes an offset, three instructions
before the call. -/
def Module.PushesOffset (m : Module) (is : List Instruction) (p : Nat) (value : Int32) : Prop :=
  is[p]? = some (.loadInt value) ∧ ∃ call, is[p + 3]? = some call ∧ m.consumesOffset call = true

/-- Two lists of instructions only differ in constants that are pushed for calls of routines that
take an offset. -/
structure Module.SameButPushed (m : Module) (is js : List Instruction) : Prop where
  length : js.length = is.length
  each : ∀ p, js[p]? = is[p]?
    ∨ ∃ value value', m.PushesOffset is p value ∧ js[p]? = some (.loadInt value')

/-- Two modules only differ in constants that are pushed for calls of routines that take an
offset. -/
structure Module.SameButOffsets (m m' : Module) : Prop where
  tables : m' = { m with methods := m'.methods }
  length : m'.methods.length = m.methods.length
  outside : ∀ d, (m'.method d).outside = (m.method d).outside
  body : ∀ d, Option.Rel
    (fun b b' ↦ b'.locals = b.locals ∧ m.SameButPushed b.instructions b'.instructions)
    (m.method d).body (m'.method d).body

theorem Module.SameButPushed.refl (m : Module) (is : List Instruction) : m.SameButPushed is is :=
  ⟨rfl, fun _ ↦ .inl rfl⟩

theorem Module.SameButOffsets.refl (m : Module) : m.SameButOffsets m := by
  refine ⟨rfl, rfl, fun _ ↦ rfl, fun d ↦ ?_⟩
  cases (m.method d).body with
  | none => exact .none
  | some b => exact .some ⟨rfl, .refl m _⟩

theorem sameButPushed_revise (m : Module) (map : SymbolMap) (offsets : Table ModuleId Nat)
    (d : MethodId) (b : Body) :
    m.SameButPushed b.instructions (b.revise (shiftOffset m map offsets d)).instructions := by
  refine ⟨b.length_revise _, fun p ↦ ?_⟩
  rw [Body.getElem?_revise]
  cases hj : shiftOffset m map offsets d b.instructions p with
  | none => simp
  | some j =>
    obtain ⟨call, value, shift, hcall, hconsumes, hi, -, rfl⟩ := shiftOffset_eq_some.mp hj
    refine .inr ⟨value, value + shift, ⟨hi, call, hcall, hconsumes⟩, ?_⟩
    rw [hi]
    rfl

/-- Adding offsets changes nothing but constants that are pushed for routines which take one. -/
theorem sameButOffsets_applyOffsets (m : Module) (map : SymbolMap)
    (offsets : Table ModuleId Nat) : m.SameButOffsets (applyOffsets m map offsets).2 := by
  unfold applyOffsets
  split
  · exact .refl m
  · refine ⟨rfl, m.length_methods_revise _, fun d ↦ ?_, fun d ↦ ?_⟩
    · rw [Module.method_revise]
      rfl
    · rw [Module.method_revise]
      cases (m.method d).body with
      | none => exact .none
      | some b => exact .some ⟨rfl, sameButPushed_revise m map offsets d b⟩

/-! ## Constants that are shifted -/

theorem toInt_add_ofNat {value : Int32} {offset : Nat} (hvalue : 0 ≤ value.toInt)
    (hsum : value.toInt + offset < 2 ^ 31) :
    (value + Int32.ofNat offset).toInt = value.toInt + offset := by
  rw [Int32.toInt_add, Int32.toInt_ofNat_of_lt (by omega)]
  exact Int.bmod_eq_of_le (by omega) (by omega)

/-- A constant of the code of a module is shifted by the offset of the module, if it has one. -/
theorem exists_body_applyOffsets {t : Module} {map : SymbolMap} {offsets : Table ModuleId Nat}
    {d : MethodId} {body : Body} {p : Nat} {value : Int32} {m : ModuleId}
    (hbody : (t.method d).body = some body) (hpushes : t.PushesOffset body.instructions p value)
    (horigin : map.codeOrigin? d p = some m) (hlt : (offsets.find? m).getD 0 < 2 ^ 31) :
    ∃ body', ((applyOffsets t map offsets).2.method d).body = some body' ∧ body'.instructions[p]?
      = some (.loadInt (value + Int32.ofNat ((offsets.find? m).getD 0))) := by
  obtain ⟨hi, call, hcall, hconsumes⟩ := hpushes
  have hzero : value + Int32.ofNat 0 = value := Int32.add_zero value
  unfold applyOffsets
  split
  · next hall =>
    -- no module has moved, so this one has not
    have hoffset : (offsets.find? m).getD 0 = 0 := by
      cases hfind : offsets.find? m with
      | none => rfl
      | some offset =>
        have hmem := Table.mem_entries_of_find? hfind
        exact of_decide_eq_true (List.all_eq_true.mp hall _ hmem)
    rw [hoffset, hzero]
    exact ⟨body, hbody, hi⟩
  · obtain ⟨body', hbody', hi'⟩ := Module.exists_body_revise hbody hi (shiftOffset t map offsets)
    refine ⟨body', hbody', hi'.trans (congrArg some ?_)⟩
    cases hfind : offsets.find? m with
    | some offset =>
      rw [hfind, Option.getD_some] at hlt
      have hshift : map.shiftAt? offsets d p = some (Int32.ofNat offset) := by
        simp only [SymbolMap.shiftAt?, horigin, hfind, Option.bind_eq_bind, Option.bind_some]
        exact if_pos hlt
      rw [shiftOffset_eq_some.mpr ⟨call, value, _, hcall, hconsumes, hi, hshift, rfl⟩]
      rfl
    | none =>
      rw [Option.getD_none, hzero]
      cases hj : shiftOffset t map offsets d body.instructions p with
      | none => rfl
      | some j =>
        obtain ⟨_, _, _, -, -, -, hshift, -⟩ := shiftOffset_eq_some.mp hj
        simp [SymbolMap.shiftAt?, horigin, hfind] at hshift

/-- No constant is a locator. -/
theorem exists_body_patchLocators {t : Module} {ctx : Context} {map : SymbolMap} {d : MethodId}
    {body : Body} {p : Nat} {value : Int32} (hbody : (t.method d).body = some body)
    (hi : body.instructions[p]? = some (.loadInt value)) :
    ∃ body', ((patchLocators ctx map t).2.method d).body = some body'
      ∧ body'.instructions[p]? = some (.loadInt value) := by
  obtain ⟨body', hbody', hi'⟩ := Module.exists_body_revise hbody hi (patchLocator ctx map t)
  refine ⟨body', hbody', hi'.trans (congrArg some ?_)⟩
  cases hj : patchLocator ctx map t d body.instructions p with
  | none => rfl
  | some j =>
    obtain ⟨opcode, literal, patched, hstring, -⟩ := exists_string_of_patchLocator hj
    rw [hi] at hstring
    cases hstring

/-! ## Calls that take an offset

A call is known by the names of the method that it calls and of the type around that. Copying
keeps both names, so a call that takes an offset still does where it was copied to. The constant
stands as far in front of it as before, since all that a block drops is a return at the end. -/

theorem Module.opcode_ne_ret_of_consumesOffset {m : Module} {call : Instruction}
    (h : m.consumesOffset call = true) : call.opcode ≠ .ret := by
  obtain ⟨opcode, operand⟩ := call
  rintro rfl
  cases operand <;> cases h

theorem consumesOffset_of_names {s : ImportState} {ctx : Context} {m : ModuleId}
    (hnames : ∀ handle r, s.map.remapMethod? m handle = some r →
      Module.handleName s.target r = (ctx.module m).handleName handle)
    {call : Instruction} {o : Operand} (h : (ctx.module m).consumesOffset call = true)
    (ho : s.map.remapOperand? m call.operand = some o) (f : Nat → Nat) :
    Module.consumesOffset s.target { call with operand := o.retarget f } = true := by
  obtain ⟨opcode, operand⟩ := call
  cases operand with
  | method handle =>
    obtain ⟨r, hr, rfl⟩ := Option.map_eq_some_iff.mp ho
    simp only [Module.consumesOffset, Operand.retarget] at h ⊢
    rw [hnames handle r hr]
    exact h
  | none | int32 _ | int64 _ | float64 _ | string _ | type _ | field _ | branch _ | switch _
    | «local» _ | argument _ | signature _ => cases h

/-- A constant that is pushed for a call which takes an offset is still pushed for one where it was
copied to. -/
theorem pushesOffset_of_holds {s : ImportState} {ctx : Context} {m : ModuleId}
    (hnames : ∀ handle r, s.map.remapMethod? m handle = some r →
      Module.handleName s.target r = (ctx.module m).handleName handle)
    {source is : List Instruction} {d : MethodId} {first p : Nat} {value : Int32}
    (hholds : s.Holds m source d is first) (h : (ctx.module m).PushesOffset source p value) :
    Module.PushesOffset s.target is (first + p) value := by
  obtain ⟨hi, call, hcall, hconsumes⟩ := h
  obtain ⟨o, f, ho, hi'⟩ := hholds.carried hi (.inl (by simp [Instruction.loadInt]))
  cases ho
  obtain ⟨o, f', ho, hcall'⟩ :=
    hholds.carried hcall (.inl (Module.opcode_ne_ret_of_consumesOffset hconsumes))
  exact ⟨hi', _, hcall', consumesOffset_of_names hnames hconsumes ho f'⟩

/-! ## The blob of a link

The report gives the offset under which the payload of a module was appended to the blob, and the
pass adds that offset to what is noted to be of the module. That it is the same offset is what
makes the constants fit. -/

theorem ImportState.finish_tables (s : ImportState) (ctx : Context) : s.finish ctx
    = { s.target with resources := (mergeResources ctx).1, methods := (s.finish ctx).methods } := by
  change (patchLocators ctx s.map (applyOffsets _ _ _).2).2 = _
  rw [(sameButOffsets_applyOffsets _ _ _).tables]
  rfl

theorem Registry.sum_importOrder (r : Registry) (size : Module → Nat) :
    (r.importOrder.map fun m ↦ size (r.module m)).sum
      = (r.inputs.map fun i ↦ size i.module).sum := by
  have hinputs := congrArg (List.map size) r.map_module_ids
  rw [List.map_map, List.map_map] at hinputs
  exact (r.perm_importOrder.map _).sum_eq.trans (congrArg List.sum hinputs)

/-- The payloads of the modules stand in the blob of a link, if they are not too large together. -/
theorem blobLayout_of_inputs {inputs : List Input} {ctx : Context}
    (hinputs : Registry.ofInputs inputs = .ok ctx.registry)
    (hunique : ∀ i ∈ inputs, ∀ tree ∈ i.module.resources, tree.UniqueKeys)
    (hsize : (inputs.map fun i ↦ i.module.blobSize).sum < UInt32.size) :
    BlobLayout ctx ctx.registry.importOrder (mergeResources ctx) := by
  obtain ⟨-, -, rfl⟩ := Registry.accepted_of_ofInputs hinputs
  refine blobLayout_foldl ctx.registry.nodup_importOrder ?_ ?_
  · exact Registry.forall_module (P := fun m ↦ ∀ tree ∈ m.resources, tree.UniqueKeys)
      hunique fun tree htree ↦ by cases htree
  · exact (ctx.registry.sum_importOrder Module.blobSize).trans_lt hsize

theorem ImportState.find?_resourceOffsets {ctx : Context} (hctx : ctx.registry.Accepted)
    (hlayout : BlobLayout ctx ctx.registry.importOrder (mergeResources ctx)) (s : ImportState)
    {m : ModuleId} (hm : m ∈ ctx.registry.ids) :
    (s.report ctx).resourceOffsets.find? (ctx.module m).name
      = (mergeResources ctx).2.offsets.find? m := by
  refine (Table.find?_foldl_insert (f := fun l ↦ (ctx.module l).name) hlayout.keys
    (fun e he hname ↦ ?_) {}).trans (Option.or_none ..)
  -- whoever has an offset is a module of the link, and names tell those apart
  have he' := Registry.mem_importOrder.mp (hlayout.noted e.1 (List.mem_map_of_mem he))
  exact hctx.eq_of_name hm (Registry.mem_ids.mpr he') hname

/-- The payload of a module is served by the output of a link at an offset: it stands in the blob
there, and constants into it are moved along with the code they are in. -/
structure Linked.Serves (r : Linked) (ctx : Context) (s : ImportState) (m : ModuleId)
    (payload : List UInt8) (offset : Nat) : Prop where
  stands : ∃ before behind, r.module.blob? = some (before ++ payload ++ behind)
    ∧ before.length = offset
  shifted : ∀ {d source first p value}, s.CopiedTo ctx m d source first →
    (ctx.module m).PushesOffset source.instructions p value → 0 ≤ value.toInt →
    value.toInt ≤ payload.length → ∃ body value', (r.module.method d).body = some body
      ∧ body.instructions[first + p]? = some (.loadInt value')
      ∧ value'.toInt = value.toInt + offset

/-- The payload of each module is served at the offset that is reported for it, or at the start,
unless there is a warning that something of the module is in the wrong place. -/
def Linked.ServesPayloads (r : Linked) (ctx : Context) (s : ImportState) : Prop :=
  ∀ m ∈ ctx.registry.ids, ∀ payload, (ctx.module m).blob? = some payload →
    (∀ path, .inconsistentResource (ctx.module m).name path ∉ r.report.warnings) →
    r.Serves ctx s m payload ((r.report.resourceOffsets.find? (ctx.module m).name).getD 0)

/-- What is pushed for a call that takes an offset is shifted in the output of an import by the
offset of the module that the code is from. -/
theorem exists_body_finish {ctx : Context} {s : ImportState} (hctx : ctx.registry.Accepted)
    (h : Import.all ctx ctx.startImport = .ok () s) {m : ModuleId} {d : MethodId} {source : Body}
    {first p : Nat} {value : Int32} (hcopied : s.CopiedTo ctx m d source first)
    (hpushes : (ctx.module m).PushesOffset source.instructions p value)
    (hlt : ((mergeResources ctx).2.offsets.find? m).getD 0 < 2 ^ 31) :
    ∃ body, ((s.finish ctx).method d).body = some body ∧ body.instructions[first + p]?
      = some (.loadInt
        (value + Int32.ofNat (((mergeResources ctx).2.offsets.find? m).getD 0))) := by
  obtain ⟨s₁, hrun, hlate, -⟩ := Import.late_of_all hctx h
  have hnames : ∀ handle r, s.map.remapMethod? m handle = some r →
      Module.handleName s.target r = (ctx.module m).handleName handle := fun _ _ ↦
    Import.handleName_of_late (Import.imported_of_run hctx hrun)
      (Import.refsNamed_of_run hctx hrun) hlate
  obtain ⟨body, hbody, hholds⟩ := Import.holds_of_all hctx h hcopied
  have hnotes := hholds.noted hpushes.1 (.inl (by simp [Instruction.loadInt]))
  have hpushed := pushesOffset_of_holds hnames hholds hpushes
  -- the merged resources change no body and no name
  let t : Module := { s.target with resources := (mergeResources ctx).1 }
  have hbody' : (t.method d).body = some body := hbody
  obtain ⟨shifted, hshifted, hi⟩ :=
    exists_body_applyOffsets (t := t) hbody' hpushed hnotes.codeOrigin? hlt
  exact exists_body_patchLocators hshifted hi

/-- In every output of modules whose payloads are not too large together, all payloads are served to
the code that was copied, which is all code there is. And what adds the offsets changes nothing but
the constants that are pushed for calls which take one. -/
theorem servesPayloads_of_link {settings : Settings} {inputs : List Input} {r : Linked}
    (h : link settings inputs = .ok r)
    (hunique : ∀ i ∈ inputs, ∀ tree ∈ i.module.resources, tree.UniqueKeys)
    (hsize : (inputs.map fun i ↦ i.module.blobSize).sum ≤ 2 ^ 31 - 1) :
    (∃ ctx s, LinkedThrough settings inputs ctx s r ∧ s.MadeOfCopies ctx
        ∧ r.ServesPayloads ctx s)
      ∧ ∀ (t : Module) (map : SymbolMap) (offsets : Table ModuleId Nat),
        t.SameButOffsets (applyOffsets t map offsets).2 := by
  obtain ⟨ctx, s, hthrough⟩ := link_eq_ok_iff.mp h
  have hcopies := Import.madeOfCopies_of_all
    (Registry.accepted_of_ofInputs hthrough.inputs).1 hthrough.imported
  refine ⟨⟨ctx, s, hthrough, hcopies, fun m hm payload hpayload hno ↦ ?_⟩,
    sameButOffsets_applyOffsets⟩
  obtain ⟨hctx, -, heq⟩ := Registry.accepted_of_ofInputs hthrough.inputs
  have hsmall : UInt32.size = 2 ^ 32 := rfl
  have hlayout := blobLayout_of_inputs hthrough.inputs hunique (by omega)
  rw [hthrough.report] at hno ⊢
  rw [s.find?_resourceOffsets hctx hlayout hm]
  obtain ⟨before, behind, hblob, hoffset⟩ := hlayout.stands m
    (Registry.mem_importOrder.mpr (Registry.mem_ids.mp hm)) payload hpayload hno
  have hbound : before.length + payload.length ≤ 2 ^ 31 - 1 := by
    have hle := hlayout.size
    have hsum := ctx.registry.sum_importOrder Module.blobSize
    rw [heq] at hsum
    simp only [hblob, Option.getD_some, List.length_append] at hle
    change _ ≤ (ctx.registry.importOrder.map fun m ↦ (ctx.registry.module m).blobSize).sum at hle
    omega
  constructor
  case stands =>
    refine ⟨before, behind, ?_, hoffset.symm⟩
    rw [hthrough.module, s.finish_tables]
    exact hblob
  case shifted =>
    intro d source first p value hcopied hpushes hnonneg hle
    obtain ⟨body, hbody, hi⟩ :=
      exists_body_finish hctx hthrough.imported hcopied hpushes (by omega)
    refine ⟨body, _, ?_, hi, toInt_add_ofNat hnonneg (by omega)⟩
    rw [hthrough.module]
    exact hbody

/-! ## A program and its library -/

/-- A call of a routine that writes a literal of the blob. -/
def writeLiteral : Instruction := .call (.reference ⟨0⟩)

/-- Instructions that write a literal, which starts at a position of the blob. -/
def writeFrom (start : Int32) : List Instruction := [.loadInt start, .nop, .nop, writeLiteral]

/-- A module with literals, one of which its initializer writes and one a page. -/
def page (name : String) (literals : List UInt8) (first second : Int32) : Module where
  name
  types := [
    { name := "<Module>", methods := [⟨0⟩] },
    { nspace := name, name := "Page", methods := [⟨1⟩] }]
  methods := [
    { name := ".cctor", access := .private, isStatic := true, declaring := ⟨0⟩
      body := some { instructions := writeFrom first ++ [.ret] } },
    { name := "Render", access := .public, isStatic := true, declaring := ⟨1⟩
      body := some { instructions := writeFrom second ++ [.ret] } }]
  typeRefs := [⟨.assembly ⟨0⟩, "System.Web.UI", "TemplateControl"⟩]
  memberRefs := [⟨.reference ⟨0⟩, "WriteUTF8ResourceString", .method [] none⟩]
  assemblyRefs := [⟨"System.Web", {}⟩]
  resources := some [(blobType, .directory [(blobName, .data literals)])]

def pages : List Input :=
  [⟨page "App" [1, 2, 3] 1 0, true⟩, ⟨page "Lib" [4, 5] 0 2, false⟩]

/-- The instructions of the output, method by method. -/
def Linked.code (r : Linked) : List (Option (List Instruction)) :=
  r.module.methods.map fun d ↦ d.body.map Body.instructions

/-- The library's literals stand behind three bytes of the program's. So its page writes from three
bytes further on, and so does its initializer, which is put before the program's. -/
theorem servesPayloads_pages : ∃ r, link {} pages = .ok r
    ∧ (∀ i ∈ pages, ∀ tree ∈ i.module.resources, tree.UniqueKeys)
    ∧ (pages.map fun i ↦ i.module.blobSize).sum ≤ 2 ^ 31 - 1
    ∧ (∃ ctx s, LinkedThrough {} pages ctx s r ∧ s.MadeOfCopies ctx ∧ r.ServesPayloads ctx s)
    ∧ r.module.blob? = some [1, 2, 3, 4, 5]
    ∧ r.code = [some (writeFrom 3 ++ writeFrom 1 ++ [.ret]), some (writeFrom 0 ++ [.ret]),
      some (writeFrom 5 ++ [.ret])] := by
  have hunique : ∀ i ∈ pages, ∀ tree ∈ i.module.resources, tree.UniqueKeys := by decide
  have hsize : (pages.map fun i ↦ i.module.blobSize).sum ≤ 2 ^ 31 - 1 := by decide
  have hok : (match link {} pages with
      | .ok r => decide (r.module.blob? = some [1, 2, 3, 4, 5] ∧ r.code
        = [some (writeFrom 3 ++ writeFrom 1 ++ [.ret]), some (writeFrom 0 ++ [.ret]),
          some (writeFrom 5 ++ [.ret])])
      | .error _ => false) = true := by
    decide +kernel
  cases h : link {} pages with
  | error e =>
    rw [h] at hok
    cases hok
  | ok r =>
    rw [h] at hok
    obtain ⟨hblob, hcode⟩ := of_decide_eq_true hok
    exact ⟨r, rfl, hunique, hsize, (servesPayloads_of_link h hunique hsize).1, hblob, hcode⟩

end ModuleLinker

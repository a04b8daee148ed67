import ModuleLinker.Import.Members
import ModuleLinker.Proofs.Import.RenumberState
import ModuleLinker.Proofs.Import.SideBySide
import ModuleLinker.Proofs.Import.Step

/-!
# Signatures and members under other numbers

An import that runs under other numbers goes the same way as before: it fails with the same error,
or it succeeds with the same result and leaves the same state under other numbers. An error names
modules and symbols by their names, so it has no numbers in it.

There is one lemma for each import, which takes it apart along its code.
-/

namespace ModuleLinker

/-- What a reference to another module becomes under other numbers. -/
def Resolution.renumber (ρ : ModuleId → ModuleId) : Resolution → Resolution
  | .merged m => .merged (ρ m)
  | .external id => .external id

namespace Import

variable {ρ : ModuleId → ModuleId} {α β : Type}

/-- Two imports go the same way when the second runs under other numbers. -/
abbrev Renumbered (ρ : ModuleId → ModuleId) (V : α → β → Prop) (x : Import α) (y : Import β) :
    Prop :=
  Alike (fun s s' ↦ s' = s.renumber ρ) V x y

/-! ## Reading and changing the state

What is read off the state may have a number in it or not. In the second case both imports read
the same. -/

namespace Renumbered

variable {V : α → β → Prop}

theorem ofMap {f : SymbolMap → α} {g : SymbolMap → β} (h : ∀ map, V (f map) (g (map.renumber ρ))) :
    Renumbered ρ V (ofMap f) (ofMap g) := by
  rintro s _ rfl
  exact .ok (h s.map) rfl

theorem ofMap_eq {f g : SymbolMap → α} (h : ∀ map, g (map.renumber ρ) = f map) :
    Renumbered ρ Eq (Import.ofMap f) (Import.ofMap g) :=
  ofMap fun map ↦ (h map).symm

theorem modifyMap {f g : SymbolMap → SymbolMap}
    (h : ∀ map, g (map.renumber ρ) = (f map).renumber ρ) :
    Renumbered ρ Eq (modifyMap f) (modifyMap g) := by
  rintro s _ rfl
  exact .ok rfl (congrArg (fun map ↦ { s.renumber ρ with map }) (h s.map))

theorem record (hρ : Function.Injective ρ) (m : ModuleId) (symbol : Symbol) (c : Counterpart) :
    Renumbered ρ Eq (Import.modifyMap fun map ↦ map.record m symbol c)
      (Import.modifyMap fun map ↦ map.record (ρ m) symbol c) :=
  modifyMap fun map ↦ map.record_renumber m hρ symbol c

theorem ofTarget {f : Target → α} : Renumbered ρ Eq (ofTarget f) (ofTarget f) := by
  rintro s _ rfl
  exact .ok rfl rfl

theorem modifyTarget {f : Target → Target} :
    Renumbered ρ Eq (modifyTarget f) (modifyTarget f) := by
  rintro s _ rfl
  exact .ok rfl rfl

theorem updateTarget {f : Target → α × Target} :
    Renumbered ρ Eq (updateTarget f) (updateTarget f) := by
  rintro s _ rfl
  exact .ok rfl rfl

end Renumbered

variable {ctx ctx' : Context}

section References

variable (h : ctx.Renumbers ρ ctx') (m : ModuleId)
include h

theorem renumbered_unknown {V : α → β → Prop} (symbol : String) :
    Renumbered ρ V (unknown ctx m symbol) (unknown ctx' (ρ m) symbol) := by
  unfold unknown
  rw [h.module_eq]
  exact .throw

theorem renumbered_orUnknown (symbol : String) (found : Option α) :
    Renumbered ρ Eq (orUnknown ctx m symbol found) (orUnknown ctx' (ρ m) symbol found) := by
  cases found with
  | some a => exact .pure rfl
  | none => exact renumbered_unknown h m symbol

theorem renumbered_ensureDeclared (id : TypeId) :
    Renumbered ρ Eq (ensureDeclared ctx m id) (ensureDeclared ctx' (ρ m) id) := by
  rw [ensureDeclared_eq, ensureDeclared_eq, h.module_eq]
  refine .deciding (congrArg Module.name (h.module_eq m)) (h.decides_eq m) fun hs ↦ ?_
  rw [hs, ImportState.ensureChain_renumber h]
  refine ⟨rfl, rfl, ?_⟩
  simp only [Prod.map_snd, ImportState.enteredSince_renumber h, ImportState.listedSince_renumber h]

/-! ## Type references -/

theorem renumbered_resolveAssembly (id : AssemblyRefId) :
    Renumbered ρ (fun r r' ↦ r' = r.renumber ρ) (resolveAssembly ctx m id)
      (resolveAssembly ctx' (ρ m) id) := by
  unfold resolveAssembly Target.resolveAssembly
  simp only [h.module_eq, h.merged?_eq]
  cases ctx.merged? ((ctx.module m).assemblyRef id).name with
  | some merged =>
    rintro s _ rfl
    exact .ok rfl rfl
  | none =>
    rintro s _ rfl
    exact .ok rfl rfl

omit h in
theorem renumbered_referType (assembly : AssemblyRefId) (nspace name : String) :
    Renumbered ρ Eq (referType assembly nspace name) (referType assembly nspace name) :=
  .bind_eq Renumbered.updateTarget fun _ ↦ .pure rfl

theorem renumbered_importMergedRef (merged : ModuleId) (r : TypeRef) :
    Renumbered ρ Eq (importMergedRef ctx m merged r) (importMergedRef ctx' (ρ m) (ρ merged) r) := by
  unfold importMergedRef
  simp only [h.findType?_eq, h.followForwarders_eq, h.module_eq]
  cases ctx.findType? merged (joinNamespace r.nspace r.name) with
  | some type => exact .bind_eq (renumbered_ensureDeclared h _ _) fun _ ↦ .pure rfl
  | none =>
    refine .bind .ofExcept ?_
    rintro fin _ rfl
    cases fin with
    | defined definer type => exact .bind_eq (renumbered_ensureDeclared h _ _) fun _ ↦ .pure rfl
    | external forwarder assembly =>
      refine .bind (renumbered_resolveAssembly h _ _) ?_
      rintro resolution _ rfl
      cases resolution with
      | external a => exact renumbered_referType _ _ _
      | merged _ => exact renumbered_unknown h _ _
    | unresolved => exact renumbered_unknown h _ _

theorem renumbered_importRootRef (id : TypeRefId) :
    Renumbered ρ Eq (importRootRef ctx m id) (importRootRef ctx' (ρ m) id) := by
  unfold importRootRef
  simp only [h.module_eq, h.findType?_eq]
  cases ((ctx.module m).typeRef id).scope with
  | assembly a =>
    refine .bind (renumbered_resolveAssembly h _ _) ?_
    rintro resolution _ rfl
    cases resolution with
    | merged merged => exact renumbered_importMergedRef h _ _ _
    | external a => exact renumbered_referType _ _ _
  | «local» | nested outer =>
    cases ctx.findType? m ((ctx.module m).typeRefName id) with
    | some type => exact .bind_eq (renumbered_ensureDeclared h _ _) fun _ ↦ .pure rfl
    | none => exact renumbered_unknown h _ _

omit m in
theorem nestedAmong?_renumber (sources : List (ModuleId × TypeId)) (name : String) :
    ctx'.nestedAmong? (sources.map (Prod.map ρ id)) name
      = (ctx.nestedAmong? sources name).map (Prod.map ρ id) := by
  refine findSome?_map_of (fun e ↦ ?_) sources
  simp only [Prod.map_fst, Prod.map_snd, h.module_eq, id, Option.map_map]
  rfl

theorem renumbered_findNested (outer : TypeId) (name : String) :
    Renumbered ρ Eq (findNested ctx outer name) (findNested ctx' outer name) := by
  unfold findNested
  refine .bind (V := fun l l' ↦ l' = l.map (Prod.map ρ id))
    (Renumbered.ofMap fun map ↦ map.sourcesOf_renumber outer) ?_
  rintro sources _ rfl
  dsimp only
  rw [← Context.nestedAmong?, ← Context.nestedAmong?, nestedAmong?_renumber h]
  cases ctx.nestedAmong? sources name with
  | none => exact Renumbered.ofTarget
  | some found => exact .bind_eq (renumbered_ensureDeclared h _ _) fun _ ↦ .pure rfl

theorem renumbered_importNestedRef (id : TypeRefId) (outer : TypeSig) :
    Renumbered ρ Eq (importNestedRef ctx m id outer) (importNestedRef ctx' (ρ m) id outer) := by
  unfold importNestedRef
  simp only [h.module_eq]
  cases outer with
  | definition type =>
    refine .bind_eq (renumbered_findNested h _ _) fun found ↦ ?_
    cases found with
    | some nested => exact .pure rfl
    | none => exact renumbered_unknown h _ _
  | reference outerRef => exact .bind_eq Renumbered.updateTarget fun _ ↦ .pure rfl
  | array _ | generic _ _ => exact renumbered_unknown h _ _

theorem renumbered_importScopeChain (chain : List TypeRefId) :
    Renumbered ρ Eq (importScopeChain ctx m chain) (importScopeChain ctx' (ρ m) chain) := by
  have hρ := h.registry.injective
  induction chain with
  | nil => exact renumbered_unknown h _ _
  | cons id outer ih =>
    unfold importScopeChain
    refine .bind_eq (Renumbered.ofMap_eq fun map ↦ map.typeRefOf?_renumber m hρ id) fun known ↦ ?_
    cases known with
    | some sig => exact .pure rfl
    | none =>
      have hrecord : ∀ sig, Renumbered ρ Eq
          (do modifyMap fun map ↦ map.record m (.typeRef id) (.type sig); return sig)
          (do modifyMap fun map ↦ map.record (ρ m) (.typeRef id) (.type sig); return sig) :=
        fun sig ↦ .bind_eq (Renumbered.record hρ m _ _) fun _ ↦ .pure rfl
      cases outer with
      | nil => exact .bind_eq (renumbered_importRootRef h _ _) hrecord
      | cons o rest =>
        exact ih.bind_eq fun outerSig ↦ .bind_eq (renumbered_importNestedRef h _ _ _) hrecord

theorem renumbered_importTypeRef (id : TypeRefId) :
    Renumbered ρ Eq (importTypeRef ctx m id) (importTypeRef ctx' (ρ m) id) := by
  unfold importTypeRef
  rw [h.module_eq]
  exact renumbered_importScopeChain h m _

end References

/-! ## Signatures -/

mutual

theorem renumbered_importSig (h : ctx.Renumbers ρ ctx') (m : ModuleId) :
    (sig : TypeSig) → Renumbered ρ Eq (importSig ctx m sig) (importSig ctx' (ρ m) sig)
  | .definition id => by
    rw [importSig, importSig]
    exact .bind_eq (renumbered_ensureDeclared h _ _) fun _ ↦ .pure rfl
  | .reference id => by
    rw [importSig, importSig]
    exact renumbered_importTypeRef h _ _
  | .array element => by
    rw [importSig, importSig]
    exact .bind_eq (renumbered_importSig h m element) fun _ ↦ .pure rfl
  | .generic base args => by
    rw [importSig, importSig]
    refine .bind_eq (renumbered_importSig h m base) fun _ ↦ ?_
    exact .bind_eq (renumbered_importSigs h m args) fun _ ↦ .pure rfl

theorem renumbered_importSigs (h : ctx.Renumbers ρ ctx') (m : ModuleId) :
    (sigs : List TypeSig) → Renumbered ρ Eq (importSigs ctx m sigs) (importSigs ctx' (ρ m) sigs)
  | [] => by
    rw [importSigs, importSigs]
    exact .pure rfl
  | sig :: rest => by
    rw [importSigs, importSigs]
    refine .bind_eq (renumbered_importSig h m sig) fun _ ↦ ?_
    exact .bind_eq (renumbered_importSigs h m rest) fun _ ↦ .pure rfl

end

section Members

variable (h : ctx.Renumbers ρ ctx') (m : ModuleId)
include h

theorem renumbered_importSig? (sig : Option TypeSig) :
    Renumbered ρ Eq (importSig? ctx m sig) (importSig? ctx' (ρ m) sig) := by
  cases sig with
  | some sig => exact .bind_eq (renumbered_importSig h m _) fun _ ↦ .pure rfl
  | none => exact .pure rfl

/-! ## Members -/

theorem renumbered_importField (id : FieldId) (target : TypeId) :
    Renumbered ρ Eq (importField ctx m id target) (importField ctx' (ρ m) id target) := by
  have hρ := h.registry.injective
  unfold importField
  simp only [h.module_eq]
  refine .bind_eq (Renumbered.ofMap_eq fun map ↦ map.fieldOf?_renumber m hρ id) fun known ↦ ?_
  cases known with
  | some handle => exact .pure rfl
  | none =>
    have hrecord : ∀ place, Renumbered ρ Eq
        (modifyMap fun map ↦ map.record m (.field id) (.field (.definition place)))
        (modifyMap fun map ↦ map.record (ρ m) (.field id) (.field (.definition place))) :=
      fun place ↦ Renumbered.record hρ m _ _
    refine .bind_eq Renumbered.ofTarget fun found ↦ ?_
    cases found with
    | some place => exact .bind_eq (.pure rfl) hrecord
    | none =>
      refine .bind_eq (renumbered_importSig h m _) fun fieldType ↦ ?_
      exact .bind_eq Renumbered.updateTarget hrecord

theorem renumbered_importMethod (id : MethodId) (target : TypeId) :
    Renumbered ρ Eq (importMethod ctx m id target) (importMethod ctx' (ρ m) id target) := by
  have hρ := h.registry.injective
  unfold importMethod
  simp only [h.module_eq]
  refine .bind_eq (Renumbered.ofMap_eq fun map ↦ map.methodOf?_renumber m hρ id) fun known ↦ ?_
  cases known with
  | some handle => exact .pure rfl
  | none =>
    have hrecord : ∀ place, Renumbered ρ Eq
        (modifyMap fun map ↦ map.record m (.method id) (.method (.definition place)))
        (modifyMap fun map ↦ map.record (ρ m) (.method id) (.method (.definition place))) :=
      fun place ↦ Renumbered.record hρ m _ _
    refine .bind_eq (renumbered_importSigs h m _) fun params ↦ ?_
    refine .bind_eq (renumbered_importSig? h m _) fun ret ↦ ?_
    refine .bind_eq Renumbered.ofTarget fun found ↦ ?_
    cases found with
    | some place => exact .bind_eq (.pure rfl) hrecord
    | none =>
      refine .bind_eq Renumbered.updateTarget fun added ↦ ?_
      refine .bind_eq (Renumbered.modifyMap fun map ↦ map.recordMethodOrigin_renumber m added) ?_
      exact fun _ ↦ .bind_eq (.pure rfl) hrecord

/-! ## References to members -/

theorem renumbered_importMemberKind (kind : MemberKind) :
    Renumbered ρ Eq (importMemberKind ctx m kind) (importMemberKind ctx' (ρ m) kind) := by
  cases kind with
  | method params ret =>
    refine .bind_eq (renumbered_importSigs h m _) fun params ↦ ?_
    exact .bind_eq (renumbered_importSig? h m _) fun ret ↦ .pure rfl
  | field type => exact .bind_eq (renumbered_importSig h m _) fun type ↦ .pure rfl

theorem renumbered_importOwnMember (id : MemberRefId) (owner : TypeId) :
    Renumbered ρ Eq (importOwnMember ctx m id owner) (importOwnMember ctx' (ρ m) id owner) := by
  unfold importOwnMember
  simp only [h.module_eq]
  cases ((ctx.module m).memberRef id).kind with
  | method params ret =>
    refine .bind_eq (renumbered_importSigs h m _) fun params ↦ ?_
    refine .bind_eq (renumbered_importSig? h m _) fun ret ↦ ?_
    exact .bind_eq Renumbered.ofTarget fun found ↦ renumbered_orUnknown h m _ found
  | field type => exact .bind_eq Renumbered.ofTarget fun found ↦ renumbered_orUnknown h m _ found

theorem renumbered_importOuterMember (id : MemberRefId) (parent : TypeSig) :
    Renumbered ρ Eq (importOuterMember ctx m id parent)
      (importOuterMember ctx' (ρ m) id parent) := by
  unfold importOuterMember
  simp only [h.module_eq]
  refine .bind_eq (renumbered_importMemberKind h m _) fun kind ↦ ?_
  exact .bind_eq Renumbered.updateTarget fun place ↦ .pure rfl

theorem renumbered_importMemberRef (id : MemberRefId) :
    Renumbered ρ Eq (importMemberRef ctx m id) (importMemberRef ctx' (ρ m) id) := by
  have hρ := h.registry.injective
  unfold importMemberRef
  simp only [h.module_eq]
  refine .bind_eq (Renumbered.ofMap_eq fun map ↦ map.memberRefOf?_renumber m hρ id) fun known ↦ ?_
  cases known with
  | some c => exact .pure rfl
  | none =>
    have hrecord : ∀ c, Renumbered ρ Eq
        (do modifyMap fun map ↦ map.record m (.memberRef id) c; return c)
        (do modifyMap fun map ↦ map.record (ρ m) (.memberRef id) c; return c) :=
      fun c ↦ .bind_eq (Renumbered.record hρ m _ _) fun _ ↦ .pure rfl
    refine .bind_eq (renumbered_importSig h m _) fun parent ↦ ?_
    cases parent with
    | definition owner => exact .bind_eq (renumbered_importOwnMember h m _ _) hrecord
    | reference _ | array _ | generic _ _ =>
      exact .bind_eq (renumbered_importOuterMember h m _ _) hrecord

theorem renumbered_importMethodHandle (handle : MethodHandle) :
    Renumbered ρ Eq (importMethodHandle ctx m handle) (importMethodHandle ctx' (ρ m) handle) := by
  have hρ := h.registry.injective
  unfold importMethodHandle
  simp only [h.module_eq]
  cases handle with
  | definition id =>
    exact .bind_eq (Renumbered.ofMap_eq fun map ↦ map.methodOf?_renumber m hρ id) fun known ↦
      renumbered_orUnknown h m _ known
  | reference id =>
    exact .bind_eq (renumbered_importMemberRef h m id) fun c ↦ renumbered_orUnknown h m _ c.method?

theorem renumbered_importFieldHandle (handle : FieldHandle) :
    Renumbered ρ Eq (importFieldHandle ctx m handle) (importFieldHandle ctx' (ρ m) handle) := by
  have hρ := h.registry.injective
  unfold importFieldHandle
  simp only [h.module_eq]
  cases handle with
  | definition id =>
    exact .bind_eq (Renumbered.ofMap_eq fun map ↦ map.fieldOf?_renumber m hρ id) fun known ↦
      renumbered_orUnknown h m _ known
  | reference id =>
    exact .bind_eq (renumbered_importMemberRef h m id) fun c ↦ renumbered_orUnknown h m _ c.field?

/-! ## Operands -/

theorem renumbered_importOperand (operand : Operand) :
    Renumbered ρ Eq (importOperand ctx m operand) (importOperand ctx' (ρ m) operand) := by
  cases operand with
  | type sig => exact .bind_eq (renumbered_importSig h m _) fun _ ↦ .pure rfl
  | method handle => exact .bind_eq (renumbered_importMethodHandle h m _) fun _ ↦ .pure rfl
  | field handle => exact .bind_eq (renumbered_importFieldHandle h m _) fun _ ↦ .pure rfl
  | signature sig =>
    refine .bind_eq (renumbered_importSigs h m _) fun params ↦ ?_
    exact .bind_eq (renumbered_importSig? h m _) fun ret ↦ .pure rfl
  | _ => exact .pure rfl

theorem renumbered_importInstruction (i : Instruction) :
    Renumbered ρ Eq (importInstruction ctx m i) (importInstruction ctx' (ρ m) i) :=
  .bind_eq (renumbered_importOperand h m _) fun _ ↦ .pure rfl

end Members

end Import

end ModuleLinker

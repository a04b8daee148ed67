import ModuleLinker.Proofs.Import.Run

/-!
# Answers at hand

What an import has found out it writes down: counterparts in the map, and what it has gone through
in its lists. Asked for something that is written down, it answers from there and leaves its state
alone. Signatures and operands are answered by what the map makes of them, as soon as it makes
anything of them.
-/

namespace ModuleLinker

namespace Import

/-- In a state, an import has its answer at hand: it returns it and changes nothing. -/
def Recalls {α : Type} (s : ImportState) (x : Import α) (a : α) : Prop := x s = .ok a s

namespace Recalls

variable {α β : Type} {s : ImportState} {x : Import α} {a : α} {b : β}

theorem pure (a : α) : Recalls s (pure a) a := rfl

theorem orUnknown {ctx : Context} {m : ModuleId} {symbol : String} {found : Option α}
    (h : found = some a) : Recalls s (orUnknown ctx m symbol found) a := by
  rw [h]
  exact pure a

theorem bind {f : α → Import β} (hx : Recalls s x a) (hf : Recalls s (f a) b) :
    Recalls s (x >>= f) b := by
  change EStateM.bind x f s = .ok b s
  unfold EStateM.bind
  rw [hx]
  exact hf

theorem ofMap_bind {r : SymbolMap → α} {f : α → Import β} (hf : Recalls s (f (r s.map)) b) :
    Recalls s (ofMap r >>= f) b :=
  bind (x := ofMap r) rfl hf

theorem get_bind {f : ImportState → Import β} (hf : Recalls s (f s) b) :
    Recalls s (get >>= f) b :=
  bind (x := get) rfl hf

theorem forM {xs : List α} {f : α → Import Unit} (h : ∀ a ∈ xs, Recalls s (f a) ()) :
    Recalls s (xs.forM f) () := by
  induction xs with
  | nil => exact pure ()
  | cons a xs ih => exact bind (h a (by simp)) (ih fun a' ha' ↦ h a' (by simp [ha']))

end Recalls

variable {ctx : Context} {s : ImportState} {m : ModuleId}

/-! ## Types and references

A type that has a place and a reference that has an entry are answered by looking them up. The
search for types that have to be decided about finds none, since nothing new is listed. -/

theorem declare_eq_of_typeOf? {p : Pending} {t : TypeId} (h : s.map.typeOf? m p.type = some t) :
    s.declare ctx m p = (t, s) := by
  have hcontains : s.map.contains m (.type p.type) = true :=
    Option.isSome_iff_exists.mpr ⟨_, SymbolMap.typeOf?_eq_some.mp h⟩
  have hall : ImportState.declareAll ctx m s [p] = s := by
    rw [ImportState.declareAll, if_pos hcontains, ImportState.declareAll]
  simp only [ImportState.declare, hall, h, Option.getD_some]

/-- Declaring that leaves the state alone asks no further questions than it has to. -/
theorem Recalls.deciding {α : Type} (own : List TypeId) {declare : ImportState → α × ImportState}
    {a : α} (h : declare s = (a, s)) (hown : ∀ x ∈ own, ctx.decides m x = true) :
    Recalls s (deciding ctx m (fun s s' ↦ own ++ s.listedSince s' ctx m) declare) a :=
  deciding_eq_ok_iff.mpr ⟨h, by simpa [ImportState.listedSince] using hown⟩

theorem recalls_ensureDeclared {id t : TypeId} (h : s.map.typeOf? m id = some t) :
    Recalls s (ensureDeclared ctx m id) t := by
  refine .ofMap_bind ?_
  rw [h]
  exact .pure t

theorem recalls_importTypeRef {id : TypeRefId} {sig : TypeSig}
    (h : s.map.typeRefOf? m id = some sig) : Recalls s (importTypeRef ctx m id) sig := by
  obtain ⟨rest, hrest⟩ := Chain.follow_eq_cons
    (fun r ↦ ((ctx.module m).typeRef r).scope.outer?) (ctx.module m).typeRefs.length id
  rw [importTypeRef, Module.scopeChain, hrest, importScopeChain]
  refine .ofMap_bind ?_
  rw [h]
  exact .pure sig

/-! ## Signatures -/

mutual

theorem recalls_importSig : (sig : TypeSig) → {r : TypeSig} → s.map.remapSig? m sig = some r →
    Recalls s (importSig ctx m sig) r
  | .definition id, r, hr => by
    simp only [SymbolMap.remapSig?, Option.map_eq_some_iff] at hr
    obtain ⟨t, ht, rfl⟩ := hr
    rw [importSig]
    exact (recalls_ensureDeclared ht).bind (.pure _)
  | .reference id, r, hr => by
    rw [importSig]
    exact recalls_importTypeRef hr
  | .array element, r, hr => by
    simp only [SymbolMap.remapSig?, Option.map_eq_some_iff] at hr
    obtain ⟨e, he, rfl⟩ := hr
    rw [importSig]
    exact (recalls_importSig element he).bind (.pure _)
  | .generic base args, r, hr => by
    simp only [SymbolMap.remapSig?, Option.bind_eq_bind, Option.bind_eq_some_iff] at hr
    obtain ⟨b, hb, as, has, hr⟩ := hr
    cases hr
    rw [importSig]
    exact (recalls_importSig base hb).bind ((recalls_importSigs args has).bind (.pure _))

theorem recalls_importSigs : (sigs : List TypeSig) → {rs : List TypeSig} →
    s.map.remapSigs? m sigs = some rs → Recalls s (importSigs ctx m sigs) rs
  | [], rs, hrs => by
    cases hrs
    rw [importSigs]
    exact .pure _
  | sig :: rest, rs, hrs => by
    simp only [SymbolMap.remapSigs?, Option.bind_eq_bind, Option.bind_eq_some_iff] at hrs
    obtain ⟨r, hr, rs', hrs', hcons⟩ := hrs
    cases hcons
    rw [importSigs]
    exact (recalls_importSig sig hr).bind ((recalls_importSigs rest hrs').bind (.pure _))

end

theorem recalls_importSig? {sig r : Option TypeSig} (hr : s.map.remapOption? m sig = some r) :
    Recalls s (importSig? ctx m sig) r := by
  cases sig with
  | none =>
    cases hr
    exact .pure _
  | some sig =>
    simp only [SymbolMap.remapOption?, Option.map_eq_some_iff] at hr
    obtain ⟨r, hr, rfl⟩ := hr
    exact (recalls_importSig sig hr).bind (.pure _)

/-! ## Members and operands -/

theorem recalls_importMemberRef {id : MemberRefId} {c : Counterpart}
    (h : s.map.memberRefOf? m id = some c) : Recalls s (importMemberRef ctx m id) c := by
  refine .ofMap_bind ?_
  rw [h]
  exact .pure c

theorem recalls_readMemberRef {α : Type} {id : MemberRefId} {c : Counterpart} {symbol : String}
    {read : Counterpart → Option α} {r : α} (hc : s.map.memberRefOf? m id = some c)
    (hr : read c = some r) :
    Recalls s (do orUnknown ctx m symbol (read (← importMemberRef ctx m id))) r :=
  (recalls_importMemberRef hc).bind (.orUnknown hr)

theorem recalls_importMethodHandle {handle r : MethodHandle}
    (hr : s.map.remapMethod? m handle = some r) :
    Recalls s (importMethodHandle ctx m handle) r := by
  cases handle with
  | definition id => exact .ofMap_bind (.orUnknown hr)
  | reference id => exact recalls_readMemberRef (SymbolMap.remapMethod?_eq_some.mp hr) rfl

theorem recalls_importFieldHandle {handle r : FieldHandle}
    (hr : s.map.remapField? m handle = some r) : Recalls s (importFieldHandle ctx m handle) r := by
  cases handle with
  | definition id => exact .ofMap_bind (.orUnknown hr)
  | reference id => exact recalls_readMemberRef (SymbolMap.remapField?_eq_some.mp hr) rfl

theorem recalls_importOperand {operand r : Operand}
    (hr : s.map.remapOperand? m operand = some r) : Recalls s (importOperand ctx m operand) r := by
  cases operand with
  | type sig =>
    simp only [SymbolMap.remapOperand?, Option.map_eq_some_iff] at hr
    obtain ⟨t, ht, rfl⟩ := hr
    exact (recalls_importSig sig ht).bind (.pure _)
  | method handle =>
    simp only [SymbolMap.remapOperand?, Option.map_eq_some_iff] at hr
    obtain ⟨t, ht, rfl⟩ := hr
    exact (recalls_importMethodHandle ht).bind (.pure _)
  | field handle =>
    simp only [SymbolMap.remapOperand?, Option.map_eq_some_iff] at hr
    obtain ⟨t, ht, rfl⟩ := hr
    exact (recalls_importFieldHandle ht).bind (.pure _)
  | signature sig =>
    simp only [SymbolMap.remapOperand?, Option.bind_eq_bind, Option.bind_eq_some_iff] at hr
    obtain ⟨ps, hps, rt, hrt, hr⟩ := hr
    cases hr
    exact (recalls_importSigs sig.params hps).bind ((recalls_importSig? hrt).bind (.pure _))
  | none | int32 _ | int64 _ | float64 _ | string _ | branch _ | switch _ | «local» _
    | argument _ =>
    cases hr
    exact .pure _

/-! ## Types as a whole

What has been filled in or copied is on a list and is not gone through again. -/

theorem recalls_populate {id : TypeId} (h : (m, id) ∈ s.populated) :
    Recalls s (populate ctx m id) () := by
  refine .get_bind ?_
  rw [List.contains_iff_mem.mpr h]
  exact .pure ()

theorem recalls_copyBody {id : MethodId} (h : (m, id) ∈ s.copied) :
    Recalls s (copyBody ctx m id) () := by
  refine .get_bind ?_
  rw [List.contains_iff_mem.mpr h]
  exact .pure ()

theorem recalls_importType {p : Pending} {t : TypeId} (ht : s.map.typeOf? m p.type = some t)
    (hvisited : (m, p.type) ∈ s.populated) : Recalls s (importType ctx m p) t := by
  have hdeclared : Recalls s
      (deciding ctx m (fun s s' ↦ s.listedSince s' ctx m) fun s ↦ s.declare ctx m p) t :=
    .deciding [] (declare_eq_of_typeOf? ht) (List.forall_mem_nil _)
  exact hdeclared.bind ((recalls_populate hvisited).bind (.pure t))

theorem recalls_declareModule
    (h : ∀ id ∈ (ctx.module m).topLevelTypes, ctx.decides m id = true
      ∧ ∃ t, s.map.typeOf? m id = some t) :
    Recalls s (declareModule ctx m) () := by
  refine .forM fun id hid ↦ ?_
  obtain ⟨hdecides, t, ht⟩ := h id hid
  have hdeclare : s.declare ctx m ⟨id, none, ctx.internalizesType m id⟩ = (t, s) :=
    declare_eq_of_typeOf? ht
  exact .deciding [id] (congrArg (fun r : TypeId × ImportState ↦ ((), r.2)) hdeclare)
    (by simpa using hdecides)

end Import

end ModuleLinker

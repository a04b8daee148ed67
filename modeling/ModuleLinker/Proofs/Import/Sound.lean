import ModuleLinker.Proofs.Import.Step

/-!
# Sound states

The output of an import is linked, closed and free of repeated references at every moment, not just
at the end. What makes this go through is that the symbol map never holds an id that the output does
not have: everything that is stored in the output comes out of the map, or was made for it.
-/

namespace ModuleLinker

/-! ## The ids that a map brings in

Whatever the map makes of a signature or a body mentions ids of the output, and each of them
stands in some counterpart. So if all counterparts are entries of the output, so are these. -/

/-- The ids in what a member reference says about the member. -/
def MemberKind.ids : MemberKind → List (TableKind × Nat)
  | .method params ret => signatureIds params ret
  | .field type => type.ids

namespace SymbolMap

/-- An id occurs in a counterpart. -/
def Brings (s : SymbolMap) (x : TableKind × Nat) : Prop :=
  ∃ m symbol c, s.find? m symbol = some c ∧ x ∈ c.ids

variable {s : SymbolMap} {m : ModuleId}

mutual

theorem brings_sig : (sig : TypeSig) → {r : TypeSig} → s.remapSig? m sig = some r →
    ∀ x ∈ r.ids, s.Brings x
  | .definition id, r, hr, x, hx => by
    simp only [remapSig?, Option.map_eq_some_iff] at hr
    obtain ⟨target, ht, rfl⟩ := hr
    exact ⟨m, _, _, typeOf?_eq_some.mp ht, hx⟩
  | .reference id, r, hr, x, hx => ⟨m, _, _, typeRefOf?_eq_some.mp hr, hx⟩
  | .array element, r, hr, x, hx => by
    simp only [remapSig?, Option.map_eq_some_iff] at hr
    obtain ⟨e, he, rfl⟩ := hr
    exact brings_sig element he x hx
  | .generic base args, r, hr, x, hx => by
    simp only [remapSig?, Option.bind_eq_bind, Option.bind_eq_some_iff] at hr
    obtain ⟨b, hb, as, has, hr⟩ := hr
    cases hr
    rcases List.mem_append.mp hx with hx | hx
    · exact brings_sig base hb x hx
    · exact brings_sigsOf args has x hx

theorem brings_sigsOf : (sigs : List TypeSig) → {rs : List TypeSig} →
    s.remapSigs? m sigs = some rs → ∀ x ∈ TypeSig.idsOf rs, s.Brings x
  | [], rs, hrs, x, hx => by
    cases hrs
    cases hx
  | sig :: rest, rs, hrs, x, hx => by
    simp only [remapSigs?, Option.bind_eq_bind, Option.bind_eq_some_iff] at hrs
    obtain ⟨r, hr, rs', hrs', hcons⟩ := hrs
    cases hcons
    rcases List.mem_append.mp hx with hx | hx
    · exact brings_sig sig hr x hx
    · exact brings_sigsOf rest hrs' x hx

end

theorem brings_sigs {sigs rs : List TypeSig} (hrs : s.remapSigs? m sigs = some rs) :
    ∀ x ∈ rs.flatMap TypeSig.ids, s.Brings x := by
  rw [← TypeSig.idsOf_eq_flatMap]
  exact brings_sigsOf sigs hrs

theorem brings_option {sig r : Option TypeSig} (hr : s.remapOption? m sig = some r) :
    ∀ x ∈ r.toList.flatMap TypeSig.ids, s.Brings x := by
  cases sig with
  | none =>
    cases hr
    simp
  | some sig =>
    simp only [remapOption?, Option.map_eq_some_iff] at hr
    obtain ⟨r, hr, rfl⟩ := hr
    simpa using brings_sig sig hr

theorem brings_signature {params ps : List TypeSig} {ret rt : Option TypeSig}
    (hparams : s.remapSigs? m params = some ps) (hret : s.remapOption? m ret = some rt) :
    ∀ x ∈ signatureIds ps rt, s.Brings x := by
  intro x hx
  rw [signatureIds, List.flatMap_append] at hx
  rcases List.mem_append.mp hx with hx | hx
  · exact brings_sigs hparams x hx
  · exact brings_option hret x hx

theorem brings_memberKind {kind r : MemberKind} (hr : s.remapMemberKind? m kind = some r) :
    ∀ x ∈ r.ids, s.Brings x := by
  cases kind with
  | method params ret =>
    simp only [remapMemberKind?, Option.bind_eq_bind, Option.bind_eq_some_iff] at hr
    obtain ⟨ps, hps, rt, hrt, hr⟩ := hr
    cases hr
    exact brings_signature hps hrt
  | field type =>
    simp only [remapMemberKind?, Option.map_eq_some_iff] at hr
    obtain ⟨t, ht, rfl⟩ := hr
    exact brings_sig type ht

theorem brings_of_find? {symbol : Symbol} {c : Counterpart} (hc : s.find? m symbol = some c) :
    ∀ x ∈ c.ids, s.Brings x := fun _ hx ↦ ⟨m, symbol, c, hc, hx⟩

theorem brings_operand {operand r : Operand} (hr : s.remapOperand? m operand = some r) :
    ∀ x ∈ r.ids, s.Brings x := by
  cases operand with
  | type sig =>
    simp only [remapOperand?, Option.map_eq_some_iff] at hr
    obtain ⟨t, ht, rfl⟩ := hr
    exact brings_sig sig ht
  | method handle =>
    simp only [remapOperand?, Option.map_eq_some_iff] at hr
    obtain ⟨t, ht, rfl⟩ := hr
    exact brings_of_find? (remapMethod?_eq_some.mp ht)
  | field handle =>
    simp only [remapOperand?, Option.map_eq_some_iff] at hr
    obtain ⟨t, ht, rfl⟩ := hr
    exact brings_of_find? (remapField?_eq_some.mp ht)
  | signature sig =>
    simp only [remapOperand?, Option.bind_eq_bind, Option.bind_eq_some_iff] at hr
    obtain ⟨ps, hps, rt, hrt, hr⟩ := hr
    cases hr
    exact brings_signature hps hrt
  | none | int32 _ | int64 _ | float64 _ | string _ | branch _ | switch _ | «local» _
    | argument _ =>
    cases hr
    simp [Operand.ids]

theorem brings_body {b r : Body} (hr : s.remapBody? m b = some r) : ∀ x ∈ r.ids, s.Brings x := by
  simp only [remapBody?, Option.bind_eq_bind, Option.bind_eq_some_iff] at hr
  obtain ⟨is, his, ls, hls, hr⟩ := hr
  cases hr
  intro x hx
  rcases List.mem_append.mp hx with hx | hx
  · exact brings_sigs hls x hx
  · obtain ⟨i, hi, hx⟩ := List.mem_flatMap.mp hx
    obtain ⟨j, -, hj⟩ := exists_of_mem_mapM his hi
    simp only [remapInstruction?, Option.map_eq_some_iff] at hj
    obtain ⟨operand, ho, rfl⟩ := hj
    exact brings_operand ho x hx

end SymbolMap

/-! ## Sound states

The output alone cannot be shown to stay closed: what is put into it comes out of the map. So the
two are looked at together. -/

namespace ImportState

/-- The output is well formed, and the map only speaks of types of the inputs and of entries of the
output. -/
structure Sound (s : ImportState) (ctx : Context) : Prop where
  linked : Module.Linked s.target
  closed : Module.Closed s.target
  interned : s.target.Interned
  admits : ∀ {m symbol c}, s.map.find? m symbol = some c → symbol.Admits c
  has : ∀ {m symbol c}, s.map.find? m symbol = some c → ∀ x ∈ c.ids, s.target.Has x
  inputs : ∀ {m id t}, s.map.typeOf? m id = some t → id.index < (ctx.module m).types.length
  sources : ∀ {t m id}, (m, id) ∈ s.map.sourcesOf t ↔ s.map.typeOf? m id = some t

namespace Sound

variable {s s' : ImportState} {ctx : Context}

/-! ### Reading the map -/

theorem has_of_brings (h : s.Sound ctx) {x : TableKind × Nat} (hx : s.map.Brings x) :
    s.target.Has x := by
  obtain ⟨m, symbol, c, hc, hmem⟩ := hx
  exact h.has hc x hmem

theorem typeOf?_lt (h : s.Sound ctx) {m : ModuleId} {id t : TypeId}
    (ht : s.map.typeOf? m id = some t) : t.index < s.target.types.length :=
  h.has (SymbolMap.typeOf?_eq_some.mp ht) (.type, t.index) (by simp [Counterpart.ids,
    Counterpart.operand, Operand.ids, TypeSig.ids])

theorem methodOf?_lt (h : s.Sound ctx) {m : ModuleId} {id d : MethodId}
    (hd : s.map.methodOf? m id = some (.definition d)) : d.index < s.target.methods.length :=
  h.has (SymbolMap.methodOf?_eq_some.mp hd) (.method, d.index) (by simp [Counterpart.ids,
    Counterpart.operand, Operand.ids])

theorem find?_type_eq_none (h : s.Sound ctx) {m : ModuleId} {id : TypeId}
    (ht : s.map.typeOf? m id = none) : s.map.find? m (.type id) = none := by
  unfold SymbolMap.typeOf? at ht
  cases hc : s.map.find? m (.type id) with
  | none => rfl
  | some c =>
    have hadm := h.admits hc
    rcases c with (_ | _ | _ | _) | _ | _ <;> simp_all [Symbol.Admits]

theorem find?_typeRef_eq_none (h : s.Sound ctx) {m : ModuleId} {id : TypeRefId}
    (ht : s.map.typeRefOf? m id = none) : s.map.find? m (.typeRef id) = none := by
  unfold SymbolMap.typeRefOf? at ht
  cases hc : s.map.find? m (.typeRef id) with
  | none => rfl
  | some c =>
    have hadm := h.admits hc
    cases c <;> simp_all [Symbol.Admits]

theorem find?_field_eq_none (h : s.Sound ctx) {m : ModuleId} {id : FieldId}
    (ht : s.map.fieldOf? m id = none) : s.map.find? m (.field id) = none := by
  unfold SymbolMap.fieldOf? at ht
  cases hc : s.map.find? m (.field id) with
  | none => rfl
  | some c =>
    have hadm := h.admits hc
    cases c <;> simp_all [Symbol.Admits]

theorem find?_method_eq_none (h : s.Sound ctx) {m : ModuleId} {id : MethodId}
    (ht : s.map.methodOf? m id = none) : s.map.find? m (.method id) = none := by
  unfold SymbolMap.methodOf? at ht
  cases hc : s.map.find? m (.method id) with
  | none => rfl
  | some c =>
    have hadm := h.admits hc
    cases c <;> simp_all [Symbol.Admits]

theorem within (h : s.Sound ctx) {m : ModuleId} {p : Pending} (hfits : p.Fits ctx m s) :
    p.Within ctx m s where
  inRange := hfits.inRange
  container o ho := by
    obtain ⟨o', ho', -⟩ := hfits.inside ho
    exact h.typeOf?_lt ho'

/-! ### Ways to stay sound -/

theorem of_target (h : s.Sound ctx) {t : Target} (hl : Module.Linked t) (hc : Module.Closed t)
    (hi : t.Interned) (hg : Module.Grows s.target t) :
    ImportState.Sound { s with target := t } ctx :=
  ⟨hl, hc, hi, h.admits, fun hf x hx ↦ (h.has hf x hx).mono hg.within, h.inputs, h.sources⟩

theorem of_eq (h : s.Sound ctx) (ht : s'.target = s.target)
    (he : s'.map.entries = s.map.entries) (hs : s'.map.sources = s.map.sources) :
    s'.Sound ctx := by
  have hfind : ∀ m symbol, s'.map.find? m symbol = s.map.find? m symbol := fun m symbol ↦ by
    rw [SymbolMap.find?, he]
    rfl
  have htype : ∀ m id, s'.map.typeOf? m id = s.map.typeOf? m id := fun m id ↦ by
    rw [SymbolMap.typeOf?, hfind]
    rfl
  refine ⟨ht ▸ h.linked, ht ▸ h.closed, ht ▸ h.interned, fun hc ↦ h.admits (hfind _ _ ▸ hc),
    fun hc ↦ ht ▸ h.has (hfind _ _ ▸ hc), fun hc ↦ h.inputs (htype _ _ ▸ hc), fun {t m id} ↦ ?_⟩
  rw [htype, SymbolMap.sourcesOf, hs]
  exact h.sources

theorem record (h : s.Sound ctx) {m : ModuleId} {symbol : Symbol} {c : Counterpart}
    (hadm : symbol.Admits c) (hin : ∀ x ∈ c.ids, s.target.Has x) (hne : ∀ id, symbol ≠ .type id) :
    ImportState.Sound { s with map := s.map.record m symbol c } ctx := by
  have htype : ∀ m' id, (s.map.record m symbol c).typeOf? m' id = s.map.typeOf? m' id := by
    intro m' id
    rw [SymbolMap.typeOf?, SymbolMap.typeOf?, SymbolMap.find?_record_of_ne]
    intro heq
    exact hne id (congrArg Prod.snd heq).symm
  refine ⟨h.linked, h.closed, h.interned, fun hc' ↦ ?_, fun hc' ↦ ?_, fun ht ↦ ?_, ?_⟩
  · rcases SymbolMap.find?_record_cases hc' with hc' | ⟨heq, rfl⟩
    · exact h.admits hc'
    · cases heq
      exact hadm
  · rcases SymbolMap.find?_record_cases hc' with hc' | ⟨-, rfl⟩
    · exact h.has hc'
    · exact hin
  · exact h.inputs (htype _ _ ▸ ht)
  · intro t m' id
    change (m', id) ∈ s.map.sourcesOf t ↔ _
    rw [htype]
    exact h.sources

theorem addShell (h : s.Sound ctx) {shell : TypeDef} {container : Option TypeId}
    (hshell : shell.IsShell container)
    (hcont : ∀ o, container = some o → o.index < s.target.types.length) :
    ImportState.Sound { s with target := (s.target.addType shell).2 } ctx := by
  have hin : ∀ o, shell.declaring = some o → o.index < s.target.types.length :=
    fun o ho ↦ hcont o (hshell.declaring ho)
  refine h.of_target (h.linked.addType hin hshell.nested hshell.methods hshell.fields)
    (h.closed.addType hin fun x hx ↦ ?_) ?_ (.addType _ _)
  · -- all that it mentions is its container
    simp only [TypeDef.ids, hshell.base, hshell.interfaces, hshell.nested, hshell.fields,
      hshell.methods, List.map_nil, List.append_nil, Option.toList_none, List.flatMap_nil,
      List.mem_map, Option.mem_toList] at hx
    obtain ⟨o, ho, rfl⟩ := hx
    have hlt := hin o ho
    simp only [Module.Has, Module.tableSize, Module.length_types_addType]
    omega
  · rw [Module.addType_tables]
    exact h.interned.congr rfl rfl

theorem place (h : s.Sound ctx) {m : ModuleId} {p : Pending} (hin : p.Within ctx m s) :
    ImportState.Sound { s with target := (s.place ctx m p).2.target } ctx := by
  rcases s.place_cases ctx m p with hshares | ⟨shell, henters⟩
  · rw [hshares.target]
    exact h
  · rw [henters.target]
    exact h.addShell henters.isShell hin.container

theorem enter (h : s.Sound ctx) {m : ModuleId} {p : Pending}
    (hfresh : s.map.find? m (.type p.type) = none) (hin : p.Within ctx m s) :
    ImportState.Sound (s.declareOne ctx m p).2 ctx := by
  have hg : s.Grows (s.declareOne ctx m p).2 := grows_declareOne hfresh
  have hplace : (s.place ctx m p).1.index < (s.declareOne ctx m p).2.target.types.length := by
    rw [target_declareOne]
    rcases s.place_cases ctx m p with hshares | ⟨shell, henters⟩
    · rw [hshares.target]
      exact hshares.lt
    · simp [henters.target, henters.place]
  have htarget := h.place hin
  constructor
  case linked => exact target_declareOne ▸ htarget.linked
  case closed => exact target_declareOne ▸ htarget.closed
  case interned => exact target_declareOne ▸ htarget.interned
  case admits =>
    intro l symbol c hc
    rw [find?_declareOne hfresh] at hc
    split at hc
    · next heq =>
      cases heq
      cases hc
      trivial
    · exact h.admits hc
  case has =>
    intro l symbol c hc x hx
    rw [find?_declareOne hfresh] at hc
    split at hc
    · cases hc
      rw [List.mem_singleton.mp hx]
      exact hplace
    · exact (h.has hc x hx).mono hg.target.within
  case inputs =>
    intro l id t ht
    rcases (typeOf?_declareOne_iff hfresh).mp ht with ht | ⟨heq, -⟩
    · exact h.inputs ht
    · cases heq
      exact hin.inRange
  case sources =>
    -- the type was no source of anything, so it becomes one of its place
    intro t l id
    have hnot : (m, p.type) ∉ s.map.sourcesOf t := by
      rw [h.sources, SymbolMap.typeOf?, hfresh]
      simp
    rw [typeOf?_declareOne_iff hfresh, sourcesOf_declareOne, ← h.sources]
    by_cases ht : t = (s.place ctx m p).1
    · rw [if_pos ⟨ht, hnot⟩, List.mem_append, List.mem_singleton]
      simp [ht]
    · rw [if_neg fun hc ↦ ht hc.1]
      simp [ht]

theorem declareOne (h : s.Sound ctx) {m : ModuleId} {p : Pending}
    (hfresh : s.map.find? m (.type p.type) = none) (hfits : p.Fits ctx m s) :
    ImportState.Sound (s.declareOne ctx m p).2 ctx :=
  h.enter hfresh (h.within hfits)

/-- What one step keeps sound, a run keeps sound. -/
theorem of_steps {T : ImportState → ImportState → Prop}
    (hT : ∀ {s s'}, T s s' → s.Sound ctx → s'.Sound ctx)
    (hsteps : Relation.ReflTransGen T s s') (h : s.Sound ctx) : s'.Sound ctx := by
  induction hsteps with
  | refl => exact h
  | tail _ hstep ih => exact hT hstep ih

/-- What one step keeps where states are sound, a run keeps. -/
theorem keeps {T : ImportState → ImportState → Prop} {P : ImportState → Prop}
    (hT : ∀ {s s'}, T s s' → s.Sound ctx → s'.Sound ctx)
    (hP : ∀ {s s'}, T s s' → s.Sound ctx → P s → P s')
    (hsteps : Relation.ReflTransGen T s s') (h : s.Sound ctx) (hp : P s) : P s' := by
  induction hsteps with
  | refl => exact hp
  | tail hbefore hstep ih => exact hP hstep (of_steps hT hbefore h) ih

end Sound

end ImportState

/-! ## Steps keep a state sound

A step that puts something into the output says that the map has made it from something of an
input. What the map makes has ids of the output only, as it is sound before the step. -/

namespace Import

open ImportState (Sound)
open Relation (ReflTransGen)

variable {ctx : Context} {s s' : ImportState}

theorem DeclareStep.sound {m : ModuleId} (h : DeclareStep ctx m s s') (hs : s.Sound ctx) :
    s'.Sound ctx := by
  cases h with
  | declare hfresh hfits => exact hs.declareOne hfresh hfits

theorem DeclareStep.sound_steps {m : ModuleId} (h : ReflTransGen (DeclareStep ctx m) s s')
    (hs : s.Sound ctx) : s'.Sound ctx :=
  .of_steps DeclareStep.sound h hs

theorem PlaceStep.sound (h : PlaceStep ctx s s') (hs : s.Sound ctx) : s'.Sound ctx := by
  cases h with
  | declare h => exact DeclareStep.sound_steps h.steps hs
  | refer _ _ =>
    exact hs.of_target (Target.linked_referAssembly hs.linked _)
      (Target.closed_referAssembly hs.closed _) (hs.interned.referAssembly _)
      (Target.grows_referAssembly _ _)
  | intern hin =>
    exact hs.of_target (Target.linked_internTypeRef hs.linked hin)
      (Target.closed_internTypeRef hs.closed hin) (hs.interned.internTypeRef _)
      (Target.grows_internTypeRef _ _)

theorem SignStep.sound (h : SignStep ctx s s') (hs : s.Sound ctx) : s'.Sound ctx := by
  cases h with
  | place h => exact h.sound hs
  | resolve _ hin _ _ _ => exact hs.record trivial hin fun _ hne ↦ by cases hne

theorem UseStep.sound (h : UseStep ctx s s') (hs : s.Sound ctx) : s'.Sound ctx := by
  cases h with
  | sign h => exact h.sound hs
  | intern hin =>
    exact hs.of_target (Target.linked_internMemberRef hs.linked _)
      (Target.closed_internMemberRef hs.closed hin) (hs.interned.internMemberRef _)
      (Target.grows_internMemberRef _ _)
  | resolve _ hadm hin _ => exact hs.record hadm hin fun _ hne ↦ by cases hne

theorem FillStep.sound {m : ModuleId} (h : FillStep ctx m s s') (hs : s.Sound ctx) :
    s'.Sound ctx := by
  cases h with
  | sign h => exact h.sound hs
  | hierarchy hfirst hbase hinterfaces =>
    -- the ids of the new base and interfaces come out of the map
    refine hs.of_target ?_ ?_ (hs.interned.congr rfl rfl) (.updateType _ _ fun _ ↦ rfl)
    · exact hs.linked.updateType _ _ (fun _ ↦ rfl) (fun _ ↦ rfl) (fun _ ↦ rfl) fun _ ↦ rfl
    · refine hs.closed.updateType _ fun d _ x hx ↦ ?_
      rcases List.mem_append.mp hx with hx | hx
      · exact .inl (List.mem_append_left _ hx)
      · rw [List.flatMap_append] at hx
        rcases List.mem_append.mp hx with hx | hx
        · exact .inr (hs.has_of_brings (SymbolMap.brings_option hbase x hx))
        · exact .inr (hs.has_of_brings (SymbolMap.brings_sigs hinterfaces x hx))
  | shareField _ hlisted hfound =>
    refine hs.record trivial (fun x hx ↦ ?_) fun _ hne ↦ by cases hne
    rw [List.mem_singleton.mp hx]
    exact (hs.linked.mem_fields.mp (List.mem_of_find?_eq_some hfound)).1
  | @addField id owner t fieldType _ hlisted _ htype =>
    let d : FieldDef := { (ctx.module m).field id with fieldType, declaring := t }
    have hin : d.declaring.index < s.target.types.length := hs.typeOf?_lt hlisted.place
    have hids : ∀ x ∈ d.ids, s.target.Has x := by
      intro x hx
      rcases List.mem_cons.mp hx with rfl | hx
      · exact hin
      · exact hs.has_of_brings (SymbolMap.brings_sig _ htype x hx)
    have hadded := hs.of_target (hs.linked.addField hin) (hs.closed.addField hids)
      (hs.interned.congr rfl rfl) (.addField _ d)
    refine hadded.record trivial (fun x hx ↦ ?_) fun _ hne ↦ by cases hne
    rw [List.mem_singleton.mp hx]
    simp [Module.Has, Module.tableSize]
  | shareMethod _ hlisted _ _ _ hfound =>
    refine hs.record trivial (fun x hx ↦ ?_) fun _ hne ↦ by cases hne
    rw [List.mem_singleton.mp hx]
    exact (hs.linked.mem_methods.mp (List.mem_of_find?_eq_some hfound)).1
  | @addMethod id owner t params ret _ hlisted _ hparams hret _ =>
    let d : MethodDef :=
      { (ctx.module m).method id with params, ret, body := none, declaring := t }
    have hin : d.declaring.index < s.target.types.length := hs.typeOf?_lt hlisted.place
    have hids : ∀ x ∈ d.ids, s.target.Has x := by
      intro x hx
      rcases List.mem_append.mp hx with hx | hx
      · rcases List.mem_cons.mp hx with rfl | hx
        · exact hin
        · exact hs.has_of_brings (SymbolMap.brings_signature hparams hret x hx)
      · cases hx
    have hadded := hs.of_target (hs.linked.addMethod hin) (hs.closed.addMethod hids)
      (hs.interned.congr rfl rfl) (.addMethod _ d)
    have hnoted : ImportState.Sound { s with
        target := (s.target.addMethod d).2
        map := s.map.recordMethodOrigin ⟨s.target.methods.length⟩ m } ctx :=
      hadded.of_eq rfl rfl rfl
    refine hnoted.record trivial (fun x hx ↦ ?_) fun _ hne ↦ by cases hne
    rw [List.mem_singleton.mp hx]
    simp [Module.Has, Module.tableSize]

theorem ShapeStep.sound (h : ShapeStep ctx s s') (hs : s.Sound ctx) : s'.Sound ctx := by
  cases h with
  | fill h => exact h.sound hs
  | visit _ _ => exact hs.of_eq rfl rfl rfl

theorem CopyStep.sound (h : CopyStep ctx s s') (hs : s.Sound ctx) : s'.Sound ctx := by
  cases h with
  | use h => exact h.sound hs
  | visit _ _ => exact hs.of_eq rfl rfl rfl
  | setBody _ _ _ hbody =>
    exact hs.of_target (hs.linked.updateMethod _ _ fun _ ↦ rfl)
      (hs.closed.setBody _ fun x hx ↦ hs.has_of_brings (SymbolMap.brings_body hbody x hx))
      (hs.interned.congr rfl rfl) (.updateMethod _ _ fun _ ↦ rfl)

theorem Step.sound (h : Step ctx s s') (hs : s.Sound ctx) : s'.Sound ctx := by
  cases h with
  | shape h => exact h.sound hs
  | copy h => exact h.sound hs

end Import

end ModuleLinker

import ModuleLinker.Proofs.Import.Entries

/-!
# Members and operands

A member of an input type is mapped once, onto a member of the type's place. An operand becomes what
the map makes of it; member references that it needs are entered on the way.

What the body of one method needs cannot disturb another method, which is what copying the bodies
one after the other relies on.
-/

namespace ModuleLinker

open Relation (ReflTransGen)

namespace Import

variable {ctx : Context} {s s' : ImportState} {m : ModuleId}

/-! ## The ids of a member stand inside its module -/

section Accepted

variable (hctx : ctx.registry.Accepted)
include hctx

theorem field_lt {owner : TypeId} {id : FieldId}
    (h : id ∈ ((ctx.module m).typeDef owner).fields) : id.index < (ctx.module m).fields.length := by
  have hclosed := Module.closed_of_accepted (Context.fault?_module hctx m)
  by_cases howner : owner.index < (ctx.module m).types.length
  · refine hclosed.types _ (Module.typeDef_mem howner) (.field, id.index) ?_
    simp only [TypeDef.ids, List.mem_append, List.mem_map]
    exact .inl (.inl (.inr ⟨id, h, rfl⟩))
  · rw [Module.typeDef_of_not_lt howner] at h
    cases h

theorem method_lt {owner : TypeId} {id : MethodId}
    (h : id ∈ ((ctx.module m).typeDef owner).methods) :
    id.index < (ctx.module m).methods.length := by
  have hclosed := Module.closed_of_accepted (Context.fault?_module hctx m)
  by_cases howner : owner.index < (ctx.module m).types.length
  · refine hclosed.types _ (Module.typeDef_mem howner) (.method, id.index) ?_
    simp only [TypeDef.ids, List.mem_append, List.mem_map]
    exact .inl (.inr ⟨id, h, rfl⟩)
  · rw [Module.typeDef_of_not_lt howner] at h
    cases h

theorem field_has {id : FieldId} (hid : id.index < (ctx.module m).fields.length) :
    ∀ x ∈ ((ctx.module m).field id).ids, (ctx.module m).Has x :=
  (Module.closed_of_accepted (Context.fault?_module hctx m)).fields _ (Module.field_mem hid)

theorem method_has {id : MethodId} (hid : id.index < (ctx.module m).methods.length) :
    ∀ x ∈ ((ctx.module m).method id).ids, (ctx.module m).Has x :=
  (Module.closed_of_accepted (Context.fault?_module hctx m)).methods _ (Module.method_mem hid)

theorem body_has {id : MethodId} (hid : id.index < (ctx.module m).methods.length) {body : Body}
    (hbody : ((ctx.module m).method id).body = some body) : ∀ x ∈ body.ids, (ctx.module m).Has x :=
  (Module.closed_of_accepted (Context.fault?_module hctx m)).has_of_body hid hbody

/-! ## Members -/

theorem reaches_importField (hs : s.Sound ctx) {id : FieldId} {owner t : TypeId}
    (hlisted : Listed ctx s m owner t fun d ↦ id ∈ d.fields) :
    Reaches (FillStep ctx m) s (importField ctx m id t) fun _ s' ↦
      EntersInOrder ctx m [.field id] s s' := by
  have hid := field_lt hctx hlisted.listed
  unfold importField
  refine .ofMap_bind ?_
  cases hold : s.map.fieldOf? m id with
  | some handle =>
    refine .pure (.singleton trivial .refl ?_ fun _ ↦ rfl)
    simp [SymbolMap.fieldOf?_eq_some.mp hold]
  | none =>
    have hfresh := hs.find?_field_eq_none hold
    refine .ofTarget_bind ?_
    cases hfound : s.target.findField? t ((ctx.module m).field id).name with
    | some place =>
      have hstep : FillStep ctx m s _ := .shareField hfresh hlisted hfound
      refine .run_bind rfl .refl (.modifyMap (.single hstep) ?_)
      refine .singleton trivial (.single hstep) ?_ fun hne ↦ SymbolMap.find?_record_of_ne hne _
      simp [SymbolMap.find?_record_self hfresh]
    | none =>
      have hin : ∀ x ∈ ((ctx.module m).field id).fieldType.ids, (ctx.module m).Has x :=
        fun x hx ↦ field_has hctx hid x (List.mem_cons_of_mem _ hx)
      refine .bind ((reaches_importSig hctx _ hs hin).lift
        fun _ _ ↦ .sign) fun fieldType s₁ _ h ↦ ?_
      obtain ⟨hs₁, htype⟩ := h
      -- its type may have been placed just now, but no member has come or gone meanwhile
      have hsame := UseStep.sameMembers_steps (UseStep.of_signs hs₁)
      have hfresh₁ : s₁.map.find? m (.field id) = none := by rw [hsame.fieldEntries, hfresh]
      have hlisted₁ : Listed ctx s₁ m owner t fun d ↦ id ∈ d.fields :=
        ⟨(SignStep.grows_steps hs₁).map.typeOf? hlisted.place, hlisted.listed⟩
      have hnone₁ : s₁.target.findField? t ((ctx.module m).field id).name = none := by
        rw [hsame.findField? (hs.typeOf?_lt hlisted.place), hfound]
      have hstep : FillStep ctx m s₁ _ := .addField hfresh₁ hlisted₁ hnone₁ htype
      refine .run rfl (.single hstep) ((EntersInOrder.of_signs hs₁).append ?_)
      refine .singleton trivial (.single hstep) ?_ fun hne ↦ SymbolMap.find?_record_of_ne hne _
      simp [SymbolMap.find?_record_self hfresh₁]

theorem reaches_importMethod (hs : s.Sound ctx) {id : MethodId} {owner t : TypeId}
    (hlisted : Listed ctx s m owner t fun d ↦ id ∈ d.methods)
    (hkept : isFoldedLater ctx m owner id = false) :
    Reaches (FillStep ctx m) s (importMethod ctx m id t) fun _ s' ↦
      EntersInOrder ctx m [.method id] s s' := by
  have hid := method_lt hctx hlisted.listed
  unfold importMethod
  refine .ofMap_bind ?_
  cases hold : s.map.methodOf? m id with
  | some handle =>
    refine .pure (.singleton trivial .refl ?_ fun _ ↦ rfl)
    simp [SymbolMap.methodOf?_eq_some.mp hold]
  | none =>
    have hfresh := hs.find?_method_eq_none hold
    have hin : ∀ x ∈ signatureIds ((ctx.module m).method id).params ((ctx.module m).method id).ret,
        (ctx.module m).Has x := fun x hx ↦
      method_has hctx hid x (List.mem_append_left _ (List.mem_cons_of_mem _ hx))
    refine reaches_importSignature hctx (fun _ _ ↦ .sign) hs hin fun params ret s₁ hs₁ hps hrt ↦ ?_
    have hsame := UseStep.sameMembers_steps (UseStep.of_signs hs₁)
    have hfresh₁ : s₁.map.find? m (.method id) = none := by rw [hsame.methodEntries, hfresh]
    have hlisted₁ : Listed ctx s₁ m owner t fun d ↦ id ∈ d.methods :=
      ⟨(SignStep.grows_steps hs₁).map.typeOf? hlisted.place, hlisted.listed⟩
    refine .ofTarget_bind ?_
    cases hfound : s₁.target.findMethod? t ((ctx.module m).method id).name params ret with
    | some place =>
      have hstep : FillStep ctx m s₁ _ := .shareMethod hfresh₁ hlisted₁ hkept hps hrt hfound
      refine .run_bind rfl .refl (.modifyMap (.single hstep)
        ((EntersInOrder.of_signs hs₁).append ?_))
      refine .singleton trivial (.single hstep) ?_ fun hne ↦ SymbolMap.find?_record_of_ne hne _
      simp [SymbolMap.find?_record_self hfresh₁]
    | none =>
      have hstep : FillStep ctx m s₁ _ := .addMethod hfresh₁ hlisted₁ hkept hps hrt hfound
      refine .run rfl (.single hstep) ((EntersInOrder.of_signs hs₁).append ?_)
      refine .singleton trivial (.single hstep) ?_ fun hne ↦ SymbolMap.find?_record_of_ne hne _
      rw [SymbolMap.find?_record_self (s := s₁.map.recordMethodOrigin _ m) hfresh₁]
      exact Option.some_ne_none _

/-! ## References to members

A reference to a member of a type of the output is looked up among the members of the place, and
anything else becomes a reference of the output. Either way what it became has the name that it
asked for. -/

theorem memberRef_has {id : MemberRefId} (hid : id.index < (ctx.module m).memberRefs.length) :
    ∀ x ∈ ((ctx.module m).memberRef id).ids, (ctx.module m).Has x := by
  refine (Module.closed_of_accepted (Context.fault?_module hctx m)).memberRefs _ ?_
  rw [Module.memberRef, List.getD_eq_getElem _ _ hid]
  exact List.getElem_mem hid

theorem reaches_importMemberKind (hs : s.Sound ctx) (kind : MemberKind)
    (hin : ∀ x ∈ kind.ids, (ctx.module m).Has x) :
    Reaches (SignStep ctx) s (importMemberKind ctx m kind) fun r s' ↦
      s'.map.remapMemberKind? m kind = some r := by
  unfold importMemberKind
  cases kind with
  | method params ret =>
    refine reaches_importSignature hctx (fun _ _ h ↦ h) hs hin fun ps rt s₁ _ hps hrt ↦ .pure ?_
    simp [SymbolMap.remapMemberKind?, hps, hrt]
  | field type =>
    refine .bind (reaches_importSig hctx type hs hin) fun t s₁ _ ht ↦ .pure ?_
    simp [SymbolMap.remapMemberKind?, ht]

/-- A counterpart that a member reference may have: a member of the output, of its name. -/
structure Member (ctx : Context) (m : ModuleId) (id : MemberRefId) (c : Counterpart)
    (s : ImportState) : Prop where
  admits : (Symbol.memberRef id).Admits c
  inside : ∀ x ∈ c.ids, s.target.Has x
  name : c.memberName? s.target = some ((ctx.module m).memberRef id).name

/-- A reference to a member of a type of the output becomes a member that is there, of its name. -/
theorem reaches_importOwnMember (hs : s.Sound ctx) {id : MemberRefId}
    (hid : id.index < (ctx.module m).memberRefs.length) (owner : TypeId) :
    Reaches (SignStep ctx) s (importOwnMember ctx m id owner) fun c s' ↦ Member ctx m id c s' := by
  have hhas : ∀ x ∈ ((ctx.module m).memberRef id).kind.ids, (ctx.module m).Has x :=
    fun x hx ↦ memberRef_has hctx hid x (List.mem_append_right _ hx)
  unfold importOwnMember
  dsimp only
  cases hkind : ((ctx.module m).memberRef id).kind with
  | method params ret =>
    rw [hkind] at hhas
    refine reaches_importSignature hctx (fun _ _ h ↦ h) hs hhas fun ps rt s₁ hs₁ _ _ ↦ ?_
    refine .ofTarget_bind ?_
    cases hfound : s₁.target.findMethod? owner ((ctx.module m).memberRef id).name ps rt with
    | none => exact .unknown
    | some place =>
      refine .pure ⟨trivial, fun x hx ↦ ?_, ?_⟩
      · rw [List.mem_singleton.mp hx]
        exact ((SignStep.sound_steps hs₁ hs).linked.mem_methods.mp
          (List.mem_of_find?_eq_some hfound)).1
      · have hsame := List.find?_some hfound
        simp only [Bool.and_eq_true, decide_eq_true_eq] at hsame
        exact congrArg some hsame.1.1
  | field type =>
    refine .ofTarget_bind ?_
    cases hfound : s.target.findField? owner ((ctx.module m).memberRef id).name with
    | none => exact .unknown
    | some place =>
      refine .pure ⟨trivial, fun x hx ↦ ?_, ?_⟩
      · rw [List.mem_singleton.mp hx]
        exact (hs.linked.mem_fields.mp (List.mem_of_find?_eq_some hfound)).1
      · have hsame := List.find?_some hfound
        exact congrArg some (of_decide_eq_true hsame)

/-- A reference to a member of another type becomes a reference of the output, of its name. -/
theorem reaches_importOuterMember (hs : s.Sound ctx) {id : MemberRefId}
    (hid : id.index < (ctx.module m).memberRefs.length) {parent : TypeSig}
    (hparent : ∀ x ∈ parent.ids, s.target.Has x) :
    Reaches (UseStep ctx) s (importOuterMember ctx m id parent) fun c s' ↦
      Member ctx m id c s'
        ∧ ∀ r, s'.map.find? m (.memberRef r) = s.map.find? m (.memberRef r) := by
  have hhas : ∀ x ∈ ((ctx.module m).memberRef id).kind.ids, (ctx.module m).Has x :=
    fun x hx ↦ memberRef_has hctx hid x (List.mem_append_right _ hx)
  unfold importOuterMember
  refine .bind ((reaches_importMemberKind hctx hs _ hhas).lift fun _ _ ↦ .sign) fun kind s₁ _ h ↦ ?_
  obtain ⟨hs₁, hkind⟩ := h
  let r : MemberRef := { parent, name := ((ctx.module m).memberRef id).name, kind }
  have hin : ∀ x ∈ r.ids, s₁.target.Has x := by
    intro x hx
    rcases List.mem_append.mp hx with hx | hx
    · exact (hparent x hx).mono (SignStep.grows_steps hs₁).target.within
    · exact (SignStep.sound_steps hs₁ hs).has_of_brings (SymbolMap.brings_memberKind hkind x hx)
  refine .run_bind rfl (.single (.intern hin)) (.pure ⟨⟨?_, fun x hx ↦ ?_, ?_⟩, fun r' ↦ ?_⟩)
  · cases kind <;> trivial
  · have hmem : x = (.memberRef, (s₁.target.internMemberRef r).1.index) := by
      cases kind <;> exact List.mem_singleton.mp hx
    rw [hmem]
    exact s₁.target.index_internMemberRef r
  · have hname := congrArg MemberRef.name (s₁.target.memberRef_internMemberRef r)
    cases kind <;> exact congrArg some hname
  · exact SignStep.find?_memberRef_steps hs₁ m r'

theorem reaches_importMemberRef (hs : s.Sound ctx) {id : MemberRefId}
    (hid : id.index < (ctx.module m).memberRefs.length) :
    Reaches (UseStep ctx) s (importMemberRef ctx m id) fun c s' ↦
      s'.map.memberRefOf? m id = some c := by
  have hhas : ∀ x ∈ ((ctx.module m).memberRef id).parent.ids, (ctx.module m).Has x :=
    fun x hx ↦ memberRef_has hctx hid x (List.mem_append_left _ hx)
  unfold importMemberRef
  refine .ofMap_bind ?_
  cases hold : s.map.memberRefOf? m id with
  | some c => exact .pure hold
  | none =>
    refine .bind ((reaches_importSig hctx _ hs hhas).lift fun _ _ ↦ .sign) fun parent s₁ _ h ↦ ?_
    obtain ⟨hs₁, hparent⟩ := h
    have hsound₁ := SignStep.sound_steps hs₁ hs
    have hfresh₁ : s₁.map.find? m (.memberRef id) = none := by
      rw [SignStep.find?_memberRef_steps hs₁]
      exact hold
    -- neither way to find the member enters the reference itself
    have houter : Reaches (UseStep ctx) s₁ (importOuterMember ctx m id parent) fun c s₂ ↦
        Member ctx m id c s₂ ∧ s₂.map.find? m (.memberRef id) = none :=
      (reaches_importOuterMember hctx hsound₁ hid fun x hx ↦
        hsound₁.has_of_brings (SymbolMap.brings_sig _ hparent x hx)).imp
          fun c s₂ _ h ↦ ⟨h.1, (h.2 id).trans hfresh₁⟩
    have howner : ∀ owner, Reaches (UseStep ctx) s₁ (importOwnMember ctx m id owner) fun c s₂ ↦
        Member ctx m id c s₂ ∧ s₂.map.find? m (.memberRef id) = none := fun owner ↦
      ((reaches_importOwnMember hctx hsound₁ hid owner).lift fun _ _ ↦ .sign).imp
        fun c s₂ _ h ↦ ⟨h.2, (SignStep.find?_memberRef_steps h.1 m id).trans hfresh₁⟩
    have hrecord : ∀ c s₂, Member ctx m id c s₂ ∧ s₂.map.find? m (.memberRef id) = none →
        Reaches (UseStep ctx) s₂ (do
          modifyMap fun map ↦ map.record m (.memberRef id) c
          return c) fun c s' ↦ s'.map.memberRefOf? m id = some c := by
      intro c s₂ h
      refine .run_bind rfl (.single (.resolve h.2 h.1.admits h.1.inside h.1.name)) (.pure ?_)
      exact SymbolMap.find?_record_self h.2 c
    cases parent with
    | definition owner => exact .bind (howner owner) fun c s₂ _ h ↦ hrecord c s₂ h
    | reference _ | array _ | generic _ _ => exact .bind houter fun c s₂ _ h ↦ hrecord c s₂ h

/-! ## Operands and bodies

A handle is a definition of the module or a reference. In both cases the operand is read off the
entry that its symbol has by then. -/

theorem reaches_readMemberRef {α : Type} (hs : s.Sound ctx) {id : MemberRefId}
    (hid : id.index < (ctx.module m).memberRefs.length) (symbol : String)
    (read : Counterpart → Option α) :
    Reaches (UseStep ctx) s
      (do orUnknown ctx m symbol (read (← importMemberRef ctx m id))) fun r s' ↦
        ∃ c, s'.map.memberRefOf? m id = some c ∧ read c = some r :=
  .bind (reaches_importMemberRef hctx hs hid) fun c _ _ hc ↦ .orUnknown fun _ hr ↦ ⟨c, hc, hr⟩

theorem reaches_importMethodHandle (hs : s.Sound ctx) (handle : MethodHandle)
    (hin : ∀ x ∈ (Operand.method handle).ids, (ctx.module m).Has x) :
    Reaches (UseStep ctx) s (importMethodHandle ctx m handle) fun r s' ↦
      s'.map.remapMethod? m handle = some r := by
  cases handle with
  | definition id => exact .ofMap_bind (.orUnknown fun _ hr ↦ hr)
  | reference id =>
    refine (reaches_readMemberRef hctx hs (hin (.memberRef, id.index) (.head _)) _
      Counterpart.method?).imp fun r s' _ ⟨c, hc, hr⟩ ↦ ?_
    obtain rfl := Counterpart.method?_eq_some.mp hr
    exact SymbolMap.remapMethod?_eq_some.mpr hc

theorem reaches_importFieldHandle (hs : s.Sound ctx) (handle : FieldHandle)
    (hin : ∀ x ∈ (Operand.field handle).ids, (ctx.module m).Has x) :
    Reaches (UseStep ctx) s (importFieldHandle ctx m handle) fun r s' ↦
      s'.map.remapField? m handle = some r := by
  cases handle with
  | definition id => exact .ofMap_bind (.orUnknown fun _ hr ↦ hr)
  | reference id =>
    refine (reaches_readMemberRef hctx hs (hin (.memberRef, id.index) (.head _)) _
      Counterpart.field?).imp fun r s' _ ⟨c, hc, hr⟩ ↦ ?_
    obtain rfl := Counterpart.field?_eq_some.mp hr
    exact SymbolMap.remapField?_eq_some.mpr hc

theorem reaches_importOperand (hs : s.Sound ctx) (operand : Operand)
    (hin : ∀ x ∈ operand.ids, (ctx.module m).Has x) :
    Reaches (UseStep ctx) s (importOperand ctx m operand) fun r s' ↦
      s'.map.remapOperand? m operand = some r := by
  unfold importOperand
  cases operand with
  | type sig =>
    refine .bind ((reaches_importSig hctx sig hs hin).lift fun _ _ ↦ .sign) fun r s₁ _ h ↦ .pure ?_
    simp [SymbolMap.remapOperand?, h.2]
  | method handle =>
    refine .bind (reaches_importMethodHandle hctx hs handle hin) fun r s₁ _ h ↦ .pure ?_
    simp [SymbolMap.remapOperand?, h]
  | field handle =>
    refine .bind (reaches_importFieldHandle hctx hs handle hin) fun r s₁ _ h ↦ .pure ?_
    simp [SymbolMap.remapOperand?, h]
  | signature sig =>
    refine reaches_importSignature hctx (fun _ _ ↦ .sign) hs hin fun ps rt s₁ _ hps hrt ↦ .pure ?_
    simp [SymbolMap.remapOperand?, hps, hrt]
  | none | int32 _ | int64 _ | float64 _ | string _ | branch _ | switch _ | «local» _
    | argument _ =>
    exact .pure rfl

theorem reaches_importInstruction (hs : s.Sound ctx) (i : Instruction)
    (hin : ∀ x ∈ i.operand.ids, (ctx.module m).Has x) :
    Reaches (UseStep ctx) s (importInstruction ctx m i) fun r s' ↦
      s'.map.remapInstruction? m i = some r := by
  refine .bind (reaches_importOperand hctx hs i.operand hin) fun operand s₁ _ h ↦ .pure ?_
  simp [SymbolMap.remapInstruction?, h]

/-- A body becomes what the map makes of it. -/
theorem reaches_importBody (hs : s.Sound ctx) (b : Body)
    (hin : ∀ x ∈ b.ids, (ctx.module m).Has x) :
    Reaches (UseStep ctx) s (importBody ctx m b) fun r s' ↦ s'.map.remapBody? m b = some r := by
  unfold importBody
  have hinstructions : Reaches (UseStep ctx) s
      (b.instructions.mapM (importInstruction ctx m)) fun is s' ↦
        List.Forall₂ (fun i r ↦ s'.map.remapInstruction? m i = some r) b.instructions is := by
    refine .mapM (fun i r s₁ s₂ hs₁ h ↦ (UseStep.grows_steps hs₁).map.remapInstruction? h)
      fun i hi s₁ hs₁ ↦ ?_
    refine reaches_importInstruction hctx (UseStep.sound_steps hs₁ hs) i fun x hx ↦ ?_
    exact hin x (List.mem_append_right _ (List.mem_flatMap.mpr ⟨i, hi, hx⟩))
  refine .bind hinstructions fun is s₁ hs₁ his ↦ ?_
  have hlocals : ∀ x ∈ TypeSig.idsOf b.locals, (ctx.module m).Has x := by
    rw [TypeSig.idsOf_eq_flatMap]
    exact fun x hx ↦ hin x (List.mem_append_left _ hx)
  refine .bind ((reaches_importSigs hctx b.locals (UseStep.sound_steps hs₁ hs) hlocals).lift
    fun _ _ ↦ .sign) fun ls s₂ hs₂ h ↦ .pure ?_
  have his' := (UseStep.grows_steps hs₂).map.remapInstructions? (mapM_eq_some_iff.mpr his)
  simp [SymbolMap.remapBody?, his', h.2]

end Accepted

end Import

end ModuleLinker

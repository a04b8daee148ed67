import ModuleLinker.Proofs.Import.Members

/-!
# Entries say what the source says

A field or a method of an input stands in the output under its own name, in the place of a type that
lists it, and a method has the parameters and the return type that the map makes of its own. Whoever
made a method of the output gave it the accessibility of its own. A reference leads where its name
says.

Each of these is true when the entry is made. Growth keeps it true, since what it speaks of is never
changed; the only thing left to look at in a step is the entry that the step makes.
-/

namespace ModuleLinker

open Relation (ReflTransGen)

namespace ImportState

/-- What a field of an input became: a field of its name, in the place of a type that lists it. -/
structure FieldImage (s : ImportState) (ctx : Context) (m : ModuleId) (id place : FieldId)
    (owner t : TypeId) : Prop where
  listed : Import.Listed ctx s m owner t fun d ↦ id ∈ d.fields
  inRange : place.index < s.target.fields.length
  name : (Module.field s.target place).name = ((ctx.module m).field id).name
  declaring : (Module.field s.target place).declaring = t

/-- What a method of an input became: a method of its name and signature, in the place of a type
that lists it. -/
structure MethodImage (s : ImportState) (ctx : Context) (m : ModuleId) (id place : MethodId)
    (owner t : TypeId) : Prop where
  listed : Import.Listed ctx s m owner t fun d ↦ id ∈ d.methods
  kept : Import.isFoldedLater ctx m owner id = false
  inRange : place.index < s.target.methods.length
  name : (Module.method s.target place).name = ((ctx.module m).method id).name
  params : s.map.remapSigs? m ((ctx.module m).method id).params
    = some (Module.method s.target place).params
  ret : s.map.remapOption? m ((ctx.module m).method id).ret
    = some (Module.method s.target place).ret
  declaring : (Module.method s.target place).declaring = t

/-- The module that made a method of the output has a method for it, with the same accessibility. -/
structure Maker (s : ImportState) (ctx : Context) (m : ModuleId) (id place : MethodId) : Prop where
  entry : s.map.methodOf? m id = some (.definition place)
  access : (Module.method s.target place).access = ((ctx.module m).method id).access
  isStatic : (Module.method s.target place).isStatic = ((ctx.module m).method id).isStatic

/-- Every entry says what the source says, and everything in the output has a source. -/
structure Faithful (s : ImportState) (ctx : Context) : Prop where
  fields : ∀ {m id handle}, s.map.fieldOf? m id = some handle →
    ∃ place owner t, handle = .definition place ∧ s.FieldImage ctx m id place owner t
  methods : ∀ {m id handle}, s.map.methodOf? m id = some handle →
    ∃ place owner t, handle = .definition place ∧ s.MethodImage ctx m id place owner t
  typeRefs : ∀ {m id sig}, s.map.typeRefOf? m id = some sig →
    s.Resolves ctx m ((ctx.module m).typeRef id) sig
  makers : ∀ {m place}, s.map.methodOrigin? place = some m → ∃ id, s.Maker ctx m id place
  made : ∀ place : MethodId, place.index < s.target.methods.length →
    ∃ m, s.map.methodOrigin? place = some m
  sourced : ∀ t : TypeId, t.index < s.target.types.length → s.map.sourcesOf t ≠ []

variable {s s' : ImportState} {ctx : Context} {m : ModuleId}

theorem FieldImage.mono {id place : FieldId} {owner t : TypeId}
    (h : s.FieldImage ctx m id place owner t) (hs : s.Grows s') :
    s'.FieldImage ctx m id place owner t where
  listed := ⟨hs.map.typeOf? h.listed.place, h.listed.listed⟩
  inRange := Nat.lt_of_lt_of_le h.inRange (hs.target.within .field)
  name := by rw [hs.target.field h.inRange, h.name]
  declaring := by rw [hs.target.field h.inRange, h.declaring]

theorem Grows.outside_eq (hs : s.Grows s') {place : MethodId}
    (h : place.index < s.target.methods.length) {β : Type} (f : MethodDef → β)
    (hf : ∀ d, f d.outside = f d) :
    f (Module.method s'.target place) = f (Module.method s.target place) := by
  rw [← hf, ← hf (Module.method s.target place), hs.target.method h]

theorem MethodImage.mono {id place : MethodId} {owner t : TypeId}
    (h : s.MethodImage ctx m id place owner t) (hs : s.Grows s') :
    s'.MethodImage ctx m id place owner t where
  listed := ⟨hs.map.typeOf? h.listed.place, h.listed.listed⟩
  kept := h.kept
  inRange := Nat.lt_of_lt_of_le h.inRange (hs.target.within .method)
  name := (hs.outside_eq h.inRange MethodDef.name fun _ ↦ rfl).trans h.name
  params := by
    rw [hs.outside_eq h.inRange MethodDef.params fun _ ↦ rfl]
    exact hs.map.remapSigs? _ h.params
  ret := by
    rw [hs.outside_eq h.inRange MethodDef.ret fun _ ↦ rfl]
    exact hs.map.remapOption? h.ret
  declaring := (hs.outside_eq h.inRange MethodDef.declaring fun _ ↦ rfl).trans h.declaring

theorem Maker.mono {id place : MethodId} (h : s.Maker ctx m id place) (hs : s.Grows s')
    (hin : place.index < s.target.methods.length) : s'.Maker ctx m id place where
  entry := hs.map.methodOf? h.entry
  access := (hs.outside_eq hin MethodDef.access fun _ ↦ rfl).trans h.access
  isStatic := (hs.outside_eq hin MethodDef.isStatic fun _ ↦ rfl).trans h.isStatic

namespace Faithful

/-! ## Steps keep a state faithful

A state only grows, so what is known of an entry stays known. What is left to look at, for each
kind of step, are the entries that it makes: a reference, a field, or a method together with its
maker. -/

/-- What is left to look at when a state grows: entries and origins that were not there before. -/
theorem of_grows (h : s.Faithful ctx) (hsound : s.Sound ctx) (hs : s.Grows s')
    (hfields : ∀ {m id handle}, s'.map.fieldOf? m id = some handle →
      s.map.fieldOf? m id = some handle
        ∨ ∃ place owner t, handle = .definition place ∧ s'.FieldImage ctx m id place owner t)
    (hmethods : ∀ {m id handle}, s'.map.methodOf? m id = some handle →
      s.map.methodOf? m id = some handle
        ∨ ∃ place owner t, handle = .definition place ∧ s'.MethodImage ctx m id place owner t)
    (htypeRefs : ∀ {m id sig}, s'.map.typeRefOf? m id = some sig →
      s.map.typeRefOf? m id = some sig ∨ s'.Resolves ctx m ((ctx.module m).typeRef id) sig)
    (hmakers : ∀ {m place}, s'.map.methodOrigin? place = some m →
      s.map.methodOrigin? place = some m ∨ ∃ id, s'.Maker ctx m id place)
    (hmade : ∀ place : MethodId, place.index < s'.target.methods.length →
      place.index < s.target.methods.length ∨ ∃ m, s'.map.methodOrigin? place = some m)
    (hsourced : ∀ t : TypeId, t.index < s'.target.types.length →
      t.index < s.target.types.length ∨ s'.map.sourcesOf t ≠ []) : s'.Faithful ctx where
  fields hid := by
    rcases hfields hid with hold | hnew
    · obtain ⟨place, owner, t, heq, himage⟩ := h.fields hold
      exact ⟨place, owner, t, heq, himage.mono hs⟩
    · exact hnew
  methods hid := by
    rcases hmethods hid with hold | hnew
    · obtain ⟨place, owner, t, heq, himage⟩ := h.methods hold
      exact ⟨place, owner, t, heq, himage.mono hs⟩
    · exact hnew
  typeRefs hid := by
    rcases htypeRefs hid with hold | hnew
    · exact (h.typeRefs hold).mono hs
    · exact hnew
  makers ho := by
    rcases hmakers ho with hold | hnew
    · obtain ⟨id, hmaker⟩ := h.makers hold
      exact ⟨id, hmaker.mono hs (hsound.methodOf?_lt hmaker.entry)⟩
    · exact hnew
  made place hp := by
    rcases hmade place hp with hold | hnew
    · obtain ⟨m, hm⟩ := h.made place hold
      exact ⟨m, hs.origins hm⟩
    · exact hnew
  sourced t ht := by
    rcases hsourced t ht with hold | hnew
    · exact fun hnil ↦ h.sourced t hold (List.prefix_nil.mp (hnil ▸ hs.sources t))
    · exact hnew

theorem of_sameMembers (h : s.Faithful ctx) (hsound : s.Sound ctx) (hs : s.Grows s')
    (hsame : s.SameMembers s')
    (htypeRefs : ∀ {m id sig}, s'.map.typeRefOf? m id = some sig →
      s.map.typeRefOf? m id = some sig ∨ s'.Resolves ctx m ((ctx.module m).typeRef id) sig)
    (hsourced : ∀ t : TypeId, t.index < s'.target.types.length →
      t.index < s.target.types.length ∨ s'.map.sourcesOf t ≠ []) : s'.Faithful ctx := by
  refine h.of_grows hsound hs (fun {m id handle} hid ↦ .inl ?_) (fun {m id handle} hid ↦ .inl ?_)
    htypeRefs (fun ho ↦ .inl ?_) (fun place hp ↦ .inl ?_) hsourced
  · rwa [SymbolMap.fieldOf?_eq_some, hsame.fieldEntries, ← SymbolMap.fieldOf?_eq_some] at hid
  · rwa [SymbolMap.methodOf?_eq_some, hsame.methodEntries, ← SymbolMap.methodOf?_eq_some] at hid
  · rwa [hsame.origins] at ho
  · rwa [hsame.methods] at hp

theorem of_field (h : s.Faithful ctx) (hsound : s.Sound ctx) (hs : s.Grows s') {id place : FieldId}
    {owner t : TypeId}
    (hfind : ∀ l symbol, s'.map.find? l symbol
      = (s.map.record m (.field id) (.field (.definition place))).find? l symbol)
    (horigins : ∀ d, s'.map.methodOrigin? d = s.map.methodOrigin? d)
    (hmethods : s'.target.methods.length = s.target.methods.length)
    (htypes : s'.target.types.length = s.target.types.length)
    (himage : s'.FieldImage ctx m id place owner t) : s'.Faithful ctx := by
  have hother : ∀ l symbol, symbol ≠ .field id → s'.map.find? l symbol = s.map.find? l symbol := by
    intro l symbol hne
    rw [hfind, SymbolMap.find?_record_of_ne fun heq ↦ hne (congrArg Prod.snd heq)]
  refine h.of_grows hsound hs (fun {l i handle} hid ↦ ?_) (fun {l i handle} hid ↦ .inl ?_)
    (fun {l i sig} hid ↦ .inl ?_) (fun ho ↦ .inl (horigins _ ▸ ho))
    (fun _ hp ↦ .inl (hmethods ▸ hp)) fun _ ht ↦ .inl (htypes ▸ ht)
  · rw [SymbolMap.fieldOf?_eq_some, hfind] at hid
    rcases SymbolMap.find?_record_cases hid with hold | ⟨heq, hc⟩
    · exact .inl (SymbolMap.fieldOf?_eq_some.mpr hold)
    · cases heq
      cases hc
      exact .inr ⟨_, _, _, rfl, himage⟩
  · rw [SymbolMap.methodOf?_eq_some, hother l _ (by simp)] at hid
    exact SymbolMap.methodOf?_eq_some.mpr hid
  · rw [SymbolMap.typeRefOf?_eq_some, hother l _ (by simp)] at hid
    exact SymbolMap.typeRefOf?_eq_some.mpr hid

theorem of_method (h : s.Faithful ctx) (hsound : s.Sound ctx) (hs : s.Grows s')
    {id place : MethodId} {owner t : TypeId}
    (hfind : ∀ l symbol, s'.map.find? l symbol
      = (s.map.record m (.method id) (.method (.definition place))).find? l symbol)
    (htypes : s'.target.types.length = s.target.types.length)
    (himage : s'.MethodImage ctx m id place owner t)
    (hmakers : ∀ {l d}, s'.map.methodOrigin? d = some l →
      s.map.methodOrigin? d = some l ∨ ∃ i, s'.Maker ctx l i d)
    (hmade : ∀ d : MethodId, d.index < s'.target.methods.length →
      d.index < s.target.methods.length ∨ ∃ l, s'.map.methodOrigin? d = some l) :
    s'.Faithful ctx := by
  have hother : ∀ l symbol, symbol ≠ .method id → s'.map.find? l symbol = s.map.find? l symbol := by
    intro l symbol hne
    rw [hfind, SymbolMap.find?_record_of_ne fun heq ↦ hne (congrArg Prod.snd heq)]
  refine h.of_grows hsound hs (fun {l i handle} hid ↦ .inl ?_) (fun {l i handle} hid ↦ ?_)
    (fun {l i sig} hid ↦ .inl ?_) hmakers hmade fun _ ht ↦ .inl (htypes ▸ ht)
  · rw [SymbolMap.fieldOf?_eq_some, hother l _ (by simp)] at hid
    exact SymbolMap.fieldOf?_eq_some.mpr hid
  · rw [SymbolMap.methodOf?_eq_some, hfind] at hid
    rcases SymbolMap.find?_record_cases hid with hold | ⟨heq, hc⟩
    · exact .inl (SymbolMap.methodOf?_eq_some.mpr hold)
    · cases heq
      cases hc
      exact .inr ⟨_, _, _, rfl, himage⟩
  · rw [SymbolMap.typeRefOf?_eq_some, hother l _ (by simp)] at hid
    exact SymbolMap.typeRefOf?_eq_some.mpr hid

end Faithful

end ImportState

namespace Import

open ImportState

variable {ctx : Context} {s s' : ImportState} {m : ModuleId}

theorem DeclareStep.sourced (h : DeclareStep ctx m s s') {t : TypeId}
    (ht : t.index < s'.target.types.length) :
    t.index < s.target.types.length ∨ s'.map.sourcesOf t ≠ [] := by
  cases h with
  | @declare p hfresh _ =>
    by_cases hplace : t = (s.place ctx m p).1
    · refine .inr ?_
      rw [sourcesOf_declareOne]
      by_cases hmem : (m, p.type) ∈ s.map.sourcesOf t
      · rw [if_neg fun hc ↦ hc.2 hmem]
        exact List.ne_nil_of_mem hmem
      · rw [if_pos ⟨hplace, hmem⟩]
        simp
    · rw [target_declareOne] at ht
      rcases s.place_cases ctx m p with hshares | ⟨shell, henters⟩
      · exact .inl (hshares.target ▸ ht)
      · rw [henters.target, Module.length_types_addType] at ht
        have hne : t.index ≠ s.target.types.length := fun he ↦
          hplace (henters.place.symm ▸ congrArg TypeId.mk he)
        exact .inl (by omega)

theorem DeclareStep.sourced_steps (h : ReflTransGen (DeclareStep ctx m) s s') {t : TypeId}
    (ht : t.index < s'.target.types.length) :
    t.index < s.target.types.length ∨ s'.map.sourcesOf t ≠ [] := by
  induction h with
  | refl => exact .inl ht
  | tail _ hstep ih =>
    rcases hstep.sourced ht with hold | hnew
    · refine (ih hold).imp_right fun hne hnil ↦ hne ?_
      exact List.prefix_nil.mp (hnil ▸ hstep.grows.sources t)
    · exact .inr hnew

theorem PlaceStep.faithful (h : PlaceStep ctx s s') (hs : s.Sound ctx) (hf : s.Faithful ctx) :
    s'.Faithful ctx := by
  refine hf.of_sameMembers hs h.grows h.sameMembers (fun {l id sig} hid ↦ .inl ?_)
    fun t ht ↦ ?_
  · rwa [SymbolMap.typeRefOf?_eq_some, h.find?_typeRef, ← SymbolMap.typeRefOf?_eq_some] at hid
  · cases h with
    | declare h => exact DeclareStep.sourced_steps h.steps ht
    | refer _ _ =>
      rw [Target.referAssembly_tables] at ht
      exact .inl ht
    | @intern r _ =>
      rcases s.target.internTypeRef_cases r with ⟨heq, -⟩ | ⟨-, heq⟩
      · exact .inl (heq ▸ ht)
      · rw [heq] at ht
        exact .inl ht

theorem SignStep.faithful (h : SignStep ctx s s') (hs : s.Sound ctx) (hf : s.Faithful ctx) :
    s'.Faithful ctx := by
  cases h with
  | place h => exact h.faithful hs hf
  | resolve hfresh hin hmeans hfinds hcovers =>
    have hstep := SignStep.resolve hfresh hin hmeans hfinds hcovers
    refine hf.of_sameMembers hs hstep.grows hstep.sameMembers (fun {l id sig} hid ↦ ?_)
      fun t ht ↦ .inl ht
    rcases SymbolMap.find?_record_cases (SymbolMap.typeRefOf?_eq_some.mp hid) with hold | ⟨heq, hc⟩
    · exact .inl (SymbolMap.typeRefOf?_eq_some.mpr hold)
    · cases heq
      cases hc
      exact .inr (hmeans.mono hstep.grows)

theorem UseStep.faithful (h : UseStep ctx s s') (hs : s.Sound ctx) (hf : s.Faithful ctx) :
    s'.Faithful ctx := by
  have hstep := h
  cases h with
  | sign h => exact h.faithful hs hf
  | @intern r _ =>
    refine hf.of_sameMembers hs hstep.grows hstep.sameMembers (fun hid ↦ .inl hid)
      fun t ht ↦ .inl ?_
    rcases s.target.internMemberRef_cases r with ⟨heq, -⟩ | ⟨-, heq⟩
    · exact heq ▸ ht
    · rw [heq] at ht
      exact ht
  | resolve _ _ _ _ =>
    refine hf.of_sameMembers hs hstep.grows hstep.sameMembers (fun {l id sig} hid ↦ .inl ?_)
      fun t ht ↦ .inl ht
    exact (SymbolMap.typeRefOf?_record_of_ne (by simp)).symm.trans hid

theorem fieldImage_of_found (hs : s.Sound ctx) {id place : FieldId} {owner t : TypeId}
    (hlisted : Listed ctx s m owner t fun d ↦ id ∈ d.fields)
    (hfound : s.target.findField? t ((ctx.module m).field id).name = some place) :
    s.FieldImage ctx m id place owner t := by
  obtain ⟨hin, hdecl⟩ := hs.linked.mem_fields.mp (List.mem_of_find?_eq_some hfound)
  exact ⟨hlisted, hin, by simpa using List.find?_some hfound, hdecl⟩

theorem methodImage_of_found (hs : s.Sound ctx) {id place : MethodId} {owner t : TypeId}
    {params : List TypeSig} {ret : Option TypeSig}
    (hlisted : Listed ctx s m owner t fun d ↦ id ∈ d.methods)
    (hkept : isFoldedLater ctx m owner id = false)
    (hparams : s.map.remapSigs? m ((ctx.module m).method id).params = some params)
    (hret : s.map.remapOption? m ((ctx.module m).method id).ret = some ret)
    (hfound : s.target.findMethod? t ((ctx.module m).method id).name params ret = some place) :
    s.MethodImage ctx m id place owner t := by
  obtain ⟨hin, hdecl⟩ := hs.linked.mem_methods.mp (List.mem_of_find?_eq_some hfound)
  have hsame := List.find?_some hfound
  simp only [Bool.and_eq_true, decide_eq_true_eq] at hsame
  exact ⟨hlisted, hkept, hin, hsame.1.1, by rw [hparams, hsame.1.2], by rw [hret, hsame.2], hdecl⟩

theorem FillStep.faithful (h : FillStep ctx m s s') (hs : s.Sound ctx) (hf : s.Faithful ctx) :
    s'.Faithful ctx := by
  have hg := h.grows
  cases h with
  | sign h => exact h.faithful hs hf
  | hierarchy _ _ _ =>
    exact hf.of_grows hs hg (fun hid ↦ .inl hid) (fun hid ↦ .inl hid) (fun hid ↦ .inl hid)
      (fun ho ↦ .inl ho) (fun _ hp ↦ .inl hp) fun _ ht ↦ .inl (by simpa using ht)
  | shareField _ hlisted hfound =>
    exact hf.of_field hs hg (fun _ _ ↦ rfl) (fun _ ↦ rfl) rfl rfl
      ((fieldImage_of_found hs hlisted hfound).mono hg)
  | addField _ hlisted _ _ =>
    refine hf.of_field hs hg (fun _ _ ↦ rfl) (fun _ ↦ rfl) rfl (by simp)
      ⟨⟨hg.map.typeOf? hlisted.place, hlisted.listed⟩, ?_, ?_, ?_⟩
    · simp
    · rw [Module.field_addField, if_pos rfl]
    · rw [Module.field_addField, if_pos rfl]
  | shareMethod _ hlisted hkept hparams hret hfound =>
    exact hf.of_method hs hg (fun _ _ ↦ rfl) rfl
      ((methodImage_of_found hs hlisted hkept hparams hret hfound).mono hg)
      (fun ho ↦ .inl ho) fun _ hp ↦ .inl hp
  | @addMethod id owner t params ret hfresh hlisted hkept hparams hret _ =>
    refine hf.of_method hs hg (fun _ _ ↦ rfl) (by simp)
      ⟨⟨hg.map.typeOf? hlisted.place, hlisted.listed⟩, hkept, ?_, ?_, ?_, ?_, ?_⟩
      (fun {l place} ho ↦ ?_) fun place hp ↦ ?_
    · simp
    · rw [Module.method_addMethod, if_pos rfl]
    · rw [Module.method_addMethod, if_pos rfl]
      exact hg.map.remapSigs? _ hparams
    · rw [Module.method_addMethod, if_pos rfl]
      exact hg.map.remapOption? hret
    · rw [Module.method_addMethod, if_pos rfl]
    · -- only the new method has a new maker, and that is the module at hand
      rcases SymbolMap.methodOrigin?_recordMethodOrigin_cases ho with hold | ⟨rfl, rfl⟩
      · exact .inl hold
      · refine .inr ⟨id, SymbolMap.methodOf?_eq_some.mpr ?_, ?_, ?_⟩
        · exact SymbolMap.find?_record_self (s := s.map.recordMethodOrigin _ _) hfresh _
        · rw [Module.method_addMethod, if_pos rfl]
        · rw [Module.method_addMethod, if_pos rfl]
    · simp only [Module.methods_addMethod, List.length_append, List.length_singleton] at hp
      rcases Nat.lt_succ_iff_lt_or_eq.mp hp with hlt | heq
      · exact .inl hlt
      · obtain rfl : place = ⟨s.target.methods.length⟩ := congrArg MethodId.mk heq
        have horigin := s.map.methodOrigin?_recordMethodOrigin ⟨s.target.methods.length⟩
          ⟨s.target.methods.length⟩ m
        rw [if_pos rfl] at horigin
        exact .inr ⟨_, horigin⟩

theorem ShapeStep.faithful (h : ShapeStep ctx s s') (hs : s.Sound ctx) (hf : s.Faithful ctx) :
    s'.Faithful ctx := by
  cases h with
  | fill h => exact h.faithful hs hf
  | visit _ _ =>
    exact hf.of_grows hs (.of_eq rfl rfl) (fun hid ↦ .inl hid) (fun hid ↦ .inl hid)
      (fun hid ↦ .inl hid) (fun ho ↦ .inl ho) (fun _ hp ↦ .inl hp) fun _ ht ↦ .inl ht

theorem CopyStep.faithful (h : CopyStep ctx s s') (hs : s.Sound ctx) (hf : s.Faithful ctx) :
    s'.Faithful ctx := by
  have hg := h.grows
  cases h with
  | use h => exact h.faithful hs hf
  | visit _ _ =>
    exact hf.of_grows hs hg (fun hid ↦ .inl hid) (fun hid ↦ .inl hid)
      (fun hid ↦ .inl hid) (fun ho ↦ .inl ho) (fun _ hp ↦ .inl hp) fun _ ht ↦ .inl ht
  | setBody _ _ _ _ =>
    exact hf.of_grows hs hg (fun hid ↦ .inl hid) (fun hid ↦ .inl hid) (fun hid ↦ .inl hid)
      (fun ho ↦ .inl ho) (fun _ hp ↦ .inl (by simpa using hp)) fun _ ht ↦ .inl ht

theorem Step.faithful (h : Step ctx s s') (hs : s.Sound ctx) (hf : s.Faithful ctx) :
    s'.Faithful ctx := by
  cases h with
  | shape h => exact h.faithful hs hf
  | copy h => exact h.faithful hs hf

theorem Step.grows_steps (h : ReflTransGen (Step ctx) s s') : s.Grows s' :=
  .of_steps (fun _ _ ↦ Step.grows) h

theorem Step.invariants (h : ReflTransGen (Step ctx) s s') (hs : s.Sound ctx)
    (hf : s.Faithful ctx) : s'.Sound ctx ∧ s'.Faithful ctx := by
  induction h with
  | refl => exact ⟨hs, hf⟩
  | tail _ hstep ih => exact ⟨hstep.sound ih.1, hstep.faithful ih.1 ih.2⟩

end Import

end ModuleLinker

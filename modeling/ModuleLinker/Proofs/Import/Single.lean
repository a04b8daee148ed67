import ModuleLinker.Proofs.Import.InOrder
import ModuleLinker.Proofs.Visibility

/-!
# An import of one module

Where the primary takes part alone, everything in the output was made for one of its types or
members. So the places of its types are all the types of the output, one each; and where members can
be told apart in the module and by what the map makes of their signatures, the same is true of
members. What is listed in a type corresponds to what is listed in its place, element by element.
-/

namespace ModuleLinker

/-- No two fields of a type have the same name. -/
def Module.FieldsDistinct (m : Module) : Prop :=
  ∀ t ∈ m.typeIds, ∀ f ∈ (m.typeDef t).fields, ∀ g ∈ (m.typeDef t).fields,
    (m.field f).name = (m.field g).name → f = g

instance (m : Module) : Decidable m.FieldsDistinct :=
  inferInstanceAs (Decidable (∀ _ ∈ _, _))

/-- No two methods of a type have the same name and what a map makes the same signature of. -/
def SymbolMap.MethodsDistinct (s : SymbolMap) (p : ModuleId) (m : Module) : Prop :=
  ∀ t ∈ m.typeIds, ∀ d ∈ (m.typeDef t).methods, ∀ e ∈ (m.typeDef t).methods,
    (m.method d).name = (m.method e).name →
    s.remapSigs? p (m.method d).params = s.remapSigs? p (m.method e).params →
    s.remapOption? p (m.method d).ret = s.remapOption? p (m.method e).ret → d = e

instance (s : SymbolMap) (p : ModuleId) (m : Module) : Decidable (s.MethodsDistinct p m) :=
  inferInstanceAs (Decidable (∀ _ ∈ _, _))

namespace Import

open ImportState

/-- The types of a primary have been imported that takes part alone; its links agree, and its types
have different names. -/
structure Single (ctx : Context) (p : ModuleId) (s : ImportState) : Prop where
  accepted : ctx.registry.Accepted
  primary : ctx.registry.primary? = some p
  only : ∀ {m : ModuleId}, m.index < ctx.registry.size → m = p
  links : (ctx.module p).LinksAgree
  names : (ctx.module p).NamesDistinct
  run : run ctx ctx.startImport = .ok () s

namespace Single

variable {ctx : Context} {p : ModuleId} {s : ImportState} (h : Single ctx p s)
include h

theorem imported : s.Imported ctx := imported_of_run h.accepted h.run

theorem leads : s.Leads ctx p :=
  leads_of_run h.accepted h.primary (h.links.mem_nested_iff h.accepted) h.names h.run

theorem mirrors : s.Mirrors ctx p :=
  (mirrors_of_run h.accepted (h.links.mem_nested_iff h.accepted) h.links.nodup_nested h.names
    h.primary h.run).1

theorem isFoldedLater_eq (id : TypeId) (d : MethodId) : isFoldedLater ctx p id d = false := by
  simp [isFoldedLater, Registry.isPrimary, h.primary]

/-! ## Types

Every place has a source, and with one module that takes part all sources are types of it that
have different names. So places and types correspond one to one. -/

theorem eq_of_typeOf? {m : ModuleId} {id t : TypeId} (ht : s.map.typeOf? m id = some t) : m = p :=
  h.only (Registry.lt_of_type (h.imported.sound.inputs ht))

theorem exists_typeOf? {t : TypeId} (ht : t.index < s.target.types.length) :
    ∃ id, s.map.typeOf? p id = some t := by
  obtain ⟨⟨m, id⟩, hmem⟩ := List.exists_mem_of_ne_nil _ (h.imported.faithful.sourced t ht)
  have hid := h.imported.sound.sources.mp hmem
  obtain rfl := h.eq_of_typeOf? hid
  exact ⟨id, hid⟩

theorem head?_sourcesOf {id t : TypeId} (ht : s.map.typeOf? p id = some t) :
    (s.map.sourcesOf t).head? = some (p, id) := by
  obtain ⟨t', ht', hfirst, -⟩ := h.leads id (h.imported.sound.inputs ht)
  cases ht'.symm.trans ht
  exact hfirst

theorem typeOf?_inj {i j t : TypeId} (hi : s.map.typeOf? p i = some t)
    (hj : s.map.typeOf? p j = some t) : i = j := by
  have heq := (h.head?_sourcesOf hi).symm.trans (h.head?_sourcesOf hj)
  simpa using heq

theorem mem_nested_iff {n n' o o' : TypeId} (hn : s.map.typeOf? p n = some n')
    (ho : s.map.typeOf? p o = some o') :
    n ∈ ((ctx.module p).typeDef o).nested ↔ n' ∈ (Module.typeDef s.target o').nested := by
  have hrel := (h.mirrors n n' hn).declaring
  rw [h.links.mem_nested_iff h.accepted, h.imported.sound.linked.mem_nested]
  constructor
  · rintro ⟨-, hdeclaring⟩
    rw [hdeclaring] at hrel
    obtain ⟨u, hu, hou⟩ := exists_of_rel hrel
    cases ho.symm.trans hou
    exact ⟨h.imported.sound.typeOf?_lt hn, hu⟩
  · rintro ⟨-, hdeclaring⟩
    rw [hdeclaring] at hrel
    cases hd : ((ctx.module p).typeDef n).declaring with
    | none =>
      rw [hd] at hrel
      cases hrel
    | some u =>
      rw [hd] at hrel
      cases hrel with
      | some hu => exact ⟨h.imported.sound.inputs hn, congrArg some (h.typeOf?_inj hu ho)⟩

/-! ## Fields -/

theorem fieldImage {f q : FieldId} (hf : s.map.fieldOf? p f = some (.definition q)) :
    s.FieldImage ctx p f q ((ctx.module p).field f).declaring
      (Module.field s.target q).declaring := by
  obtain ⟨place, owner, t, heq, himage⟩ := h.imported.faithful.fields hf
  cases heq
  rw [h.links.field_owner (field_lt h.accepted himage.listed.listed) himage.listed.listed,
    himage.declaring]
  exact himage

theorem eq_of_fieldOf? {m : ModuleId} {f q : FieldId}
    (hf : s.map.fieldOf? m f = some (.definition q)) : m = p := by
  obtain ⟨_, _, _, -, himage⟩ := h.imported.faithful.fields hf
  exact h.eq_of_typeOf? himage.listed.place

theorem exists_maker_of_field {q : FieldId} (hq : q.index < s.target.fields.length) :
    ∃ f, s.FieldMaker ctx p f q := by
  obtain ⟨m, f, hmaker⟩ := (membersMade_of_run h.accepted h.run).makers q hq
  obtain rfl := h.eq_of_fieldOf? hmaker.entry
  exact ⟨f, hmaker⟩

theorem fieldOf?_inj (hfields : (ctx.module p).FieldsDistinct) {f g q : FieldId}
    (hf : s.map.fieldOf? p f = some (.definition q))
    (hg : s.map.fieldOf? p g = some (.definition q)) : f = g := by
  have hf := h.fieldImage hf
  have hg := h.fieldImage hg
  have howner := h.typeOf?_inj hg.listed.place hf.listed.place
  have hmem := Module.mem_typeIds.mpr (h.imported.sound.inputs hf.listed.place)
  exact hfields _ hmem f hf.listed.listed g (howner ▸ hg.listed.listed)
    (hf.name.symm.trans hg.name)

theorem mem_fields_iff {f q : FieldId} {o o' : TypeId}
    (hf : s.map.fieldOf? p f = some (.definition q)) (ho : s.map.typeOf? p o = some o') :
    f ∈ ((ctx.module p).typeDef o).fields ↔ q ∈ (Module.typeDef s.target o').fields := by
  have himage := h.fieldImage hf
  rw [h.imported.sound.linked.mem_fields]
  constructor
  · intro hmem
    rw [← h.links.field_owner (field_lt h.accepted hmem) hmem] at ho
    exact ⟨himage.inRange, Option.some.inj (himage.listed.place.symm.trans ho)⟩
  · rintro ⟨-, rfl⟩
    rw [h.typeOf?_inj ho himage.listed.place]
    exact himage.listed.listed

/-! ## Methods

For methods the signatures count as well, as the finished map carries them over: two that differ
in the module may be the same in the output. -/

theorem methodImage {d q : MethodId} (hd : s.map.methodOf? p d = some (.definition q)) :
    s.MethodImage ctx p d q ((ctx.module p).method d).declaring
      (Module.method s.target q).declaring := by
  obtain ⟨place, owner, t, heq, himage⟩ := h.imported.faithful.methods hd
  cases heq
  rw [h.links.method_owner (method_lt h.accepted himage.listed.listed) himage.listed.listed,
    himage.declaring]
  exact himage

theorem eq_of_methodOf? {m : ModuleId} {d q : MethodId}
    (hd : s.map.methodOf? m d = some (.definition q)) : m = p := by
  obtain ⟨_, _, _, -, himage⟩ := h.imported.faithful.methods hd
  exact h.eq_of_typeOf? himage.listed.place

theorem exists_maker_of_method {q : MethodId} (hq : q.index < s.target.methods.length) :
    ∃ d, s.Maker ctx p d q := by
  obtain ⟨m, hm⟩ := h.imported.faithful.made q hq
  obtain ⟨d, hmaker⟩ := h.imported.faithful.makers hm
  obtain rfl := h.eq_of_methodOf? hmaker.entry
  exact ⟨d, hmaker⟩

/-- No two methods share a place, if what a later map makes of their signatures tells them apart. -/
theorem methodOf?_inj {map : SymbolMap} (hmap : s.map.Extends map)
    (hmethods : map.MethodsDistinct p (ctx.module p)) {d e q : MethodId}
    (hd : s.map.methodOf? p d = some (.definition q))
    (he : s.map.methodOf? p e = some (.definition q)) : d = e := by
  have hd := h.methodImage hd
  have he := h.methodImage he
  have howner := h.typeOf?_inj he.listed.place hd.listed.place
  have hmem := Module.mem_typeIds.mpr (h.imported.sound.inputs hd.listed.place)
  exact hmethods _ hmem d hd.listed.listed e (howner ▸ he.listed.listed)
    (hd.name.symm.trans he.name)
    ((hmap.remapSigs? _ hd.params).trans (hmap.remapSigs? _ he.params).symm)
    ((hmap.remapOption? hd.ret).trans (hmap.remapOption? he.ret).symm)

theorem mem_methods_iff {d q : MethodId} {o o' : TypeId}
    (hd : s.map.methodOf? p d = some (.definition q)) (ho : s.map.typeOf? p o = some o') :
    d ∈ ((ctx.module p).typeDef o).methods ↔ q ∈ (Module.typeDef s.target o').methods := by
  have himage := h.methodImage hd
  rw [h.imported.sound.linked.mem_methods]
  constructor
  · intro hmem
    rw [← h.links.method_owner (method_lt h.accepted hmem) hmem] at ho
    exact ⟨himage.inRange, Option.some.inj (himage.listed.place.symm.trans ho)⟩
  · rintro ⟨-, rfl⟩
    rw [h.typeOf?_inj ho himage.listed.place]
    exact himage.listed.listed

/-! ## Every symbol has a place -/

theorem links_all (m : ModuleId) : (ctx.module m).LinksAgree := by
  by_cases hm : m.index < ctx.registry.size
  · rw [h.only hm]
    exact h.links
  · rw [Context.module, Registry.module_of_not_lt hm]
    decide

theorem mem_ids : p ∈ ctx.registry.ids := Registry.mem_ids.mpr (Registry.primary?_lt h.primary)

theorem exists_fieldOf? {f : FieldId} (hf : f ∈ (ctx.module p).fieldIds) :
    ∃ q ∈ Module.fieldIds s.target, s.map.fieldOf? p f = some (.definition q) :=
  h.imported.fields h.accepted h.links_all h.mem_ids hf

theorem exists_methodOf? {d : MethodId} (hd : d ∈ (ctx.module p).methodIds) :
    ∃ q ∈ Module.methodIds s.target, s.map.methodOf? p d = some (.definition q) := by
  refine h.imported.methods h.accepted h.links_all h.mem_ids hd fun hlater ↦ ?_
  have hnot := (Registry.mem_secondaries.mp hlater.2.2).2
  simp [Registry.isPrimary, h.primary] at hnot

/-! ## What is listed corresponds -/

section Listed

variable {o o' : TypeId} (ho : s.map.typeOf? p o = some o')
include ho

theorem forall₂_nested : List.Forall₂ (fun n n' ↦ s.map.typeOf? p n = some n')
    ((ctx.module p).typeDef o).nested (Module.typeDef s.target o').nested := by
  have hasc := (mirrors_of_run h.accepted (h.links.mem_nested_iff h.accepted)
    h.links.nodup_nested h.names h.primary h.run).2 o
  refine hasc.forall₂ (h.imported.sound.linked.pairwise_nested o')
    (fun ht ht' ↦ Option.some.inj (ht.symm.trans ht')) (fun n hn ↦ ?_) fun n' hn' ↦ ?_
  · obtain ⟨n', hn', -⟩ := h.leads n (nested_lt h.accepted hn)
    exact ⟨n', (h.mem_nested_iff hn' ho).mp hn, hn'⟩
  · obtain ⟨n, hn⟩ := h.exists_typeOf? (h.imported.sound.linked.mem_nested.mp hn').1
    exact ⟨n, (h.mem_nested_iff hn ho).mpr hn', hn⟩

theorem forall₂_fields (hfields : (ctx.module p).FieldsDistinct) :
    List.Forall₂ (fun f q ↦ s.map.fieldOf? p f = some (.definition q))
      ((ctx.module p).typeDef o).fields (Module.typeDef s.target o').fields := by
  have hasc := ascends_fields h.accepted h.links h.run (fun hf hg ↦ by
    obtain rfl := h.eq_of_fieldOf? hg
    exact ⟨rfl, h.fieldOf?_inj hfields hg hf⟩) o
  refine hasc.forall₂ (h.imported.sound.linked.pairwise_fields o')
    (fun hq hq' ↦ by cases hq.symm.trans hq'; rfl) (fun f hf ↦ ?_) fun q hq ↦ ?_
  · obtain ⟨q, -, hq⟩ := h.exists_fieldOf? (Module.mem_fieldIds.mpr (field_lt h.accepted hf))
    exact ⟨q, (h.mem_fields_iff hq ho).mp hf, hq⟩
  · obtain ⟨f, hmaker⟩ := h.exists_maker_of_field (h.imported.sound.linked.mem_fields.mp hq).1
    exact ⟨f, (h.mem_fields_iff hmaker.entry ho).mpr hq, hmaker.entry⟩

theorem forall₂_methods {map : SymbolMap} (hmap : s.map.Extends map)
    (hmethods : map.MethodsDistinct p (ctx.module p)) :
    List.Forall₂ (fun d q ↦ s.map.methodOf? p d = some (.definition q))
      ((ctx.module p).typeDef o).methods (Module.typeDef s.target o').methods := by
  have hasc := ascends_methods h.accepted h.links h.run h.isFoldedLater_eq (fun hd he ↦ by
    obtain rfl := h.eq_of_methodOf? he
    exact ⟨rfl, h.methodOf?_inj hmap hmethods he hd⟩) o
  refine hasc.forall₂ (h.imported.sound.linked.pairwise_methods o')
    (fun hq hq' ↦ by cases hq.symm.trans hq'; rfl) (fun d hd ↦ ?_) fun q hq ↦ ?_
  · obtain ⟨q, -, hq⟩ := h.exists_methodOf? (Module.mem_methodIds.mpr (method_lt h.accepted hd))
    exact ⟨q, (h.mem_methods_iff hq ho).mp hd, hq⟩
  · obtain ⟨d, hmaker⟩ := h.exists_maker_of_method (h.imported.sound.linked.mem_methods.mp hq).1
    exact ⟨d, (h.mem_methods_iff hmaker.entry ho).mpr hq, hmaker.entry⟩

end Listed

end Single

end Import

end ModuleLinker

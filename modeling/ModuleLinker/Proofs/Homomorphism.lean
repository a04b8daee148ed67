import ModuleLinker.Proofs.Import.Run

/-!
# Importing is a homomorphism

The symbol map that an import ends with acts on everything that an input is made of. What the output
holds is the image of the inputs under that action: members keep their names and owners, signatures
and bodies are carried over symbol by symbol, and a place has the hierarchy of the type that came to
it first.

The action that counts is that of the finished map. Signatures are carried over while the map is
still being written, but the map only grows, so what it made of a signature early is what it makes
of it in the end.
-/

namespace ModuleLinker

/-! ## Modules whose links agree

Agreement is stated by counting: how often a type or a member is listed, and where. What the
proofs use are its consequences, that lists have no repetitions and hold just what names the type
as its owner. -/

/-- A type lists exactly the types that name it as their declaring type, each once, and a member is
listed once, by its declaring type. -/
def Module.LinksAgree (m : Module) : Prop :=
  (∀ o ∈ m.typeIds, (m.typeDef o).nested.Nodup
      ∧ ∀ t ∈ m.typeIds, t ∈ (m.typeDef o).nested ↔ (m.typeDef t).declaring = some o)
    ∧ (∀ f ∈ m.fieldIds, ∀ o ∈ m.typeIds,
        (m.typeDef o).fields.count f = if (m.field f).declaring = o then 1 else 0)
    ∧ ∀ d ∈ m.methodIds, ∀ o ∈ m.typeIds,
        (m.typeDef o).methods.count d = if (m.method d).declaring = o then 1 else 0

instance (m : Module) : Decidable m.LinksAgree :=
  inferInstanceAs (Decidable (_ ∧ _ ∧ _))

/-- Outside the table there is only the empty type, which lists nothing. -/
theorem Module.lt_of_mem_list {m : Module} {α : Type} (list : TypeDef → List α)
    (hdefault : list default = []) {o : TypeId} {a : α} (h : a ∈ list (m.typeDef o)) :
    o.index < m.types.length := by
  by_contra hlt
  rw [typeDef_of_not_lt hlt, hdefault] at h
  cases h

theorem mem_iff_of_count {α : Type} [DecidableEq α] {l : List α} {a : α} {p : Prop} [Decidable p]
    (h : l.count a = if p then 1 else 0) : a ∈ l ↔ p := by
  rw [← List.count_pos_iff, h]
  by_cases hp : p <;> simp [hp]

theorem nodup_of_count {α : Type} [DecidableEq α] {l : List α} {p : α → Prop} [DecidablePred p]
    (h : ∀ a ∈ l, l.count a = if p a then 1 else 0) : l.Nodup := by
  refine List.nodup_iff_count_le_one.mpr fun a ↦ ?_
  by_cases ha : a ∈ l
  · rw [h a ha]
    split <;> decide
  · rw [List.count_eq_zero_of_not_mem ha]
    decide

namespace Module.LinksAgree

variable {m : Module} (h : m.LinksAgree)
include h

theorem field_owner {f : FieldId} {o : TypeId} (hf : f.index < m.fields.length)
    (hmem : f ∈ (m.typeDef o).fields) : (m.field f).declaring = o := by
  have ho := lt_of_mem_list TypeDef.fields rfl hmem
  have hcount := h.2.1 f (mem_fieldIds.mpr hf) o (mem_typeIds.mpr ho)
  exact (mem_iff_of_count hcount).mp hmem

theorem method_owner {d : MethodId} {o : TypeId} (hd : d.index < m.methods.length)
    (hmem : d ∈ (m.typeDef o).methods) : (m.method d).declaring = o := by
  have ho := lt_of_mem_list TypeDef.methods rfl hmem
  have hcount := h.2.2 d (mem_methodIds.mpr hd) o (mem_typeIds.mpr ho)
  exact (mem_iff_of_count hcount).mp hmem

theorem mem_fields {f : FieldId} (hf : f.index < m.fields.length)
    (ho : (m.field f).declaring.index < m.types.length) :
    f ∈ (m.typeDef (m.field f).declaring).fields := by
  have hcount := h.2.1 f (mem_fieldIds.mpr hf) _ (mem_typeIds.mpr ho)
  exact (mem_iff_of_count hcount).mpr rfl

theorem mem_methods {d : MethodId} (hd : d.index < m.methods.length)
    (ho : (m.method d).declaring.index < m.types.length) :
    d ∈ (m.typeDef (m.method d).declaring).methods := by
  have hcount := h.2.2 d (mem_methodIds.mpr hd) _ (mem_typeIds.mpr ho)
  exact (mem_iff_of_count hcount).mpr rfl

theorem nodup_nested (o : TypeId) : (m.typeDef o).nested.Nodup := by
  by_cases ho : o.index < m.types.length
  · exact (h.1 o (mem_typeIds.mpr ho)).1
  · rw [typeDef_of_not_lt ho]
    exact .nil

theorem nodup_fields {o : TypeId} (hin : ∀ f ∈ (m.typeDef o).fields, f.index < m.fields.length) :
    (m.typeDef o).fields.Nodup :=
  nodup_of_count fun f hf ↦ h.2.1 f (mem_fieldIds.mpr (hin f hf)) o
    (mem_typeIds.mpr (lt_of_mem_list TypeDef.fields rfl hf))

theorem nodup_methods {o : TypeId}
    (hin : ∀ d ∈ (m.typeDef o).methods, d.index < m.methods.length) :
    (m.typeDef o).methods.Nodup :=
  nodup_of_count fun d hd ↦ h.2.2 d (mem_methodIds.mpr (hin d hd)) o
    (mem_typeIds.mpr (lt_of_mem_list TypeDef.methods rfl hd))

end Module.LinksAgree

/-- A type lists exactly the types that name it as their declaring type. -/
def Module.NestingAgrees (m : Module) : Prop :=
  ∀ o ∈ m.typeIds, ∀ t ∈ m.typeIds, t ∈ (m.typeDef o).nested ↔ (m.typeDef t).declaring = some o

instance (m : Module) : Decidable m.NestingAgrees :=
  inferInstanceAs (Decidable (∀ _ ∈ _, ∀ _ ∈ _, _))

theorem Module.LinksAgree.nestingAgrees {m : Module} (h : m.LinksAgree) : m.NestingAgrees :=
  fun o ho ↦ (h.1 o ho).2

theorem Module.NestingAgrees.mem_nested_iff {ctx : Context} {m : ModuleId}
    (h : (ctx.module m).NestingAgrees) (hctx : ctx.registry.Accepted) (o t : TypeId) :
    t ∈ ((ctx.module m).typeDef o).nested ↔
      t.index < (ctx.module m).types.length ∧ ((ctx.module m).typeDef t).declaring = some o := by
  constructor
  · intro hmem
    have ho := lt_of_mem_list TypeDef.nested rfl hmem
    have ht := ImportState.nested_lt hctx hmem
    exact ⟨ht, (h o (mem_typeIds.mpr ho) t (mem_typeIds.mpr ht)).mp hmem⟩
  · rintro ⟨ht, hdeclaring⟩
    have ho := ImportState.declaring_lt hctx hdeclaring
    exact (h o (mem_typeIds.mpr ho) t (mem_typeIds.mpr ht)).mpr hdeclaring

theorem Module.LinksAgree.mem_nested_iff {ctx : Context} {m : ModuleId}
    (h : (ctx.module m).LinksAgree) (hctx : ctx.registry.Accepted) (o t : TypeId) :
    t ∈ ((ctx.module m).typeDef o).nested ↔
      t.index < (ctx.module m).types.length ∧ ((ctx.module m).typeDef t).declaring = some o :=
  h.nestingAgrees.mem_nested_iff hctx o t

/-! ## The image of the inputs

Each part of the statement has been proved of imports by itself. What is left is to put them
together at the end of the run, where the map is complete, and to see that a place with a single
source is nothing but the image of that source. -/

namespace ImportState

/-- The output is the image of the inputs under the finished map. -/
structure Homomorphic (s : ImportState) (ctx : Context) : Prop where
  /-- Every type of every module has a place. -/
  types : ∀ {m id}, m ∈ ctx.registry.ids → id ∈ (ctx.module m).typeIds →
    ∃ t ∈ Module.typeIds s.target, s.map.typeOf? m id = some t
  /-- Every field of every module is a field of the output. -/
  fields : ∀ {m id}, m ∈ ctx.registry.ids → id ∈ (ctx.module m).fieldIds →
    ∃ f ∈ Module.fieldIds s.target, s.map.fieldOf? m id = some (.definition f)
  /-- So is every method, but for the initializers of the secondaries. -/
  methods : ∀ {m id}, m ∈ ctx.registry.ids → id ∈ (ctx.module m).methodIds →
    ¬(((ctx.module m).method id).isInitializer
      ∧ ((ctx.module m).typeDef ((ctx.module m).method id).declaring).isModuleType
      ∧ m ∈ ctx.registry.secondaries) →
    ∃ d ∈ Module.methodIds s.target, s.map.methodOf? m id = some (.definition d)
  /-- A field keeps its name and stays with its type. -/
  field_image : ∀ {m id f}, s.map.fieldOf? m id = some (.definition f) →
    (Module.field s.target f).name = ((ctx.module m).field id).name
      ∧ s.map.typeOf? m ((ctx.module m).field id).declaring
        = some (Module.field s.target f).declaring
  /-- A method keeps its name, stays with its type, and has the signature that the map makes of its
  own. -/
  method_image : ∀ {m id d}, s.map.methodOf? m id = some (.definition d) →
    (Module.method s.target d).name = ((ctx.module m).method id).name
      ∧ s.map.remapSigs? m ((ctx.module m).method id).params
        = some (Module.method s.target d).params
      ∧ s.map.remapOption? m ((ctx.module m).method id).ret
        = some (Module.method s.target d).ret
      ∧ s.map.typeOf? m ((ctx.module m).method id).declaring
        = some (Module.method s.target d).declaring
  /-- A type of the output has the base and the interfaces of its first source. -/
  hierarchy : ∀ t ∈ Module.typeIds s.target, ∃ m id,
    (s.map.sourcesOf t).head? = some (m, id)
      ∧ s.map.remapOption? m ((ctx.module m).typeDef id).base
        = some (Module.typeDef s.target t).base
      ∧ s.map.remapSigs? m ((ctx.module m).typeDef id).interfaces
        = some (Module.typeDef s.target t).interfaces
  /-- A method that was made for one method alone has what that one has. -/
  sole : ∀ {m id d}, s.map.methodOf? m id = some (.definition d) →
    s.map.methodOrigin? d = some m →
    (∀ id', s.map.methodOf? m id' = some (.definition d) → id' = id) →
    (Module.method s.target d).access = ((ctx.module m).method id).access
      ∧ (Module.method s.target d).isStatic = ((ctx.module m).method id).isStatic
      ∧ match ((ctx.module m).method id).body with
        | none => (Module.method s.target d).body = none
        | some source => ∃ body, s.map.remapBody? m source = some body
          ∧ (Module.method s.target d).body = some body

variable {s : ImportState} {ctx : Context}

theorem MethodImage.mem_ids {m : ModuleId} {id place : MethodId} {owner t : TypeId}
    (h : s.MethodImage ctx m id place owner t) : m ∈ ctx.registry.ids := by
  by_contra hnot
  rw [Registry.mem_ids] at hnot
  have hnone : ctx.module m = default := Registry.module_of_not_lt hnot
  have hlisted := h.listed.listed
  rw [hnone] at hlisted
  cases hlisted

namespace Imported

variable (h : s.Imported ctx)
include h

theorem sole_body (hctx : ctx.registry.Accepted) {m : ModuleId} {id d : MethodId}
    (hentry : s.map.methodOf? m id = some (.definition d))
    (horigin : s.map.methodOrigin? d = some m)
    (hsole : ∀ id', s.map.methodOf? m id' = some (.definition d) → id' = id) :
    match ((ctx.module m).method id).body with
    | none => (Module.method s.target d).body = none
    | some source => ∃ body, s.map.remapBody? m source = some body
      ∧ (Module.method s.target d).body = some body := by
  obtain ⟨place, owner, t, -, himage⟩ := h.faithful.methods hentry
  have hm := Registry.mem_ids.mp himage.mem_ids
  have hid := Import.method_lt hctx himage.listed.listed
  -- whoever writes the method is the one method that it was made for
  have hwriter : ∀ x, s.Writes ctx d x → x = (m, id) := by
    rintro ⟨l, id'⟩ ⟨hentry', horigin', -⟩
    obtain rfl : l = m := by
      have heq := horigin'.symm.trans horigin
      simpa using heq
    rw [hsole id' hentry']
  cases hsource : ((ctx.module m).method id).body with
  | none =>
    rcases h.copied d with ⟨-, hnone⟩ | ⟨x, hlast, source, body, hbody, -⟩
    · exact hnone
    · obtain ⟨-, -, -, hx, -⟩ := hlast
      rw [hwriter x hx, hsource] at hbody
      cases hbody
  | some source =>
    have hwrites : s.Writes ctx d (m, id) := ⟨hentry, horigin, by simp [hsource]⟩
    rcases h.copied d with ⟨hno, -⟩ | ⟨x, hlast, source', body, hbody, hremap, htarget⟩
    · exact absurd hwrites (hno _ (Context.mem_allMethods.mpr ⟨hm, hid⟩))
    · obtain ⟨-, -, -, hx, -⟩ := hlast
      rw [hwriter x hx] at hbody hremap
      rw [hsource] at hbody
      cases hbody
      exact ⟨body, hremap, htarget⟩

theorem sole_shell {m : ModuleId} {id d : MethodId}
    (horigin : s.map.methodOrigin? d = some m)
    (hsole : ∀ id', s.map.methodOf? m id' = some (.definition d) → id' = id) :
    (Module.method s.target d).access = ((ctx.module m).method id).access
      ∧ (Module.method s.target d).isStatic = ((ctx.module m).method id).isStatic := by
  obtain ⟨id', hmaker⟩ := h.faithful.makers horigin
  rw [← hsole id' hmaker.entry]
  exact ⟨hmaker.access, hmaker.isStatic⟩

theorem hierarchy {t : TypeId} (ht : t.index < s.target.types.length) : ∃ m id,
    (s.map.sourcesOf t).head? = some (m, id)
      ∧ s.map.remapOption? m ((ctx.module m).typeDef id).base
        = some (Module.typeDef s.target t).base
      ∧ s.map.remapSigs? m ((ctx.module m).typeDef id).interfaces
        = some (Module.typeDef s.target t).interfaces := by
  cases hfirst : (s.map.sourcesOf t).head? with
  | none => exact absurd (List.head?_eq_none_iff.mp hfirst) (h.faithful.sourced t ht)
  | some x =>
    -- the first source has been filled in like every type, and being the first it set both
    obtain ⟨m, id⟩ := x
    have hmem := List.mem_of_head? hfirst
    have hplace := h.sound.sources.mp hmem
    have hid := h.sound.inputs hplace
    obtain ⟨t', hfilled⟩ := h.filled (Registry.lt_of_type hid) hid
    obtain rfl : t' = t := by
      have heq := hfilled.place.symm.trans hplace
      simpa using heq
    exact ⟨m, id, rfl, hfilled.inherits hfirst⟩

theorem fields (hctx : ctx.registry.Accepted) (hlinks : ∀ m, (ctx.module m).LinksAgree)
    {m : ModuleId} {id : FieldId} (hm : m ∈ ctx.registry.ids) (hid : id ∈ (ctx.module m).fieldIds) :
    ∃ f ∈ Module.fieldIds s.target, s.map.fieldOf? m id = some (.definition f) := by
  rw [Registry.mem_ids] at hm
  rw [Module.mem_fieldIds] at hid
  have howner : ((ctx.module m).field id).declaring.index < (ctx.module m).types.length :=
    Import.field_has hctx hid (.type, _) (List.mem_cons_self ..)
  obtain ⟨t, hfilled⟩ := h.filled hm howner
  obtain ⟨handle, hhandle⟩ := hfilled.fields id ((hlinks m).mem_fields hid howner)
  obtain ⟨f, owner, t', rfl, himage⟩ := h.faithful.fields hhandle
  exact ⟨f, Module.mem_fieldIds.mpr himage.inRange, hhandle⟩

theorem methods (hctx : ctx.registry.Accepted) (hlinks : ∀ m, (ctx.module m).LinksAgree)
    {m : ModuleId} {id : MethodId} (hm : m ∈ ctx.registry.ids)
    (hid : id ∈ (ctx.module m).methodIds)
    (hkept : ¬(((ctx.module m).method id).isInitializer
      ∧ ((ctx.module m).typeDef ((ctx.module m).method id).declaring).isModuleType
      ∧ m ∈ ctx.registry.secondaries)) :
    ∃ d ∈ Module.methodIds s.target, s.map.methodOf? m id = some (.definition d) := by
  rw [Registry.mem_ids] at hm
  rw [Module.mem_methodIds] at hid
  have howner : ((ctx.module m).method id).declaring.index < (ctx.module m).types.length :=
    Import.method_has hctx hid (.type, _) (List.mem_append_left _ (List.mem_cons_self ..))
  have hnow : Import.isFoldedLater ctx m ((ctx.module m).method id).declaring id = false := by
    rw [Registry.mem_secondaries] at hkept
    unfold Import.isFoldedLater
    by_contra hlater
    simp only [Bool.not_eq_false, Bool.and_eq_true, Bool.not_eq_true'] at hlater
    exact hkept ⟨hlater.2, hlater.1.1, hm, hlater.1.2⟩
  obtain ⟨t, hfilled⟩ := h.filled hm howner
  obtain ⟨handle, hhandle⟩ := hfilled.methods id ((hlinks m).mem_methods hid howner) hnow
  obtain ⟨d, owner, t', rfl, himage⟩ := h.faithful.methods hhandle
  exact ⟨d, Module.mem_methodIds.mpr himage.inRange, hhandle⟩

end Imported

end ImportState

/-- Importing modules whose links agree is a homomorphism: the map is total, but for what is folded
later, and the output is the image of the inputs. -/
theorem homomorphic_of_run {inputs : List Input} {ctx : Context} {s : ImportState}
    (hinputs : Registry.ofInputs inputs = .ok ctx.registry)
    (hlinks : ∀ i ∈ inputs, i.module.LinksAgree)
    (hrun : Import.run ctx ctx.startImport = .ok () s) : s.Homomorphic ctx := by
  obtain ⟨hctx, -, heq⟩ := Registry.accepted_of_ofInputs hinputs
  have h := Import.imported_of_run hctx hrun
  have hlinks' : ∀ m, (ctx.module m).LinksAgree :=
    Registry.forall_module (heq ▸ hlinks) (by decide)
  constructor
  case types =>
    intro m id hm hid
    obtain ⟨t, hfilled⟩ := h.filled (Registry.mem_ids.mp hm) (Module.mem_typeIds.mp hid)
    exact ⟨t, Module.mem_typeIds.mpr (h.sound.typeOf?_lt hfilled.place), hfilled.place⟩
  case fields => exact h.fields hctx hlinks'
  case methods => exact h.methods hctx hlinks'
  case field_image =>
    intro m id f hentry
    obtain ⟨place, owner, t, hplace, himage⟩ := h.faithful.fields hentry
    cases hplace
    have hid := Import.field_lt hctx himage.listed.listed
    rw [(hlinks' m).field_owner hid himage.listed.listed, himage.declaring]
    exact ⟨himage.name, himage.listed.place⟩
  case method_image =>
    intro m id d hentry
    obtain ⟨place, owner, t, hplace, himage⟩ := h.faithful.methods hentry
    cases hplace
    have hid := Import.method_lt hctx himage.listed.listed
    rw [(hlinks' m).method_owner hid himage.listed.listed, himage.declaring]
    exact ⟨himage.name, himage.params, himage.ret, himage.listed.place⟩
  case hierarchy => exact fun t ht ↦ h.hierarchy (Module.mem_typeIds.mp ht)
  case sole =>
    intro m id d hentry horigin hsole
    obtain ⟨haccess, hstatic⟩ := h.sole_shell horigin hsole
    exact ⟨haccess, hstatic, h.sole_body hctx hentry horigin hsole⟩

/-! ## A program and its library -/

/-- A program and a library with members that name one another, and an initializer in the library.
-/
def composed : List Input :=
  [{ isPrimary := true
     module :=
      { name := "App"
        types := [{ nspace := "App", name := "Program", methods := [⟨0⟩] }]
        methods := [
          { name := "Main", access := .public, isStatic := true, params := [.array (.reference ⟨0⟩)]
            body := some
              { instructions := [.call (.reference ⟨0⟩), .ret], locals := [.reference ⟨0⟩] }
            declaring := ⟨0⟩ }]
        typeRefs := [⟨.assembly ⟨0⟩, "Lib", "Tool"⟩]
        memberRefs := [⟨.reference ⟨0⟩, "Run", .method [] none⟩]
        assemblyRefs := [⟨"Lib", {}⟩] } },
   { isPrimary := false
     module :=
      { name := "Lib"
        types := [
          { name := "<Module>", methods := [⟨0⟩] },
          { nspace := "Lib", name := "Tool", nested := [⟨2⟩], methods := [⟨1⟩] },
          { name := "Part", base := some (.definition ⟨1⟩), declaring := some ⟨1⟩
            fields := [⟨0⟩] }]
        methods := [
          { name := ".cctor", access := .private, isStatic := true, declaring := ⟨0⟩
            body := some { instructions := [.ret] } },
          { name := "Run", access := .public, isStatic := true, declaring := ⟨1⟩
            body := some { instructions := [.loadStatic (.definition ⟨0⟩), .ret] } }]
        fields := [
          { name := "whole", access := .public, isStatic := true, fieldType := .definition ⟨1⟩
            declaring := ⟨2⟩ }] } }]

def composedLink : Context where
  registry := ⟨composed⟩
  policy := ⟨false, [], [], [], false⟩
  targetName := "App"

/-- What importing the two leaves. -/
def composite : ImportState :=
  Import.finalState (Import.run composedLink) composedLink.startImport

/-- The call goes to the library's method, which has its body, and the library's initializer is left
to be folded. -/
theorem homomorphic_composite : Registry.ofInputs composed = .ok composedLink.registry
    ∧ (∀ i ∈ composed, i.module.LinksAgree)
    ∧ Import.run composedLink composedLink.startImport = .ok () composite
    ∧ composite.Homomorphic composedLink
    ∧ (Module.method composite.target ⟨0⟩).body
      = some { instructions := [.call (.definition ⟨1⟩), .ret], locals := [.definition ⟨2⟩] }
    ∧ composite.map.methodOf? ⟨1⟩ ⟨0⟩ = none := by
  have hinputs : Registry.ofInputs composed = .ok composedLink.registry := rfl
  have hlinks : ∀ i ∈ composed, i.module.LinksAgree := by decide
  have hrun : Import.run composedLink composedLink.startImport = .ok () composite :=
    Import.eq_ok_of_succeeds (by decide +kernel)
  refine ⟨hinputs, hlinks, hrun, homomorphic_of_run hinputs hlinks hrun, ?_, ?_⟩
  all_goals decide +kernel

end ModuleLinker

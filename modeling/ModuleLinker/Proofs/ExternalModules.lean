import ModuleLinker.Proofs.DistinctEntries
import ModuleLinker.Proofs.Import.External
import ModuleLinker.Proofs.ReferenceHygiene
import ModuleLinker.Proofs.WellFormed

/-!
# Modules outside the link

An output refers to a module that took no part in the link by one entry of the module's name. It
never refers to a module that did take part, and its version of the other is one that an input asks
for, and high enough for all references that were carried over: an import meets them in an order of
its own and may take the first version that it meets, but raises it whenever a higher one comes.
-/

namespace ModuleLinker

open Relation (ReflTransGen)

/-- What an output says of other modules, given what became of the references of the inputs. -/
structure Context.RefersOutside (ctx : Context) (map : SymbolMap) (output : Module) : Prop where
  /-- No entry has the name of an input. -/
  entries : ∀ e ∈ output.assemblyRefs, ∀ l ∈ ctx.registry.ids,
    Text.sameName (ctx.module l).name e.name = false
  /-- Nothing that the output stores leads to an input. -/
  mentions : ∀ x ∈ output.mentions, x.table = .assemblyRef → ∀ l ∈ ctx.registry.ids,
    Text.sameName (ctx.module l).name (output.assemblyRef ⟨x.index⟩).name = false
  once : output.assemblyRefs.Pairwise fun e e' ↦ Text.sameName e.name e'.name = false
  given : ∀ e ∈ output.assemblyRefs, ∃ l ∈ ctx.registry.ids, ∃ a ∈ (ctx.module l).assemblyRefs,
    Text.sameName a.name e.name = true ∧ a.version = e.version
  /-- A reference to a type of another module has an entry. -/
  used : ∀ {m id sig a}, map.typeRefOf? m id = some sig →
    ((ctx.module m).typeRef id).scope = .assembly a → ctx.Outside m a →
    ∃ e ∈ output.assemblyRefs, Text.sameName e.name ((ctx.module m).assemblyRef a).name = true
  /-- The entry's version is not lower than the reference asks for. -/
  raised : ∀ {m id sig a}, map.typeRefOf? m id = some sig →
    ((ctx.module m).typeRef id).scope = .assembly a → ∀ e ∈ output.assemblyRefs,
    Text.sameName e.name ((ctx.module m).assemblyRef a).name = true →
    ((ctx.module m).assemblyRef a).version ≤ e.version

/-- Whether a module takes part in a link does not depend on how its name is written. -/
theorem Context.merged?_eq_none_congr {ctx : Context} {name name' : String}
    (h : Text.sameName name name' = true) (hout : ctx.merged? name = none) :
    ctx.merged? name' = none := by
  rw [merged?, Registry.find?_eq_none_iff] at hout ⊢
  intro l hl
  have hne := hout l hl
  rw [Text.sameName_iff] at h
  simp only [← Bool.not_eq_true, Text.sameName_iff] at hne ⊢
  rwa [← h]

section Through

variable {settings : Settings} {inputs : List Input} {ctx : Context} {s : ImportState} {r : Linked}

theorem Import.external_of_all (hctx : ctx.registry.Accepted)
    (h : Import.all ctx ctx.startImport = .ok () s) : s.External ctx := by
  obtain ⟨s₁, hrun, hlate, -⟩ := late_of_all hctx h
  have hsteps := ((reaches_run hctx).of_ok hrun).1
  have hexternal := external_of_steps (fun _ _ ↦ Step.external) hsteps ctx.external_startImport
  exact external_of_steps (fun _ _ ↦ LateStep.external) hlate hexternal

theorem LinkedThrough.closed (h : LinkedThrough settings inputs ctx s r) : r.module.Closed := by
  have hctx := (Registry.accepted_of_ofInputs h.inputs).1
  rw [h.module]
  exact (Import.sound_of_all hctx h.imported).finish.2.of_tables rfl rfl rfl rfl rfl rfl rfl

theorem LinkedThrough.refersOutside (h : LinkedThrough settings inputs ctx s r) :
    ctx.RefersOutside s.map r.module := by
  have hctx := (Registry.accepted_of_ofInputs h.inputs).1
  have hs := Import.sound_of_all hctx h.imported
  have hexternal := Import.external_of_all hctx h.imported
  have hassembly : r.module.assemblyRefs = s.target.assemblyRefs := by rw [h.tables]
  have hentries : ∀ e ∈ r.module.assemblyRefs, ∀ l ∈ ctx.registry.ids,
      Text.sameName (ctx.module l).name e.name = false := fun e he ↦
    Registry.find?_eq_none_iff.mp (hexternal.given e (hassembly ▸ he)).outside
  have honce : r.module.assemblyRefs.Pairwise fun e e' ↦ Text.sameName e.name e'.name = false :=
    hassembly ▸ hs.interned.assemblyRefs
  constructor
  case entries => exact hentries
  case mentions =>
    intro x hx htable
    have hlt := Module.closed_iff_forall_mentions.mp h.closed x hx
    rw [htable] at hlt
    exact hentries _ (Module.assemblyRef_mem hlt)
  case once => exact honce
  case given =>
    intro e he
    obtain ⟨m, a, ha, hname, hversion⟩ := (hexternal.given e (hassembly ▸ he)).given
    exact ⟨m, Registry.mem_ids.mpr (Registry.lt_of_assemblyRef ha), a, ha, hname, hversion⟩
  case used =>
    intro m id sig a hid hscope hout
    obtain ⟨e, he⟩ := hexternal.covers hid a hscope (Context.outside_iff.mp hout)
    exact ⟨_, hassembly ▸ Module.assemblyRef_mem he.index_lt, he.name⟩
  case raised =>
    intro m id sig a hid hscope e he hname
    rw [hassembly] at he
    have hout := Context.merged?_eq_none_congr hname (hexternal.given e he).outside
    obtain ⟨covering, hcovering⟩ := hexternal.covers hid a hscope hout
    -- the entry that covers the reference is the one of the name
    obtain ⟨i, hi, rfl⟩ := List.getElem_of_mem he
    have heq : Module.assemblyRef s.target ⟨i⟩ = s.target.assemblyRefs[i] :=
      List.getD_eq_getElem _ _ hi
    obtain rfl : covering = ⟨i⟩ := by
      refine hs.interned.eq_of_sameName hcovering.index_lt hi ?_
      rw [heq, Text.sameName_iff, Text.sameName_iff.mp hname]
      exact Text.sameName_iff.mp hcovering.name
    exact heq ▸ hcovering.version

end Through

/-- Every output refers to each module outside the link once, in a version that an input asks for
and that is high enough for all references, and to no input. -/
theorem refersOutside_of_link {settings : Settings} {inputs : List Input} {r : Linked}
    (h : link settings inputs = .ok r) :
    ∃ ctx s, LinkedThrough settings inputs ctx s r ∧ ctx.RefersOutside s.map r.module := by
  obtain ⟨ctx, s, hthrough⟩ := link_eq_ok_iff.mp h
  exact ⟨ctx, s, hthrough, hthrough.refersOutside⟩

/-! ## A version that comes late -/

/-- A program, a library and a kit that all refer to one system, each to its own version. The
program refers to the library's tool, and by way of the kit to a client in a module of its own; the
library's version of the system is the highest, and the kit's is not used for a type. -/
def ages : List Input :=
  [{ isPrimary := true
     module :=
      { name := "App"
        types := [{ nspace := "App", name := "Main", fields := [⟨0⟩, ⟨1⟩, ⟨2⟩] }]
        fields := [
          { name := "stream", access := .public, isStatic := true, fieldType := .reference ⟨0⟩
            declaring := ⟨0⟩ },
          { name := "tool", access := .public, isStatic := true, fieldType := .reference ⟨1⟩
            declaring := ⟨0⟩ },
          { name := "client", access := .public, isStatic := true, fieldType := .reference ⟨2⟩
            declaring := ⟨0⟩ }]
        typeRefs := [⟨.assembly ⟨0⟩, "System", "Stream"⟩, ⟨.assembly ⟨1⟩, "Lib", "Tool"⟩,
          ⟨.assembly ⟨2⟩, "Net", "Client"⟩]
        assemblyRefs := [⟨"System", ⟨1, 0, 0, 0⟩⟩, ⟨"LIB", ⟨9, 0, 0, 0⟩⟩,
          ⟨"kit", ⟨9, 0, 0, 0⟩⟩] } },
   { isPrimary := false
     module :=
      { name := "Lib"
        types := [{ nspace := "Lib", name := "Tool", fields := [⟨0⟩] }]
        fields := [
          { name := "reader", access := .public, isStatic := true, fieldType := .reference ⟨0⟩
            declaring := ⟨0⟩ }]
        typeRefs := [⟨.assembly ⟨0⟩, "System", "Reader"⟩]
        assemblyRefs := [⟨"SYSTEM", ⟨3, 1, 0, 0⟩⟩, ⟨"App", ⟨1, 0, 0, 0⟩⟩] } },
   { isPrimary := false
     module :=
      { name := "Kit"
        assemblyRefs := [⟨"System", ⟨4, 0, 0, 0⟩⟩, ⟨"Net", ⟨2, 0, 0, 0⟩⟩]
        exportedTypes := [
          { nspace := "Net", name := "Client", implementation := .assembly ⟨1⟩
            isForwarder := true }] } }]

/-- The system is referred to in the library's version, though the program's came first. -/
theorem refersOutside_ages : ∃ r, link {} ages = .ok r
    ∧ (∃ ctx s, LinkedThrough {} ages ctx s r ∧ ctx.RefersOutside s.map r.module)
    ∧ r.module.assemblyRefs = [⟨"System", ⟨3, 1, 0, 0⟩⟩, ⟨"Net", ⟨2, 0, 0, 0⟩⟩]
    ∧ r.module.typeRefs = [⟨.assembly ⟨0⟩, "System", "Stream"⟩, ⟨.assembly ⟨1⟩, "Net", "Client"⟩,
      ⟨.assembly ⟨0⟩, "System", "Reader"⟩] := by
  obtain ⟨r, h, hrefs⟩ := exists_link_of_decide {} ages
    (P := fun r ↦ r.module.assemblyRefs = [⟨"System", ⟨3, 1, 0, 0⟩⟩, ⟨"Net", ⟨2, 0, 0, 0⟩⟩]
      ∧ r.module.typeRefs = [⟨.assembly ⟨0⟩, "System", "Stream"⟩,
        ⟨.assembly ⟨1⟩, "Net", "Client"⟩, ⟨.assembly ⟨0⟩, "System", "Reader"⟩])
    (by decide +kernel)
  exact ⟨r, h, refersOutside_of_link h, hrefs⟩

end ModuleLinker

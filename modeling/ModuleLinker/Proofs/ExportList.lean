import ModuleLinker.Proofs.Import.ExportOutcome
import ModuleLinker.Proofs.Stages

/-!
# The exports of the output

An export is kept when it is not resolved and the policy shows its name. The names that the output
is to export are the least set that has the name of every kept export at the top, and the name of
every kept export whose declaring export's name it has.

The exports are gone through once. So a name is only listed when it comes up: when it belongs to a
kept export at the top, or to one whose declaring export's name has come up before. What is listed
are exactly the names that come up, each of them once and inside the export that is listed under the
declaring export's name. They may be fewer than they are to be, where a declaring export stands
behind one that it declares.
-/

namespace ModuleLinker

open Relation (ReflTransGen)

namespace Context

variable {ctx : Context} {m : ModuleId} {id outer : ExportId} {qualified : String} {j k : Nat}

/-- An export is not resolved, and the policy shows its name. -/
structure KeepsExport (ctx : Context) (m : ModuleId) (id : ExportId) : Prop where
  unresolved : ∀ d type, ¬ctx.Leads m id d type
  shown : ctx.policy.hidesName ((ctx.module m).exportName id) (ctx.internalizes m) = false

/-- The names that the output is to export. -/
inductive ExportedName (ctx : Context) : String → Prop
  | top {m : ModuleId} {id : ExportId} (hexport : (m, id) ∈ ctx.exports)
      (hkeeps : ctx.KeepsExport m id) (htop : (ctx.module m).exportOuter? id = none) :
      ctx.ExportedName ((ctx.module m).exportName id)
  | nested {m : ModuleId} {id outer : ExportId} (hexport : (m, id) ∈ ctx.exports)
      (hkeeps : ctx.KeepsExport m id) (houter : (ctx.module m).exportOuter? id = some outer)
      (h : ctx.ExportedName ((ctx.module m).exportName outer)) :
      ctx.ExportedName ((ctx.module m).exportName id)

/-- A name comes up at a position of the exports. -/
inductive ComesUp (ctx : Context) : Nat → String → Prop
  | top {k : Nat} {m : ModuleId} {id : ExportId} (hat : ctx.exports[k]? = some (m, id))
      (hkeeps : ctx.KeepsExport m id) (htop : (ctx.module m).exportOuter? id = none) :
      ctx.ComesUp k ((ctx.module m).exportName id)
  | nested {j k : Nat} {m : ModuleId} {id outer : ExportId} (hat : ctx.exports[k]? = some (m, id))
      (hkeeps : ctx.KeepsExport m id) (houter : (ctx.module m).exportOuter? id = some outer)
      (hbefore : j < k) (h : ctx.ComesUp j ((ctx.module m).exportName outer)) :
      ctx.ComesUp k ((ctx.module m).exportName id)

/-! ## Names that come up

Positions stand in the order in which exports are met. An export that is nested in another one can
only come up when the name of that one has come up further in front. -/

theorem ComesUp.exportedName (h : ctx.ComesUp k qualified) : ctx.ExportedName qualified := by
  induction h with
  | top hat hkeeps htop => exact .top (List.mem_of_getElem? hat) hkeeps htop
  | nested hat hkeeps houter _ _ ih => exact .nested (List.mem_of_getElem? hat) hkeeps houter ih

theorem ComesUp.lt_length (h : ctx.ComesUp k qualified) : k < ctx.exports.length := by
  cases h with
  | top hat | nested hat => exact (List.getElem?_eq_some_iff.mp hat).1

theorem comesUp_iff (hat : ctx.exports[k]? = some (m, id)) :
    ctx.ComesUp k qualified ↔ (ctx.module m).exportName id = qualified ∧ ctx.KeepsExport m id
      ∧ ∀ outer, (ctx.module m).exportOuter? id = some outer →
        ∃ j < k, ctx.ComesUp j ((ctx.module m).exportName outer) := by
  constructor
  · intro h
    cases h with
    | top hat' hkeeps htop =>
      cases hat.symm.trans hat'
      refine ⟨rfl, hkeeps, fun outer houter ↦ ?_⟩
      rw [htop] at houter
      cases houter
    | nested hat' hkeeps houter hbefore h =>
      cases hat.symm.trans hat'
      refine ⟨rfl, hkeeps, fun outer' houter' ↦ ⟨_, hbefore, ?_⟩⟩
      cases houter.symm.trans houter'
      exact h
  · rintro ⟨rfl, hkeeps, hbefore⟩
    cases houter : (ctx.module m).exportOuter? id with
    | none => exact .top hat hkeeps houter
    | some outer =>
      obtain ⟨j, hj, h⟩ := hbefore outer houter
      exact .nested hat hkeeps houter hj h

/-- The names that are to be exported all come up exactly when a kept export comes up with the name
of the one that declares it. -/
theorem exportedName_iff_comesUp :
    (∀ qualified, ctx.ExportedName qualified ↔ ∃ k, ctx.ComesUp k qualified)
      ↔ ∀ m id outer, (m, id) ∈ ctx.exports → ctx.KeepsExport m id →
        (ctx.module m).exportOuter? id = some outer →
        (∃ k, ctx.ComesUp k ((ctx.module m).exportName outer)) →
        ∃ k, ctx.ComesUp k ((ctx.module m).exportName id) := by
  constructor
  · intro hall m id outer hexport hkeeps houter hup
    exact (hall _).mp (.nested hexport hkeeps houter ((hall _).mpr hup))
  · intro hclosed qualified
    refine ⟨fun h ↦ ?_, fun ⟨k, h⟩ ↦ h.exportedName⟩
    induction h with
    | top hexport hkeeps htop =>
      obtain ⟨k, hat⟩ := List.mem_iff_getElem?.mp hexport
      exact ⟨k, .top hat hkeeps htop⟩
    | nested hexport hkeeps houter _ ih => exact hclosed _ _ _ hexport hkeeps houter ih

theorem exists_before (hat : ctx.exports[k]? = some (m, id)) (hlt : outer.index < id.index) :
    ∃ j < k, ctx.exports[j]? = some (m, outer) := by
  obtain ⟨hm, hid⟩ := mem_exports.mp (List.mem_of_getElem? hat)
  have houter : (m, outer) ∈ ctx.exports := mem_exports.mpr ⟨hm, Nat.lt_trans hlt hid⟩
  obtain ⟨j, hj⟩ := List.mem_iff_getElem?.mp houter
  obtain ⟨hklt, hk⟩ := List.getElem?_eq_some_iff.mp hat
  obtain ⟨hjlt, hj'⟩ := List.getElem?_eq_some_iff.mp hj
  rcases Nat.lt_trichotomy j k with hjk | rfl | hkj
  · exact ⟨j, hjk, hj⟩
  · cases hat.symm.trans hj
    exact absurd hlt (Nat.lt_irrefl _)
  · have hfirst := List.pairwise_iff_getElem.mp ctx.pairwise_exports k j hklt hjlt hkj
    rw [hk, hj'] at hfirst
    exact absurd hlt (Nat.lt_asymm (hfirst rfl))

/-- Every kept export comes up if declaring exports stand in front of what they declare and are kept
with it. -/
theorem comesUp_of_ordered
    (hordered : ∀ m id outer, (m, id) ∈ ctx.exports → ctx.KeepsExport m id →
      (ctx.module m).exportOuter? id = some outer →
      ctx.KeepsExport m outer ∧ outer.index < id.index)
    (hat : ctx.exports[k]? = some (m, id)) (hkeeps : ctx.KeepsExport m id) :
    ctx.ComesUp k ((ctx.module m).exportName id) := by
  induction k using Nat.strong_induction_on generalizing id with
  | _ k ih =>
    refine (comesUp_iff hat).mpr ⟨rfl, hkeeps, fun outer houter ↦ ?_⟩
    obtain ⟨hkept, hlt⟩ := hordered m id outer (List.mem_of_getElem? hat) hkeeps houter
    obtain ⟨j, hj, hbefore⟩ := exists_before hat hlt
    exact ⟨j, hj, ih j hj hbefore hkept⟩

end Context

/-! ## The list

What is listed after some of the exports says everything about the next one: it comes up if it is
kept and is at the top, or if the name of its declaring export is listed. -/

/-- Qualified names of the exports, in table order. -/
def Module.exportNames (m : Module) : List String := m.exportIds.map m.exportName

/-- An export of the output was made from an export of an input: it has its name and is what it was,
but lives at the top where that one does, and otherwise in the export that has the name of the one
that declares it. -/
structure Context.ListedFor (ctx : Context) (output : Module) (e : ExportId) (m : ModuleId)
    (id : ExportId) : Prop where
  keeps : ctx.KeepsExport m id
  name : output.exportName e = (ctx.module m).exportName id
  entry : output.exportedType e = { (ctx.module m).exportedType id with
    implementation := (output.exportedType e).implementation }
  top : (ctx.module m).exportOuter? id = none → output.exportOuter? e = none
  nested : ∀ outer, (ctx.module m).exportOuter? id = some outer →
    ∃ o ∈ output.exportIds, output.exportOuter? e = some o
      ∧ output.exportName o = (ctx.module m).exportName outer

/-- The output lists what has come up among some of the exports, and its table of names says where.
-/
structure ExportTable.Lists (emitted : ExportTable) (ctx : Context)
    (done : List (ModuleId × ExportId)) (t : Target) : Prop where
  declaringFirst : Module.DeclaringFirst t
  entries : emitted.entries = (Module.exportIds t).map fun e ↦ (Module.exportName t e, e)
  distinct : emitted.keys.Nodup
  names : ∀ qualified, qualified ∈ emitted.keys ↔ ∃ k < done.length, ctx.ComesUp k qualified
  sources : ∀ e ∈ Module.exportIds t, ∃ x ∈ done, ctx.ListedFor t e x.1 x.2

namespace ExportTable.Lists

variable {ctx : Context} {emitted : ExportTable} {done : List (ModuleId × ExportId)} {t t' : Target}
  {m : ModuleId} {id : ExportId}

theorem keys_eq (h : emitted.Lists ctx done t) : emitted.keys = Module.exportNames t := by
  rw [Table.keys, h.entries, List.map_map]
  rfl

theorem find?_eq_some (h : emitted.Lists ctx done t) {qualified : String} {e : ExportId}
    (he : emitted.find? qualified = some e) :
    e ∈ Module.exportIds t ∧ Module.exportName t e = qualified := by
  have hmem := Table.mem_entries_of_find? he
  rw [h.entries] at hmem
  obtain ⟨e', he', heq⟩ := List.mem_map.mp hmem
  cases heq
  exact ⟨he', rfl⟩

theorem congr (h : emitted.Lists ctx done t) (ht : t'.exportedTypes = t.exportedTypes) :
    emitted.Lists ctx done t' := by
  have hids := Module.exportIds_congr ht
  have houter := Module.exportOuter?_congr ht
  have hname := Module.exportName_congr ht
  refine ⟨?_, ?_, h.distinct, h.names, fun e he ↦ ?_⟩
  · rw [Module.DeclaringFirst, houter]
    exact h.declaringFirst
  · rw [h.entries, hids, hname]
  · rw [hids] at he
    obtain ⟨x, hx, hlisted⟩ := h.sources e he
    refine ⟨x, hx, hlisted.keeps, ?_, ?_, ?_, ?_⟩
    · rw [hname, hlisted.name]
    · rw [Module.exportedType_congr ht]
      exact hlisted.entry
    · rw [houter]
      exact hlisted.top
    · rw [houter, hids, hname]
      exact hlisted.nested

/-- What comes up next is the export's name, if it is kept and the name of the export that declares
it is listed. -/
theorem comesUp_iff (h : emitted.Lists ctx done t) (hpre : done ++ [(m, id)] <+: ctx.exports)
    {qualified : String} :
    ctx.ComesUp done.length qualified ↔ (ctx.module m).exportName id = qualified
      ∧ ctx.KeepsExport m id ∧ ∀ outer, (ctx.module m).exportOuter? id = some outer →
        (ctx.module m).exportName outer ∈ emitted.keys := by
  have hat : ctx.exports[done.length]? = some (m, id) := by
    obtain ⟨rest, hrest⟩ := hpre
    simp [← hrest]
  rw [Context.comesUp_iff hat]
  simp only [h.names]

/-- Going past an export that does not come up, or whose name is listed, leaves the list alone. -/
theorem pass (h : emitted.Lists ctx done t)
    (hnot : ∀ qualified, ctx.ComesUp done.length qualified → qualified ∈ emitted.keys) :
    emitted.Lists ctx (done ++ [(m, id)]) t where
  declaringFirst := h.declaringFirst
  entries := h.entries
  distinct := h.distinct
  names qualified := by
    rw [List.length_append, List.length_singleton, Nat.exists_lt_succ_right, ← h.names]
    exact (or_iff_left_of_imp (hnot qualified)).symm
  sources e he := by
    obtain ⟨x, hx, hlisted⟩ := h.sources e he
    exact ⟨x, List.mem_append_left _ hx, hlisted⟩

end ExportTable.Lists

/-! ## An export that is listed

A nested export of the output is linked to an entry that was put there before, so what is listed
stays as it is when more is added behind it. -/

section Added

variable {ctx : Context} {t : Target} {m : ModuleId} {id : ExportId} {e : ExportedType}

theorem Context.ListedFor.addExportedType {o : ExportId} (h : ctx.ListedFor t o m id)
    (ho : o ∈ Module.exportIds t) (hfirst : Module.DeclaringFirst t)
    (hfirst' : Module.DeclaringFirst (t.addExportedType e).2) :
    ctx.ListedFor (t.addExportedType e).2 o m id := by
  have hlt := Module.mem_exportIds.mp ho
  refine ⟨h.keeps, ?_, ?_, ?_, ?_⟩
  · rw [hfirst.exportName_of_lt hfirst' hlt, h.name]
  · rw [Module.exportedType_of_lt hlt]
    exact h.entry
  · rw [Module.exportOuter?_of_lt hlt]
    exact h.top
  · intro outer houter
    obtain ⟨o', ho', hout, hname⟩ := h.nested outer houter
    refine ⟨o', ?_, (Module.exportOuter?_of_lt hlt).trans hout, ?_⟩
    · rw [Module.exportIds_addExportedType]
      exact List.mem_append_left _ ho'
    · rw [hfirst.exportName_of_lt hfirst' (Module.mem_exportIds.mp ho'), hname]

/-- An export is put at the top when it is there, and otherwise into the export that has the name of
the one that declares it. -/
def Context.Settled (ctx : Context) (t : Target) (m : ModuleId) (id : ExportId)
    (implementation : ExportTarget) : Prop :=
  implementation.outer? = none ∧ (ctx.module m).exportOuter? id = none
    ∨ ∃ o outer, implementation.outer? = some o ∧ (ctx.module m).exportOuter? id = some outer
      ∧ o ∈ Module.exportIds t ∧ Module.exportName t o = (ctx.module m).exportName outer

theorem Context.Settled.declaringFirst {implementation : ExportTarget}
    (h : ctx.Settled t m id implementation) (hfirst : Module.DeclaringFirst t) :
    Module.DeclaringFirst
      (t.addExportedType { (ctx.module m).exportedType id with implementation }).2 := by
  refine hfirst.addExportedType fun o ho ↦ ?_
  rcases h with ⟨htop, -⟩ | ⟨o', -, hin, -, ho', -⟩
  · cases htop.symm.trans ho
  · cases hin.symm.trans ho
    exact Module.mem_exportIds.mp ho'

theorem Context.Settled.listedFor {implementation : ExportTarget}
    (h : ctx.Settled t m id implementation) (hfirst : Module.DeclaringFirst t)
    (hkeeps : ctx.KeepsExport m id) (hloop : (ctx.module m).exportLoop? id = none) :
    ctx.ListedFor (t.addExportedType { (ctx.module m).exportedType id with implementation }).2
      ⟨t.exportedTypes.length⟩ m id := by
  have hfirst' := h.declaringFirst hfirst
  have hentry := Module.exportedType_added t
    { (ctx.module m).exportedType id with implementation }
  have hout := Module.exportOuter?_added t
    { (ctx.module m).exportedType id with implementation }
  rcases h with ⟨htop, hsource⟩ | ⟨o, outer, hin, houter, ho, hname⟩
  · have hout' := hout.trans htop
    refine ⟨hkeeps, ?_, ?_, fun _ ↦ hout', fun outer houter ↦ ?_⟩
    · rw [Module.exportName_of_top hout', Module.exportName_of_top hsource, hentry]
    · rw [hentry]
    · cases hsource.symm.trans houter
  · have hout' := hout.trans hin
    have hname' := (hfirst.exportName_of_lt hfirst' (Module.mem_exportIds.mp ho)).trans hname
    refine ⟨hkeeps, ?_, ?_, fun htop ↦ ?_, fun outer' houter' ↦ ⟨o, ?_, hout', ?_⟩⟩
    · rw [Module.exportName_of_nested (hfirst'.exportLoop?_eq_none _) hout',
        Module.exportName_of_nested hloop houter, hname', hentry]
    · rw [hentry]
    · cases houter.symm.trans htop
    · rw [Module.exportIds_addExportedType]
      exact List.mem_append_left _ ho
    · cases houter.symm.trans houter'
      exact hname'

end Added

namespace ExportTable.Lists

variable {ctx : Context} {emitted : ExportTable} {done : List (ModuleId × ExportId)} {t : Target}
  {m : ModuleId} {id : ExportId}

theorem settled (h : emitted.Lists ctx done t) {implementation : ExportTarget}
    (hsettles : Import.Settles emitted (ctx.module m) id implementation) :
    ctx.Settled t m id implementation := by
  cases implementation with
  | assembly a | «local» => exact .inl ⟨rfl, hsettles⟩
  | declaring o =>
    obtain ⟨outer, houter, hfind⟩ := hsettles
    exact .inr ⟨o, outer, rfl, houter, h.find?_eq_some hfind⟩

theorem comesUp_of_settled (h : emitted.Lists ctx done t) (hpre : done ++ [(m, id)] <+: ctx.exports)
    (hkeeps : ctx.KeepsExport m id) {implementation : ExportTarget}
    (hsettled : ctx.Settled t m id implementation) {qualified : String} :
    ctx.ComesUp done.length qualified ↔ (ctx.module m).exportName id = qualified := by
  refine (h.comesUp_iff hpre).trans (and_iff_left ⟨hkeeps, fun outer houter ↦ ?_⟩)
  rcases hsettled with ⟨-, htop⟩ | ⟨o, outer', -, houter', ho, hname⟩
  · cases htop.symm.trans houter
  · cases houter.symm.trans houter'
    rw [h.keys_eq, ← hname]
    exact List.mem_map_of_mem ho

theorem add (h : emitted.Lists ctx done t) (hpre : done ++ [(m, id)] <+: ctx.exports)
    (hkeeps : ctx.KeepsExport m id) (hloop : (ctx.module m).exportLoop? id = none)
    (hnew : emitted.find? ((ctx.module m).exportName id) = none) {implementation : ExportTarget}
    (hsettles : Import.Settles emitted (ctx.module m) id implementation) :
    ExportTable.Lists
      (emitted.insertNew ((ctx.module m).exportName id) ⟨t.exportedTypes.length⟩) ctx
      (done ++ [(m, id)])
      (t.addExportedType { (ctx.module m).exportedType id with implementation }).2 := by
  have hsettled := h.settled hsettles
  have hfirst' := hsettled.declaringFirst h.declaringFirst
  have hlisted := hsettled.listedFor h.declaringFirst hkeeps hloop
  have hkeys : (emitted.insertNew ((ctx.module m).exportName id)
      ⟨t.exportedTypes.length⟩).keys = emitted.keys ++ [(ctx.module m).exportName id] := by
    rw [Table.insertNew_of_find?_eq_none hnew]
    simp [Table.keys]
  refine ⟨hfirst', ?_, ?_, ?_, ?_⟩
  · rw [Table.insertNew_of_find?_eq_none hnew, Module.exportIds_addExportedType, List.map_append,
      List.map_singleton, hlisted.name, h.entries]
    refine congrArg (· ++ _) (List.map_congr_left fun o ho ↦ ?_)
    rw [h.declaringFirst.exportName_of_lt hfirst' (Module.mem_exportIds.mp ho)]
  · rw [hkeys, ← List.concat_eq_append]
    exact h.distinct.concat (Table.find?_eq_none_iff.mp hnew)
  · intro qualified
    rw [hkeys, List.mem_append, List.mem_singleton, h.names, List.length_append,
      List.length_singleton, Nat.exists_lt_succ_right, h.comesUp_of_settled hpre hkeeps hsettled,
      eq_comm]
  · intro o ho
    rw [Module.exportIds_addExportedType] at ho
    rcases List.mem_append.mp ho with ho | ho
    · obtain ⟨x, hx, hfor⟩ := h.sources o ho
      exact ⟨x, List.mem_append_left _ hx, hfor.addExportedType ho h.declaringFirst hfirst'⟩
    · rw [List.mem_singleton.mp ho]
      exact ⟨(m, id), List.mem_append_right _ (List.mem_singleton_self _), hlisted⟩

/-- Resolving the next export keeps the list what it is to be. -/
theorem step {emitted' : ExportTable} {s s' : ImportState}
    (h : emitted.Lists ctx done s.target) (hpre : done ++ [(m, id)] <+: ctx.exports)
    (houtcome : Import.ExportOutcome ctx emitted m id s emitted' s') :
    emitted'.Lists ctx (done ++ [(m, id)]) s'.target := by
  cases houtcome with
  | resolved hleads hplace =>
    have hsame := Import.sameExports_of_ensureDeclared hplace
    refine (h.congr hsame.exported).pass fun qualified hup ↦ ?_
    obtain ⟨-, hkeeps, -⟩ := (h.comesUp_iff hpre).mp hup
    exact absurd hleads (hkeeps.unresolved _ _)
  | passedOver hout hsame hpassed =>
    refine (h.congr hsame.exported).pass fun qualified hup ↦ ?_
    obtain ⟨rfl, hkeeps, hlisted⟩ := (h.comesUp_iff hpre).mp hup
    cases hpassed with
    | hidden hhidden =>
      rw [hkeeps.shown] at hhidden
      cases hhidden
    | known hknown => exact hknown
    | orphan houter hfind => exact absurd (hlisted _ houter) (Table.find?_eq_none_iff.mp hfind)
  | @listed r s₁ implementation hout hsame hshown hnew hloop hsettles =>
    exact (h.congr hsame.exported).add hpre ⟨hout.not_leads, hshown⟩ hloop hnew hsettles

end ExportTable.Lists

/-! ## The exports of a link -/

@[simp] theorem ImportState.exportedTypes_finish (s : ImportState) (ctx : Context) :
    (s.finish ctx).exportedTypes = s.target.exportedTypes := by
  change (applyOffsets _ _ _).2.exportedTypes = _
  unfold applyOffsets
  split <;> rfl

theorem Import.lists_of_all {ctx : Context} {s : ImportState} (hctx : ctx.registry.Accepted)
    (h : Import.all ctx ctx.startImport = .ok () s) :
    ∃ emitted : ExportTable, emitted.Lists ctx ctx.exports s.target := by
  obtain ⟨s₂, -, hsame, hresolve⟩ := exists_resolveExports hctx h
  have hnone : s₂.target.exportedTypes = [] := hsame.exported
  have hids : Module.exportIds s₂.target = [] := by
    rw [Module.exportIds, hnone]
    rfl
  have hstart : ExportTable.Lists {} ctx [] s₂.target := by
    refine ⟨fun e o ho ↦ ?_, ?_, List.nodup_nil, fun qualified ↦ ?_, fun e he ↦ ?_⟩
    · rw [Module.exportOuter?_of_not_lt (by simp [hnone])] at ho
      cases ho
    · rw [hids]
      rfl
    · exact iff_of_false (by simp [Table.keys]) (by simp)
    · rw [hids] at he
      cases he
  exact resolveExports_induction
    (J := fun done emitted s ↦ ExportTable.Lists emitted ctx done s.target) hresolve hstart
    fun hpre hlists hround ↦ hlists.step hpre (outcome_of_resolveExport hround)

/-- The exports of an output are exactly what they are to be: their names are distinct, they are the
names that are to be exported, and each export lives where the one that it was made from does. -/
structure Context.ListsExactly (ctx : Context) (output : Module) : Prop where
  distinct : output.exportNames.Nodup
  names : ∀ qualified, qualified ∈ output.exportNames ↔ ctx.ExportedName qualified
  sources : ∀ e ∈ output.exportIds, ∃ x ∈ ctx.exports, ctx.ListedFor output e x.1 x.2

/-- The exports of an output are those whose names come up. -/
structure Context.ListsExports (ctx : Context) (output : Module) : Prop where
  distinct : output.exportNames.Nodup
  names : ∀ qualified, qualified ∈ output.exportNames ↔ ∃ k, ctx.ComesUp k qualified
  sources : ∀ e ∈ output.exportIds, ∃ x ∈ ctx.exports, ctx.ListedFor output e x.1 x.2
  /-- No name is listed that is not to be. -/
  within : ∀ qualified ∈ output.exportNames, ctx.ExportedName qualified
  /-- None is missing exactly when a kept export is listed with the one that declares it. -/
  exactly_iff : ctx.ListsExactly output ↔ ∀ m id outer, (m, id) ∈ ctx.exports →
    ctx.KeepsExport m id → (ctx.module m).exportOuter? id = some outer →
    (ctx.module m).exportName outer ∈ output.exportNames →
    (ctx.module m).exportName id ∈ output.exportNames
  /-- In particular none is missing when declaring exports stand in front of what they declare, and
  are kept with it. -/
  ordered : (∀ m id outer, (m, id) ∈ ctx.exports → ctx.KeepsExport m id →
      (ctx.module m).exportOuter? id = some outer →
      ctx.KeepsExport m outer ∧ outer.index < id.index) →
    ctx.ListsExactly output

theorem ExportTable.Lists.listsExports {ctx : Context} {emitted : ExportTable} {output : Module}
    (h : emitted.Lists ctx ctx.exports output) : ctx.ListsExports output := by
  have hdistinct : output.exportNames.Nodup := h.keys_eq ▸ h.distinct
  have hnames : ∀ qualified, qualified ∈ output.exportNames ↔ ∃ k, ctx.ComesUp k qualified := by
    intro qualified
    rw [← h.keys_eq, h.names]
    exact exists_congr fun k ↦ and_iff_right_of_imp fun hup ↦ hup.lt_length
  have hexactly : ctx.ListsExactly output
      ↔ ∀ qualified, ctx.ExportedName qualified ↔ ∃ k, ctx.ComesUp k qualified := by
    constructor
    · intro hexact qualified
      rw [← hexact.names, hnames]
    · intro hall
      exact ⟨hdistinct, fun qualified ↦ (hnames qualified).trans (hall qualified).symm, h.sources⟩
  refine ⟨hdistinct, hnames, h.sources, fun qualified hlisted ↦ ?_, ?_, fun hordered ↦ ?_⟩
  · obtain ⟨k, hup⟩ := (hnames qualified).mp hlisted
    exact hup.exportedName
  · simp only [hexactly, hnames]
    exact Context.exportedName_iff_comesUp
  · rw [hexactly, Context.exportedName_iff_comesUp]
    intro m id _ hexport hkeeps _ _
    obtain ⟨k, hat⟩ := List.mem_iff_getElem?.mp hexport
    exact ⟨k, Context.comesUp_of_ordered hordered hat hkeeps⟩

/-- Every output lists the exports whose names come up, each once and where it belongs. -/
theorem listsExports_of_link {settings : Settings} {inputs : List Input} {r : Linked}
    (h : link settings inputs = .ok r) :
    ∃ ctx s, LinkedThrough settings inputs ctx s r ∧ ctx.ListsExports r.module := by
  obtain ⟨ctx, s, hthrough⟩ := link_eq_ok_iff.mp h
  have hctx := (Registry.accepted_of_ofInputs hthrough.inputs).1
  obtain ⟨emitted, hlists⟩ := Import.lists_of_all hctx hthrough.imported
  refine ⟨ctx, s, hthrough, ExportTable.Lists.listsExports (hlists.congr ?_)⟩
  rw [hthrough.module]
  exact s.exportedTypes_finish ctx

/-! ## A nested export -/

/-- A program that exports types of another module again. -/
def exporting (exportedTypes : List ExportedType) : List Input :=
  [{ isPrimary := true
     module := {
      name := "App", assemblyRefs := [{ name := "Ext", version := {} }], exportedTypes } }]

/-- The outer type stands in front of the one inside it. -/
def outerFirst : List Input := exporting [
  { nspace := "Kit", name := "Outer", implementation := .assembly ⟨0⟩, isForwarder := true },
  { nspace := "", name := "Inner", implementation := .declaring ⟨0⟩, isForwarder := true }]

/-- The outer type stands behind the one inside it. -/
def innerFirst : List Input := exporting [
  { nspace := "", name := "Inner", implementation := .declaring ⟨1⟩, isForwarder := true },
  { nspace := "Kit", name := "Outer", implementation := .assembly ⟨0⟩, isForwarder := true }]

/-- Both types are listed when the outer one comes first. -/
theorem listsExports_outerFirst : ∃ r, link {} outerFirst = .ok r
    ∧ r.module.exportNames = ["Kit.Outer", "Kit.Outer/Inner"]
    ∧ ∃ ctx s, LinkedThrough {} outerFirst ctx s r ∧ ctx.ListsExports r.module := by
  have hok : (link {} outerFirst).toOption.map (fun r ↦ r.module.exportNames)
      = some ["Kit.Outer", "Kit.Outer/Inner"] := by decide +kernel
  cases h : link {} outerFirst with
  | error e =>
    rw [h] at hok
    cases hok
  | ok r =>
    rw [h] at hok
    exact ⟨r, rfl, Option.some.inj hok, listsExports_of_link h⟩

/-- The link of the program whose outer type stands behind. -/
def innerFirstLink : Context where
  registry := ⟨innerFirst⟩
  policy := ⟨false, [], [], [], false⟩
  targetName := "App"

/-- What all steps before the output is finished leave. -/
def innerFirstImported : ImportState :=
  Import.finalState (Import.all innerFirstLink) innerFirstLink.startImport

/-- Both types are to be exported, and the inner one is missing when it comes first. -/
theorem not_listsExactly_innerFirst :
    ¬∀ ctx s r, LinkedThrough {} innerFirst ctx s r → ctx.ListsExactly r.module := by
  intro h
  have hall : Import.all innerFirstLink innerFirstLink.startImport = .ok () innerFirstImported :=
    Import.eq_ok_of_succeeds (by decide +kernel)
  have hthrough : LinkedThrough {} innerFirst innerFirstLink innerFirstImported ⟨_, _⟩ :=
    ⟨rfl, rfl, rfl, hall, rfl, rfl⟩
  have hkeeps : ∀ id : ExportId, innerFirstLink.followForwarders ⟨0⟩
      ((innerFirstLink.module ⟨0⟩).exportName id) = .ok (.external ⟨0⟩ ⟨0⟩) →
      innerFirstLink.KeepsExport ⟨0⟩ id := by
    refine fun id hwalk ↦ ⟨fun d type hleads ↦ ?_, rfl⟩
    cases hwalk.symm.trans hleads.walk
  have houter : innerFirstLink.ExportedName ((innerFirstLink.module ⟨0⟩).exportName ⟨1⟩) :=
    .top (by decide +kernel) (hkeeps ⟨1⟩ (by decide +kernel)) rfl
  have hinner : innerFirstLink.ExportedName ((innerFirstLink.module ⟨0⟩).exportName ⟨0⟩) :=
    .nested (by decide +kernel) (hkeeps ⟨0⟩ (by decide +kernel)) rfl houter
  have hlisted := ((h _ _ _ hthrough).names _).mpr hinner
  have hmissing : (innerFirstLink.module ⟨0⟩).exportName ⟨0⟩
      ∉ Module.exportNames (innerFirstImported.finish innerFirstLink) := by decide +kernel
  exact hmissing hlisted

end ModuleLinker

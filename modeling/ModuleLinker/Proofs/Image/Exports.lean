import ModuleLinker.Import.Exports
import ModuleLinker.Proofs.Image.Closed

/-!
# Names of exports

An export that comes back to no export is known by the name that it has inside the export that
declares it. In a module where declaring exports stand before those that they declare no export
comes back, and names stay what they are while exports are added.
-/

namespace ModuleLinker.Module

variable {m : Module} {id outer : ExportId}

/-- The export that declares an export. -/
def exportOuter? (m : Module) (id : ExportId) : Option ExportId :=
  (m.exportedType id).implementation.outer?

/-! ## Chains of exports -/

theorem exportChain_eq_cons (m : Module) (id : ExportId) : ∃ rest, m.exportChain id = id :: rest :=
  Chain.distinct_eq_cons _ _ _ _

theorem exportChain_of_complete {rest : List ExportId}
    (h : Chain.Complete m.exportOuter? (id :: rest)) (hlen : rest.length ≤ m.exportedTypes.length) :
    m.exportChain id = id :: rest :=
  h.distinct_eq hlen fun _ _ hseen ↦ by cases hseen

theorem complete_exportChain (h : m.exportLoop? id = none) :
    Chain.Complete m.exportOuter? (m.exportChain id) :=
  Chain.complete_distinct h

theorem exportChain_of_top (h : m.exportOuter? id = none) : m.exportChain id = [id] :=
  exportChain_of_complete (.last h) (Nat.zero_le _)

theorem exportChain_of_nested (hloop : m.exportLoop? id = none)
    (h : m.exportOuter? id = some outer) : m.exportChain id = id :: m.exportChain outer := by
  have hcomplete := complete_exportChain hloop
  obtain ⟨rest, hrest⟩ := m.exportChain_eq_cons id
  have hlen : (m.exportChain id).length ≤ m.exportedTypes.length + 1 :=
    Chain.length_distinct_le _ _ _ _
  rw [hrest] at hcomplete hlen ⊢
  cases hcomplete with
  | last hnone =>
    rw [h] at hnone
    cases hnone
  | @link _ b rest hb hcomplete =>
    obtain rfl : outer = b := Option.some.inj (h.symm.trans hb)
    simp only [List.length_cons] at hlen
    rw [exportChain_of_complete hcomplete (by omega)]

/-! ## Names

The name of a nested export is that of its declaring export with its own name behind it, so it can
be computed from the outermost export inwards. -/

theorem exportName_of_top (h : m.exportOuter? id = none) :
    m.exportName id = joinNamespace (m.exportedType id).nspace (m.exportedType id).name := by
  rw [exportName, exportChain_of_top h]
  rfl

theorem exportName_of_nested (hloop : m.exportLoop? id = none)
    (h : m.exportOuter? id = some outer) :
    m.exportName id = m.exportName outer ++ "/" ++ (m.exportedType id).name := by
  obtain ⟨rest, hrest⟩ := m.exportChain_eq_cons outer
  rw [exportName, exportChain_of_nested hloop h, exportName, hrest]
  exact chainName_cons_cons _ _ _

theorem exportName_ne_of_lt {qualified : String} (h : m.findExport? qualified = some id)
    {earlier : ExportId} (hlt : earlier.index < id.index) : m.exportName earlier ≠ qualified := by
  obtain ⟨-, i, hi, hid, hbefore⟩ := List.find?_eq_some_iff_getElem.mp h
  have hread : ∀ (j : Nat) (hj : j < m.exportIds.length), m.exportIds[j] = ⟨j⟩ := by
    simp [exportIds]
  rw [hread i hi] at hid
  subst hid
  have hnot := hbefore earlier.index hlt
  rw [hread] at hnot
  simpa using hnot

/-! ## Modules with the same exports -/

section Congr

variable {m' : Module} (h : m'.exportedTypes = m.exportedTypes)
include h

theorem exportIds_congr : m'.exportIds = m.exportIds := by
  rw [exportIds, h, exportIds]

theorem exportedType_congr : m'.exportedType = m.exportedType := by
  funext e
  rw [exportedType, h, exportedType]

theorem exportOuter?_congr : m'.exportOuter? = m.exportOuter? := by
  funext e
  rw [exportOuter?, exportedType_congr h, exportOuter?]

theorem exportName_congr : m'.exportName = m.exportName := by
  funext e
  simp only [exportName, exportChain, exportedType_congr h, h]

end Congr

/-! ## Declaring exports that come first

Where declaring exports have smaller ids, the ids go down along a chain, which therefore ends. The
exports of the output are of that kind, while those of an input may come in any order. -/

/-- Declaring exports stand before those that they declare. -/
def DeclaringFirst (m : Module) : Prop :=
  ∀ id outer, m.exportOuter? id = some outer → outer.index < id.index

theorem exportOuter?_of_not_lt (h : ¬id.index < m.exportedTypes.length) :
    m.exportOuter? id = none := by
  rw [exportOuter?, exportedType, List.getD_eq_default _ _ (Nat.le_of_not_lt h)]
  rfl

theorem DeclaringFirst.exportLoop?_eq_none (h : m.DeclaringFirst) (id : ExportId) :
    m.exportLoop? id = none := by
  have hcomplete : Chain.Complete m.exportOuter? (m.exportChain id) := by
    by_cases hid : id.index < m.exportedTypes.length
    · have hfollow := Chain.complete_follow
        (Chain.endsWithin_of_lt ExportId.index h (Nat.le_refl id.index))
      obtain ⟨rest, hrest⟩ := Chain.follow_eq_cons m.exportOuter? id.index id
      have hlen := Chain.length_follow_le m.exportOuter? id.index id
      rw [hrest] at hfollow hlen
      rw [List.length_cons] at hlen
      rw [exportChain_of_complete hfollow (by omega)]
      exact hfollow
    · have htop := exportOuter?_of_not_lt hid
      rw [exportChain_of_top htop]
      exact .last htop
  exact hcomplete.getLastD id

/-! ## Exports of a module that is accepted

Validation has looked at the ids in exports but not at where their chains lead, so an accepted
module may have exports in a circle. -/

section Accepted

variable (h : m.fault? = none)
include h

theorem lt_of_exportOuter? (houter : m.exportOuter? id = some outer) :
    outer.index < m.exportedTypes.length := by
  by_cases hid : id.index < m.exportedTypes.length
  · refine (closed_of_accepted h).exportedTypes _ (exportedType_mem hid)
      (.exportedType, outer.index) ?_
    rw [exportOuter?] at houter
    cases himpl : (m.exportedType id).implementation with
    | declaring o =>
      rw [himpl] at houter
      cases houter
      rw [ExportedType.ids, himpl]
      exact List.mem_singleton_self _
    | assembly _ | «local» =>
      rw [himpl] at houter
      cases houter
  · rw [exportOuter?_of_not_lt hid] at houter
    cases houter

theorem exportAssembly?_lt {a : AssemblyRefId} (hid : id ∈ m.exportIds)
    (ha : m.exportAssembly? id = some a) : a.index < m.assemblyRefs.length := by
  have hid := mem_exportIds.mp hid
  have hchain : ∀ e ∈ m.exportChain id, e.index < m.exportedTypes.length :=
    Chain.forall_mem_distinct (fun _ _ houter _ ↦ lt_of_exportOuter? h houter) hid
  have hlast : ((m.exportChain id).getLastD id).index < m.exportedTypes.length := by
    rcases List.eq_nil_or_concat (m.exportChain id) with hnil | ⟨_, last, heq⟩
    · rwa [hnil]
    · rw [heq] at hchain ⊢
      simpa using hchain last (by simp)
  refine (closed_of_accepted h).exportedTypes _ (exportedType_mem hlast) (.assemblyRef, a.index) ?_
  unfold exportAssembly? exportRoot at ha
  rw [ExportedType.ids]
  split at ha
  · next himpl =>
    cases ha
    rw [himpl]
    exact List.mem_singleton_self _
  · cases ha

end Accepted

/-! ## An export that is added -/

section Added

variable {e : ExportedType}

theorem exportIds_addExportedType (m : Module) (e : ExportedType) :
    (m.addExportedType e).2.exportIds = m.exportIds ++ [⟨m.exportedTypes.length⟩] := by
  simp [exportIds, addExportedType, List.range_succ]

theorem exportedType_added (m : Module) (e : ExportedType) :
    (m.addExportedType e).2.exportedType ⟨m.exportedTypes.length⟩ = e := by
  rw [exportedType_addExportedType, if_pos rfl]

theorem exportOuter?_added (m : Module) (e : ExportedType) :
    (m.addExportedType e).2.exportOuter? ⟨m.exportedTypes.length⟩ = e.implementation.outer? := by
  rw [exportOuter?, exportedType_added]

theorem exportedType_of_lt (hid : id.index < m.exportedTypes.length) :
    (m.addExportedType e).2.exportedType id = m.exportedType id := by
  rw [exportedType_addExportedType, if_neg]
  rintro rfl
  exact Nat.lt_irrefl _ hid

theorem exportOuter?_of_lt (hid : id.index < m.exportedTypes.length) :
    (m.addExportedType e).2.exportOuter? id = m.exportOuter? id := by
  rw [exportOuter?, exportedType_of_lt hid, exportOuter?]

/-- Declaring exports stand first when exports are added behind those that declare them. -/
theorem DeclaringFirst.addExportedType (h : m.DeclaringFirst)
    (hin : ∀ outer, e.implementation.outer? = some outer →
      outer.index < m.exportedTypes.length) : (m.addExportedType e).2.DeclaringFirst := by
  intro id outer houter
  by_cases hid : id = ⟨m.exportedTypes.length⟩
  · subst hid
    rw [exportOuter?_added] at houter
    exact hin outer houter
  · rw [exportOuter?, exportedType_addExportedType, if_neg hid] at houter
    exact h id outer houter

theorem DeclaringFirst.exportName_of_lt (h : m.DeclaringFirst)
    (h' : (m.addExportedType e).2.DeclaringFirst) {id : ExportId}
    (hid : id.index < m.exportedTypes.length) :
    (m.addExportedType e).2.exportName id = m.exportName id := by
  induction hn : id.index using Nat.strong_induction_on generalizing id with
  | _ n ih =>
    have hsame := exportedType_of_lt (e := e) hid
    have houter := exportOuter?_of_lt (e := e) hid
    cases ho : m.exportOuter? id with
    | none => rw [exportName_of_top ho, exportName_of_top (houter.trans ho), hsame]
    | some outer =>
      have hlt := h id outer ho
      rw [exportName_of_nested (h.exportLoop?_eq_none id) ho,
        exportName_of_nested (h'.exportLoop?_eq_none id) (houter.trans ho), hsame,
        ih outer.index (hn ▸ hlt) (Nat.lt_trans hlt hid) rfl]

end Added

end ModuleLinker.Module

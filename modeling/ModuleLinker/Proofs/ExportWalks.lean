import ModuleLinker.Proofs.Image.Exports
import ModuleLinker.Proofs.Image.Growth

/-!
# Walks along declaring exports

Four walks go from an export to the export that declares it, and on: one spells the name, one asks
for the flag of a forwarder, one looks for the module that the outermost export names, and one makes
references for all of them. They are written apart. Each stops in its own way when it comes to an
entry that it has passed, and the first three only look at that entry while the last one enters it
and fails.

All of them see the chain that is cut before its first repetition, and no entry of it twice, also
when the exports declare one another in a circle, or lead into a circle from outside. So they agree
with what is said about that chain, and with each other.
-/

namespace ModuleLinker

namespace Module

variable (m : Module)

/-! ## The walks

All four are bounded by a number of entries, since a circle would otherwise keep them going. That
bound is never what ends one of them: what ends it is an entry that it has passed. -/

/-- An export is declared by another. -/
def DeclaredBy (id outer : ExportId) : Prop := m.exportOuter? id = some outer

/-- The name that the last export of a walk and the segments behind it spell. -/
def joinSegments (id : ExportId) (segments : List String) : String :=
  "/".intercalate
    (joinNamespace (m.exportedType id).nspace (m.exportedType id).name :: segments)

/-- Spell the name: segments are collected from the innermost on, and joined when the walk ends. As
in the other walks, nothing when it has not ended after so many entries, and otherwise the result
with the entries that have been looked at, last one first. -/
def nameWalk : (entries : Nat) → (seen : List ExportId) → (segments : List String) → ExportId →
    Option (String × List ExportId)
  | 0, _, _, _ => none
  | entries + 1, seen, segments, id =>
    match (m.exportedType id).implementation with
    | .declaring outer =>
      if outer ∈ id :: seen then some (m.joinSegments id segments, id :: seen)
      else nameWalk entries (id :: seen) ((m.exportedType id).name :: segments) outer
    | .assembly _ | .local => some (m.joinSegments id segments, id :: seen)

/-- Ask for the flag of a forwarder, and no further once it is found. -/
def forwardsWalk : (entries : Nat) → (seen : List ExportId) → ExportId →
    Option (Bool × List ExportId)
  | 0, _, _ => none
  | entries + 1, seen, id =>
    if (m.exportedType id).isForwarder then some (true, id :: seen)
    else
      match (m.exportedType id).implementation with
      | .declaring outer =>
        if outer ∈ id :: seen then some (false, id :: seen)
        else forwardsWalk entries (id :: seen) outer
      | .assembly _ | .local => some (false, id :: seen)

/-- Look for the module that the outermost export names. -/
def assemblyWalk : (entries : Nat) → (seen : List ExportId) → ExportId →
    Option (Option AssemblyRefId × List ExportId)
  | 0, _, _ => none
  | entries + 1, seen, id =>
    match (m.exportedType id).implementation with
    | .assembly a => some (some a, id :: seen)
    | .declaring outer =>
      if outer ∈ id :: seen then some (none, id :: seen)
      else assemblyWalk entries (id :: seen) outer
    | .local => some (none, id :: seen)

/-- How an export is shown in an error. -/
def exportText (id : ExportId) : String := "[" ++ m.name ++ "]" ++ m.exportName id

/-- Make references, the outermost first, on the way back. An export that is entered a second time
is the error; the exports on the way to it are in `chain`, last one first. -/
def referWalk (root : Scope) : (calls : Nat) → (chain : List ExportId) → Target → ExportId →
    Option (Except LinkError (TypeRefId × Target))
  | 0, _, _, _ => none
  | calls + 1, chain, t, id =>
    if id ∈ chain then some (.error (.cyclicForwarder ((id :: chain).reverse.map m.exportText)))
    else
      match (m.exportedType id).implementation with
      | .declaring outer =>
        match referWalk root calls (id :: chain) t outer with
        | some (.ok (o, t)) => some (.ok (t.internTypeRef
          ⟨.nested o, (m.exportedType id).nspace, (m.exportedType id).name⟩))
        | stopped => stopped
      | .assembly _ | .local => some (.ok (t.internTypeRef
        ⟨root, (m.exportedType id).nspace, (m.exportedType id).name⟩))

/-! ## What the walks see

Each walk is compared with the cut chain of the export by an induction on the chain, from any
point of the walk on. What has been passed before the point is part of the statement, because the
chain is cut with regard to it. -/

variable {m} {id : ExportId} {seen rest : List ExportId}

theorem exportOuter?_eq_some {outer : ExportId} :
    m.exportOuter? id = some outer ↔ (m.exportedType id).implementation = .declaring outer := by
  unfold exportOuter?
  cases (m.exportedType id).implementation <;> simp [ExportTarget.outer?]

/-- The namespace and the name of an export. -/
def exportLabel (m : Module) (id : ExportId) : String × String :=
  ((m.exportedType id).nspace, (m.exportedType id).name)

/-- The walk spells the name of the cut chain, in front of the segments that are there. -/
theorem nameWalk_of_cut (h : Chain.Cut m.exportOuter? seen id rest) {entries : Nat}
    (hentries : rest.length < entries) (segments : List String) :
    m.nameWalk entries seen segments id
      = some ("/".intercalate (chainName ((id :: rest).map m.exportLabel) :: segments),
        (id :: rest).reverse ++ seen) := by
  induction h generalizing entries segments with
  | @stop seen id h =>
    obtain ⟨entries, rfl⟩ := Nat.exists_eq_add_one_of_ne_zero (Nat.ne_zero_of_lt hentries)
    unfold nameWalk
    cases himpl : (m.exportedType id).implementation with
    | declaring outer =>
      dsimp only
      rw [if_pos (h outer (exportOuter?_eq_some.mpr himpl))]
      rfl
    | assembly _ | «local» => rfl
  | @link seen rest id outer hlink hnew hrest ih =>
    obtain ⟨entries, rfl⟩ := Nat.exists_eq_add_one_of_ne_zero (Nat.ne_zero_of_lt hentries)
    unfold nameWalk
    rw [exportOuter?_eq_some.mp hlink]
    dsimp only
    rw [if_neg hnew, ih (by simpa using hentries)]
    have hname : chainName ((id :: outer :: rest).map m.exportLabel)
        = chainName ((outer :: rest).map m.exportLabel) ++ "/" ++ (m.exportedType id).name :=
      chainName_cons_cons _ _ _
    rw [hname, String.intercalate_cons_append, String.intercalate_cons_cons]
    simp

/-- The walk finds out whether an entry of the cut chain is flagged, and looks at a beginning of
it. -/
theorem forwardsWalk_of_cut (h : Chain.Cut m.exportOuter? seen id rest) {entries : Nat}
    (hentries : rest.length < entries) :
    ∃ looked, looked <+: id :: rest ∧ m.forwardsWalk entries seen id
      = some ((id :: rest).any fun e ↦ (m.exportedType e).isForwarder, looked.reverse ++ seen) := by
  induction h generalizing entries with
  | @stop seen id h =>
    obtain ⟨entries, rfl⟩ := Nat.exists_eq_add_one_of_ne_zero (Nat.ne_zero_of_lt hentries)
    refine ⟨[id], List.prefix_rfl, ?_⟩
    unfold forwardsWalk
    cases hflag : (m.exportedType id).isForwarder with
    | true => simp [hflag]
    | false =>
      rw [if_neg Bool.false_ne_true]
      split
      · next outer himpl =>
        rw [if_pos (h outer (exportOuter?_eq_some.mpr himpl))]
        simp [hflag]
      · simp [hflag]
      · simp [hflag]
  | @link seen rest id outer hlink hnew hrest ih =>
    obtain ⟨entries, rfl⟩ := Nat.exists_eq_add_one_of_ne_zero (Nat.ne_zero_of_lt hentries)
    unfold forwardsWalk
    cases hflag : (m.exportedType id).isForwarder with
    | true => exact ⟨[id], by simp, by simp [hflag]⟩
    | false =>
      obtain ⟨looked, hpre, hlooked⟩ := ih (Nat.lt_of_succ_lt_succ hentries)
      refine ⟨id :: looked, (List.prefix_cons_inj id).mpr hpre, ?_⟩
      rw [exportOuter?_eq_some.mp hlink]
      dsimp only
      rw [if_neg Bool.false_ne_true, if_neg hnew, hlooked]
      simp [hflag]

/-- The walk answers with the module that the last entry of the cut chain names, if it names one. -/
theorem assemblyWalk_of_cut (h : Chain.Cut m.exportOuter? seen id rest) {entries : Nat}
    (hentries : rest.length < entries) :
    m.assemblyWalk entries seen id
      = some (match (m.exportedType (rest.getLastD id)).implementation with
          | .assembly a => some a
          | _ => none, (id :: rest).reverse ++ seen) := by
  induction h generalizing entries with
  | @stop seen id h =>
    obtain ⟨entries, rfl⟩ := Nat.exists_eq_add_one_of_ne_zero (Nat.ne_zero_of_lt hentries)
    unfold assemblyWalk
    rw [List.getLastD_nil]
    cases himpl : (m.exportedType id).implementation with
    | assembly a => rfl
    | declaring outer =>
      dsimp only
      rw [if_pos (h outer (exportOuter?_eq_some.mpr himpl))]
      rfl
    | «local» => rfl
  | @link seen rest id outer hlink hnew hrest ih =>
    obtain ⟨entries, rfl⟩ := Nat.exists_eq_add_one_of_ne_zero (Nat.ne_zero_of_lt hentries)
    unfold assemblyWalk
    rw [exportOuter?_eq_some.mp hlink, List.getLastD_cons]
    dsimp only
    rw [if_neg hnew, ih (by simpa using hentries)]
    simp

/-- The walk makes the references for a chain that is complete. Otherwise it enters one entry more,
the one that the chain comes back to, and fails. -/
theorem referWalk_of_cut (h : Chain.Cut m.exportOuter? seen id rest) (hid : id ∉ seen) {calls : Nat}
    (hcalls : rest.length + 1 < calls) (root : Scope) (t : Target) :
    m.referWalk root calls seen t id = some (match m.exportOuter? (rest.getLastD id) with
      | none => .ok (t.referChain m root (id :: rest))
      | some repeated => .error (.cyclicForwarder
          ((seen.reverse ++ (id :: rest) ++ [repeated]).map m.exportText))) := by
  induction h generalizing calls with
  | @stop seen id h =>
    obtain ⟨calls, rfl⟩ : ∃ n, calls = n + 2 := ⟨calls - 2, by simp at hcalls; omega⟩
    unfold referWalk
    rw [List.getLastD_nil, if_neg hid]
    cases himpl : (m.exportedType id).implementation with
    | declaring outer =>
      have houter := exportOuter?_eq_some.mpr himpl
      rw [houter]
      dsimp only
      unfold referWalk
      rw [if_pos (h outer houter)]
      simp
    | assembly _ | «local» =>
      have houter : m.exportOuter? id = none := by rw [exportOuter?, himpl]; rfl
      rw [houter]
      rfl
  | @link seen rest id outer hlink hnew hrest ih =>
    obtain ⟨calls, rfl⟩ : ∃ n, calls = n + 1 := ⟨calls - 1, by omega⟩
    unfold referWalk
    rw [List.getLastD_cons, if_neg hid, exportOuter?_eq_some.mp hlink]
    dsimp only
    rw [ih hnew (by simpa using hcalls)]
    cases m.exportOuter? (rest.getLastD outer) with
    | none => rfl
    | some repeated => simp

/-! ## Chains of exports in accepted modules -/

/-- The chain of an export is cut where it repeats, and nowhere else. -/
theorem cut_exportChain (h : m.fault? = none) (hid : id ∈ m.exportIds) :
    ∃ rest, m.exportChain id = id :: rest ∧ Chain.Cut m.exportOuter? [] id rest
      ∧ rest.length < m.exportedTypes.length := by
  have hnext : ∀ a ∈ m.exportIds, ∀ b, m.exportOuter? a = some b → b ∈ m.exportIds :=
    fun _ _ _ hb ↦ mem_exportIds.mpr (lt_of_exportOuter? h hb)
  have hlen : m.exportIds.length = m.exportedTypes.length := by simp [exportIds]
  obtain ⟨rest, hchain, hcut⟩ := Chain.cut_distinct (n := m.exportedTypes.length) hnext
    (List.cons_subset.mpr ⟨hid, List.nil_subset _⟩) (List.nodup_singleton id) (by omega)
  refine ⟨rest, hchain, hcut, ?_⟩
  have hsub : id :: rest ⊆ m.exportIds := by
    intro x hx
    have hreach := hcut.mem_iff.mp hx
    induction hreach with
    | refl => exact hid
    | tail _ hlink _ => exact mem_exportIds.mpr (lt_of_exportOuter? h hlink)
  have hle := (List.subperm_of_subset (hcut.nodup List.not_mem_nil).1 hsub).length_le
  rwa [hlen] at hle

end Module

/-! ## References that mirror exports

References are made on the way back, the outermost first. Each is nested in the one made before
it, so their scopes retrace the chain. -/

namespace Target

/-- References nested in one another, with the namespaces and names of the exports of a chain, and
the outermost in the scope `root`. -/
structure Mirrors (t : Target) (m : Module) (root : Scope) (chain : List ExportId) (r : TypeRefId)
    (outer : List TypeRefId) : Prop where
  complete : Chain.Complete (fun r ↦ (t.typeRef r).scope.outer?) (r :: outer)
  lt : ∀ x ∈ r :: outer, x.index < t.typeRefs.length
  labels : (r :: outer).map (fun x ↦ ((t.typeRef x).nspace, (t.typeRef x).name))
    = chain.map m.exportLabel
  root : (t.typeRef (outer.getLastD r)).scope = root

variable {t t' : Target} {m : Module} {root : Scope} {chain : List ExportId} {r : TypeRefId}
  {outer : List TypeRefId}

namespace Mirrors

theorem mono (h : t.Mirrors m root chain r outer) (ht : Module.Grows t t') :
    t'.Mirrors m root chain r outer := by
  have hsame : ∀ x ∈ r :: outer, t'.typeRef x = t.typeRef x := fun x hx ↦ ht.typeRef (h.lt x hx)
  refine ⟨h.complete.congr fun x hx ↦ by rw [hsame x hx],
    fun x hx ↦ Nat.lt_of_lt_of_le (h.lt x hx) (ht.within .typeRef), ?_, ?_⟩
  · rw [← h.labels]
    exact List.map_congr_left fun x hx ↦ by rw [hsame x hx]
  · rw [hsame _ List.getLastD_mem_cons]
    exact h.root

theorem start {id : ExportId} (hroot : root.outer? = none) (hr : r.index < t.typeRefs.length)
    (href : t.typeRef r = ⟨root, (m.exportedType id).nspace, (m.exportedType id).name⟩) :
    t.Mirrors m root [id] r [] := by
  refine ⟨.last (by rwa [href]), ?_, ?_, ?_⟩
  · intro x hx
    rwa [List.mem_singleton.mp hx]
  · rw [List.map_singleton, href]
    rfl
  · rw [List.getLastD_nil, href]

theorem nest (h : t.Mirrors m root chain r outer) (ht : Module.Grows t t') {id : ExportId}
    {r' : TypeRefId} (hr : r'.index < t'.typeRefs.length)
    (href : t'.typeRef r' = ⟨.nested r, (m.exportedType id).nspace, (m.exportedType id).name⟩) :
    t'.Mirrors m root (id :: chain) r' (r :: outer) := by
  have hthere := h.mono ht
  refine ⟨.link (by rw [href]; rfl) hthere.complete, List.forall_mem_cons.mpr ⟨hr, hthere.lt⟩, ?_,
    ?_⟩
  · refine congrArg₂ List.cons ?_ hthere.labels
    dsimp only
    rw [href]
    rfl
  · rw [List.getLastD_cons]
    exact hthere.root

theorem scopeChain_eq (h : t.Mirrors m root chain r outer) : t.scopeChain r = r :: outer := by
  have hle : (r :: outer).length ≤ t.typeRefs.length := by
    have hsub : (r :: outer).map TypeRefId.index ⊆ List.range t.typeRefs.length := by
      intro i hi
      obtain ⟨x, hx, rfl⟩ := List.mem_map.mp hi
      exact List.mem_range.mpr (h.lt x hx)
    have hnodup : ((r :: outer).map TypeRefId.index).Nodup :=
      h.complete.nodup.map fun _ _ heq ↦ congrArg TypeRefId.mk heq
    simpa using (List.subperm_of_subset hnodup hsub).length_le
  have hends := h.complete.endsWithin (n := t.typeRefs.length) (by simp at hle; omega)
  refine (Chain.complete_follow hends).eq_of_head h.complete ?_
  obtain ⟨rest, hrest⟩ := Chain.follow_eq_cons
    (fun x ↦ (Module.typeRef t x).scope.outer?) t.typeRefs.length r
  rw [hrest]
  rfl

theorem typeRefName_eq (h : t.Mirrors m root chain r outer) :
    t.typeRefName r = chainName (chain.map m.exportLabel) := by
  rw [Module.typeRefName, h.scopeChain_eq, ← h.labels]

theorem rootScope_eq (h : t.Mirrors m root chain r outer) : t.rootScope r = root := by
  rw [Module.rootScope, h.scopeChain_eq, List.getLastD_cons]
  exact h.root

end Mirrors

/-- The references for a chain of exports mirror it. -/
theorem mirrors_referChain (t : Target) (m : Module) (hroot : root.outer? = none) (id : ExportId)
    (rest : List ExportId) :
    ∃ outer, (t.referChain m root (id :: rest)).2.Mirrors m root (id :: rest)
      (t.referChain m root (id :: rest)).1 outer := by
  induction rest generalizing id with
  | nil =>
    exact ⟨[], .start hroot (t.index_internTypeRef _) (t.typeRef_internTypeRef _)⟩
  | cons outer rest ih =>
    obtain ⟨refs, hrefs⟩ := ih outer
    exact ⟨_, hrefs.nest (grows_internTypeRef _ _) (index_internTypeRef _ _)
      (typeRef_internTypeRef _ _)⟩

end Target

/-! ## The walks agree -/

namespace Module

open Relation (ReflTransGen TransGen)

/-- What the walks from an export on come to, and what they see. -/
structure WalksAgree (m : Module) (id : ExportId) : Prop where
  /-- The walks end, after as many entries as there are, with what the library says of exports.
  Those for the name and for the module look at every entry of the chain, that for the flag at a
  beginning of it. -/
  name : ∀ entries, m.exportedTypes.length ≤ entries →
    m.nameWalk entries [] [] id = some (m.exportName id, (m.exportChain id).reverse)
  forwards : ∀ entries, m.exportedTypes.length ≤ entries → ∃ looked, looked <+: m.exportChain id
    ∧ m.forwardsWalk entries [] id = some (m.exportForwards id, looked.reverse)
  assembly : ∀ entries, m.exportedTypes.length ≤ entries →
    m.assemblyWalk entries [] id = some (m.exportAssembly? id, (m.exportChain id).reverse)
  /-- The walk that makes references may enter one entry a second time. -/
  refer : ∀ calls, m.exportedTypes.length < calls → ∀ (root : Scope) (t : Target),
    m.referWalk root calls [] t id = some (t.referExport m root id)
  /-- The chain holds every entry that declares the export, directly or not, and none twice. -/
  nodup : (m.exportChain id).Nodup
  mem_chain : ∀ x, x ∈ m.exportChain id ↔ ReflTransGen m.DeclaredBy id x
  forwards_iff : m.exportForwards id = true
    ↔ ∃ x, ReflTransGen m.DeclaredBy id x ∧ (m.exportedType x).isForwarder = true
  /-- An entry that names a module is declared by no other, so it is the end of the chain. -/
  assembly_iff : ∀ a, m.exportAssembly? id = some a
    ↔ ∃ x, ReflTransGen m.DeclaredBy id x ∧ (m.exportedType x).implementation = .assembly a
  /-- There is no reference exactly when the chain comes to an entry that declares itself, directly
  or not. -/
  circle_iff : ∀ (root : Scope) (t : Target),
    (∃ names, t.referExport m root id = .error (.cyclicForwarder names))
      ↔ ∃ x, ReflTransGen m.DeclaredBy id x ∧ TransGen m.DeclaredBy x x
  /-- Otherwise the reference has the name of the export, and the outermost one the scope asked
  for. -/
  refers : (¬∃ x, ReflTransGen m.DeclaredBy id x ∧ TransGen m.DeclaredBy x x) →
    ∀ (root : Scope) (t : Target), root.outer? = none → ∃ r t',
      t.referExport m root id = .ok (r, t') ∧ r.index < t'.typeRefs.length
        ∧ t'.typeRefName r = m.exportName id ∧ t'.rootScope r = root

section

variable {m : Module} {id : ExportId} {rest : List ExportId}
  (hchain : m.exportChain id = id :: rest) (hcut : Chain.Cut m.exportOuter? [] id rest)
include hchain

theorem exportLoop?_eq : m.exportLoop? id = m.exportOuter? (rest.getLastD id) := by
  rw [exportLoop?, exportRoot, hchain, List.getLastD_cons]
  rfl

include hcut

theorem exportAssembly?_iff (a : AssemblyRefId) : m.exportAssembly? id = some a
    ↔ ∃ x, ReflTransGen m.DeclaredBy id x ∧ (m.exportedType x).implementation = .assembly a := by
  have hroot : m.exportAssembly? id = some a
      ↔ (m.exportedType (rest.getLastD id)).implementation = .assembly a := by
    rw [exportAssembly?, exportRoot, hchain, List.getLastD_cons]
    cases (m.exportedType (rest.getLastD id)).implementation <;> simp
  rw [hroot]
  constructor
  · exact fun h ↦ ⟨_, hcut.reaches_last id List.mem_cons_self, h⟩
  · rintro ⟨x, hx, himpl⟩
    rcases (hcut.reaches_last x (hcut.mem_iff.mpr hx)).cases_head with heq | ⟨y, hy, -⟩
    · rwa [← heq]
    · cases himpl.symm.trans (exportOuter?_eq_some.mp hy)

theorem referExport_circle_iff (root : Scope) (t : Target) :
    (∃ names, t.referExport m root id = .error (.cyclicForwarder names))
      ↔ ∃ x, ReflTransGen m.DeclaredBy id x ∧ TransGen m.DeclaredBy x x := by
  refine Iff.trans ?_ hcut.last_link_iff
  rw [Target.referExport, exportLoop?_eq hchain]
  cases m.exportOuter? (rest.getLastD id) <;> simp

end

/-- In an accepted module the four walks agree from every export on, also where exports declare one
another in a circle. -/
theorem walksAgree_of_validate {m : Module} (hvalid : m.validate = .ok ()) {id : ExportId}
    (hid : id ∈ m.exportIds) : m.WalksAgree id := by
  obtain ⟨rest, hchain, hcut, hlt⟩ := cut_exportChain (validate_eq_ok_iff.mp hvalid) hid
  have hmem : ∀ x, x ∈ m.exportChain id ↔ ReflTransGen m.DeclaredBy id x := fun x ↦
    hchain ▸ hcut.mem_iff
  refine
    { name := fun entries h ↦ ?_, forwards := fun entries h ↦ ?_, assembly := fun entries h ↦ ?_,
      refer := fun calls h root t ↦ ?_, nodup := hchain ▸ (hcut.nodup List.not_mem_nil).1,
      mem_chain := hmem, forwards_iff := ?_, assembly_iff := exportAssembly?_iff hchain hcut,
      circle_iff := referExport_circle_iff hchain hcut, refers := fun hends root t hroot ↦ ?_ }
  · rw [nameWalk_of_cut hcut (by omega) [], String.intercalate_singleton, exportName, hchain,
      List.append_nil]
    rfl
  · obtain ⟨looked, hpre, hwalk⟩ := forwardsWalk_of_cut hcut (Nat.lt_of_lt_of_le hlt h)
    refine ⟨looked, hchain ▸ hpre, ?_⟩
    rw [hwalk, exportForwards, hchain, List.append_nil]
  · have hroot : m.exportRoot id = (m.exportedType (rest.getLastD id)).implementation := by
      rw [exportRoot, hchain, List.getLastD_cons]
    have hwalk := assemblyWalk_of_cut hcut (Nat.lt_of_lt_of_le hlt h)
    rw [List.append_nil, ← hroot, ← hchain] at hwalk
    exact hwalk
  · rw [referWalk_of_cut hcut List.not_mem_nil (by omega), Target.referExport,
      exportLoop?_eq hchain]
    cases m.exportOuter? (rest.getLastD id) with
    | none => rw [hchain]
    | some repeated =>
      dsimp only
      rw [exportCircle, hchain]
      rfl
  · rw [exportForwards, List.any_eq_true]
    simp only [hmem]
  · have hlast : m.exportOuter? (rest.getLastD id) = none := by
      by_contra hnone
      exact hends (hcut.last_link_iff.mp hnone)
    obtain ⟨outer, hmirrors⟩ := t.mirrors_referChain m hroot id rest
    refine ⟨_, _, ?_, hmirrors.lt _ List.mem_cons_self, ?_, hmirrors.rootScope_eq⟩
    · rw [Target.referExport, exportLoop?_eq hchain, hlast, hchain]
    · rw [hmirrors.typeRefName_eq, exportName, hchain]
      rfl

/-- Exports of every kind: a forwarder and a type inside it, two exports that declare each other,
and one that leads into their circle from outside. -/
def ringed : Module where
  name := "Lib"
  assemblyRefs := [{ name := "Core", version := {} }]
  exportedTypes := [
    { nspace := "Core", name := "Table", implementation := .assembly ⟨0⟩, isForwarder := true },
    { nspace := "", name := "Row", implementation := .declaring ⟨0⟩ },
    { nspace := "", name := "East", implementation := .declaring ⟨3⟩ },
    { nspace := "", name := "West", implementation := .declaring ⟨2⟩ },
    { nspace := "", name := "Gate", implementation := .declaring ⟨2⟩ }]

theorem walksAgree_ringed : ringed.WalksAgree ⟨1⟩ ∧ ringed.WalksAgree ⟨4⟩
    ∧ ringed.exportChain ⟨4⟩ = [⟨4⟩, ⟨2⟩, ⟨3⟩] ∧ ringed.exportName ⟨1⟩ = "Core.Table/Row" := by
  have hvalid : ringed.validate = .ok () := by decide
  exact ⟨walksAgree_of_validate hvalid (by decide), walksAgree_of_validate hvalid (by decide),
    by decide, by decide⟩

end Module

end ModuleLinker

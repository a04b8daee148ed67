import Mathlib.Data.List.GetD
import Mathlib.Data.List.Nodup
import ModuleLinker.Context

/-!
# Accepted registries

A registry that was built from a list of inputs holds well-formed modules of different names, one of
them the primary. So a name stands for one module at most, and the import order goes through every
module once.
-/

namespace ModuleLinker

theorem bind_eq_ok_iff {ε α β : Type} {x : Except ε α} {f : α → Except ε β} {b : β} :
    (x >>= f) = .ok b ↔ ∃ a, x = .ok a ∧ f a = .ok b := by
  cases x with
  | error e => simp [bind, Except.bind]
  | ok a => simp [bind, Except.bind]

namespace Registry

/-- Every module is well formed, and no two have the same name. -/
structure Accepted (r : Registry) : Prop where
  wellFormed : ∀ i ∈ r.inputs, i.module.fault? = none
  names : r.inputs.Pairwise fun i j ↦ Text.sameName i.module.name j.module.name = false

/-- No two inputs are primary. -/
def SinglePrimary (r : Registry) : Prop :=
  r.inputs.Pairwise fun i j ↦ (i.isPrimary && j.isPrimary) = false

variable {r : Registry}

/-! ## Accepting inputs

Inputs are taken one after the other. A list is taken as a whole when each of its modules is well
formed, no two have the same name in any case, and no two of them are marked as the primary. -/

theorem primary?_eq_none_iff : r.primary? = none ↔ ∀ i ∈ r.inputs, i.isPrimary = false := by
  simp only [primary?, Option.map_eq_none_iff, List.findIdx?_eq_none_iff]

theorem add_eq_ok_iff {m : Module} {isPrimary : Bool} {added : ModuleId × Registry} :
    r.add m isPrimary = .ok added ↔ m.fault? = none ∧ r.find? m.name = none
      ∧ (isPrimary = true → r.primary? = none)
      ∧ added = (⟨r.size⟩, ⟨r.inputs ++ [⟨m, isPrimary⟩]⟩) := by
  have hvalid : (∃ u, m.validate = .ok u) ↔ m.fault? = none :=
    ⟨fun ⟨_, h⟩ ↦ Module.validate_eq_ok_iff.mp h, fun h ↦ ⟨_, Module.validate_eq_ok_iff.mpr h⟩⟩
  unfold add
  rw [bind_eq_ok_iff, ← hvalid]
  cases hf : r.find? m.name with
  | some id => simp [bind, Except.bind, throw, throwThe, MonadExceptOf.throw]
  | none =>
    cases hp : r.primary? with
    | none => cases isPrimary <;> simp [pure, Except.pure, eq_comm]
    | some first =>
      cases isPrimary <;>
        simp [pure, Except.pure, bind, Except.bind, throw, throwThe, MonadExceptOf.throw, eq_comm]

theorem exists_add_eq_ok_iff (hr : r.Accepted) (hone : r.SinglePrimary) {i : Input}
    {r' : Registry} : (∃ id, r.add i.module i.isPrimary = .ok (id, r'))
      ↔ r'.Accepted ∧ r'.SinglePrimary ∧ r'.inputs = r.inputs ++ [i] := by
  have hfind : r.find? i.module.name = none
      ↔ ∀ j ∈ r.inputs, Text.sameName j.module.name i.module.name = false := by
    simp only [find?, Option.map_eq_none_iff, List.findIdx?_eq_none_iff]
  have hlast : i ∈ [i] := List.mem_singleton_self i
  simp only [add_eq_ok_iff, Prod.mk.injEq]
  constructor
  · rintro ⟨_, hfault, hnew, hprimary, rfl, rfl⟩
    refine ⟨⟨fun j hj ↦ ?_, ?_⟩, ?_, rfl⟩
    · rcases List.mem_append.mp hj with hj | hj
      · exact hr.wellFormed j hj
      · rw [List.mem_singleton.mp hj]
        exact hfault
    · refine List.pairwise_append.mpr ⟨hr.names, List.pairwise_singleton _ _, fun j hj _ hk ↦ ?_⟩
      rw [List.mem_singleton.mp hk]
      exact hfind.mp hnew j hj
    · refine List.pairwise_append.mpr ⟨hone, List.pairwise_singleton _ _, fun j hj _ hk ↦ ?_⟩
      rw [List.mem_singleton.mp hk]
      by_cases hi : i.isPrimary = true
      · simp [primary?_eq_none_iff.mp (hprimary hi) j hj]
      · simp [hi]
  · obtain ⟨inputs⟩ := r'
    rintro ⟨hr', hone', rfl⟩
    refine ⟨⟨r.size⟩, hr'.wellFormed i (List.mem_append_right _ hlast), hfind.mpr fun j hj ↦ ?_,
      fun hi ↦ primary?_eq_none_iff.mpr fun j hj ↦ ?_, rfl, rfl⟩
    · exact (List.pairwise_append.mp hr'.names).2.2 j hj i hlast
    · have hboth := (List.pairwise_append.mp hone').2.2 j hj i hlast
      simpa [hi] using hboth

private theorem foldlM_add_eq_ok_iff {inputs : List Input} {r₀ : Registry} (h₀ : r₀.Accepted)
    (hone₀ : r₀.SinglePrimary) :
    inputs.foldlM (fun r i ↦ do return (← Registry.add r i.module i.isPrimary).2) r₀ = Except.ok r
      ↔ r.Accepted ∧ r.SinglePrimary ∧ r.inputs = r₀.inputs ++ inputs := by
  induction inputs generalizing r₀ with
  | nil =>
    rw [List.append_nil]
    constructor
    · intro h
      cases h
      exact ⟨h₀, hone₀, rfl⟩
    · rintro ⟨-, -, heq⟩
      obtain ⟨_⟩ := r
      cases heq
      rfl
  | cons i rest ih =>
    have hstep : ∀ r₁, (do return (← Registry.add r₀ i.module i.isPrimary).2) = Except.ok r₁
        ↔ r₁.Accepted ∧ r₁.SinglePrimary ∧ r₁.inputs = r₀.inputs ++ [i] := fun r₁ ↦ by
      rw [← exists_add_eq_ok_iff h₀ hone₀, bind_eq_ok_iff]
      constructor
      · rintro ⟨⟨id, _⟩, hadd, hr₁⟩
        cases hr₁
        exact ⟨id, hadd⟩
      · rintro ⟨id, hadd⟩
        exact ⟨_, hadd, rfl⟩
    rw [List.foldlM_cons, bind_eq_ok_iff]
    constructor
    · rintro ⟨r₁, hr₁, h⟩
      obtain ⟨h₁, hone₁, hinputs⟩ := (hstep r₁).mp hr₁
      obtain ⟨hr, hone, heq⟩ := (ih h₁ hone₁).mp h
      exact ⟨hr, hone, by simp [heq, hinputs]⟩
    · rintro ⟨hr, hone, heq⟩
      -- what the registry holds first is in order because all of it is
      have hsub : (r₀.inputs ++ [i]).Sublist r.inputs := by
        rw [heq, List.append_cons r₀.inputs i rest]
        exact List.sublist_append_left _ _
      have h₁ : Accepted ⟨r₀.inputs ++ [i]⟩ :=
        ⟨fun j hj ↦ hr.wellFormed j (hsub.subset hj), hr.names.sublist hsub⟩
      have hone₁ : SinglePrimary ⟨r₀.inputs ++ [i]⟩ := List.Pairwise.sublist hsub hone
      exact ⟨_, (hstep _).mpr ⟨h₁, hone₁, rfl⟩, (ih h₁ hone₁).mpr ⟨hr, hone, by simp [heq]⟩⟩

/-- A list of inputs is taken when it makes an accepted registry with one primary, and then the
registry holds the list as it is. -/
theorem ofInputs_eq_ok_iff {inputs : List Input} :
    ofInputs inputs = .ok r
      ↔ r.Accepted ∧ r.SinglePrimary ∧ r.primary?.isSome ∧ r.inputs = inputs := by
  have hfold : ∀ r' : Registry,
      inputs.foldlM (fun r i ↦ do return (← Registry.add r i.module i.isPrimary).2) {}
          = Except.ok r'
        ↔ r'.Accepted ∧ r'.SinglePrimary ∧ r'.inputs = [] ++ inputs := fun r' ↦
    foldlM_add_eq_ok_iff ⟨by simp, by simp⟩ List.Pairwise.nil
  unfold ofInputs
  rw [bind_eq_ok_iff]
  constructor
  · rintro ⟨r', hr', h⟩
    cases hp : r'.primary? with
    | none =>
      rw [hp] at h
      cases h
    | some id =>
      rw [hp] at h
      cases h
      obtain ⟨haccepted, hone, hinputs⟩ := (hfold r).mp hr'
      exact ⟨haccepted, hone, Option.isSome_of_eq_some hp, hinputs⟩
  · rintro ⟨haccepted, hone, hp, hinputs⟩
    obtain ⟨id, hid⟩ := Option.isSome_iff_exists.mp hp
    refine ⟨r, (hfold r).mpr ⟨haccepted, hone, hinputs⟩, ?_⟩
    rw [hid]
    rfl

theorem accepted_of_ofInputs {inputs : List Input} (h : ofInputs inputs = .ok r) :
    r.Accepted ∧ r.primary?.isSome ∧ r.inputs = inputs := by
  obtain ⟨haccepted, -, hprimary, hinputs⟩ := ofInputs_eq_ok_iff.mp h
  exact ⟨haccepted, hprimary, hinputs⟩

/-! ## Modules by name

Names are compared without regard to ASCII case. No two modules of a registry have the same name
then, so what is found by a name is the one module that has it. -/

@[simp] theorem mem_ids {m : ModuleId} : m ∈ r.ids ↔ m.index < r.size := by
  cases m
  simp [ids, size]

theorem module_mem {m : ModuleId} (h : m.index < r.size) : r.input m ∈ r.inputs := by
  rw [input, List.getD_eq_getElem _ _ h]
  exact List.getElem_mem h

theorem module_of_not_lt {m : ModuleId} (h : ¬m.index < r.size) : r.module m = default := by
  rw [Registry.module, input, List.getD_eq_default _ _ (Nat.le_of_not_lt h)]
  rfl

theorem lt_of_type {m : ModuleId} {id : TypeId} (h : id.index < (r.module m).types.length) :
    m.index < r.size := by
  by_contra hm
  rw [module_of_not_lt hm] at h
  cases h

theorem lt_of_assemblyRef {m : ModuleId} {a : AssemblyRef} (h : a ∈ (r.module m).assemblyRefs) :
    m.index < r.size := by
  by_contra hm
  rw [module_of_not_lt hm] at h
  cases h

theorem forall_module {P : Module → Prop} (hinputs : ∀ i ∈ r.inputs, P i.module)
    (hempty : P default) (m : ModuleId) : P (r.module m) := by
  by_cases hm : m.index < r.size
  · exact hinputs _ (module_mem hm)
  · rw [module_of_not_lt hm]
    exact hempty

theorem Accepted.fault?_module (hr : r.Accepted) (m : ModuleId) : (r.module m).fault? = none := by
  by_cases hm : m.index < r.size
  · exact hr.wellFormed _ (module_mem hm)
  · rw [module_of_not_lt hm]
    rfl

theorem Accepted.find?_eq_some_iff (hr : r.Accepted) {name : String} {l : ModuleId} :
    r.find? name = some l ↔ l ∈ r.ids ∧ Text.sameName (r.module l).name name = true := by
  have hread : ∀ {i : Nat} (hi : i < r.inputs.length),
      (r.module ⟨i⟩).name = r.inputs[i].module.name := fun hi ↦ by
    rw [Registry.module, input, List.getD_eq_getElem _ _ hi]
  simp only [find?, Option.map_eq_some_iff, mem_ids]
  constructor
  · rintro ⟨i, hi, rfl⟩
    obtain ⟨hlt, hname, -⟩ := List.findIdx?_eq_some_iff_getElem.mp hi
    exact ⟨hlt, by rw [hread hlt]; exact hname⟩
  · rintro ⟨hlt, hname⟩
    refine ⟨l.index, List.findIdx?_eq_some_iff_getElem.mpr ⟨hlt, ?_, fun j hj ↦ ?_⟩, rfl⟩
    · rw [← hread hlt]
      exact hname
    · -- an earlier module of that name would share it with the one that was found
      intro hname'
      have hdiff := List.pairwise_iff_getElem.mp hr.names j l.index (Nat.lt_trans hj hlt) hlt hj
      rw [Text.sameName_iff] at hname hname'
      rw [← Bool.not_eq_true, Text.sameName_iff, ← hread hlt] at hdiff
      exact hdiff (hname'.trans hname.symm)

theorem Accepted.eq_of_name (hr : r.Accepted) {l m : ModuleId} (hl : l ∈ r.ids) (hm : m ∈ r.ids)
    (hname : (r.module l).name = (r.module m).name) : l = m := by
  have hsame : Text.sameName (r.module l).name (r.module m).name = true := by
    rw [hname, Text.sameName_iff]
  have hl' := hr.find?_eq_some_iff.mpr ⟨hl, hsame⟩
  have hm' := hr.find?_eq_some_iff.mpr ⟨hm, Text.sameName_iff.mpr rfl⟩
  exact Option.some.inj (hl'.symm.trans hm')

theorem find?_eq_none_iff {name : String} :
    r.find? name = none ↔ ∀ l ∈ r.ids, Text.sameName (r.module l).name name = false := by
  simp only [find?, Option.map_eq_none_iff, List.findIdx?_eq_none_iff, mem_ids]
  constructor
  · exact fun h l hl ↦ h _ (module_mem hl)
  · intro h i hi
    obtain ⟨k, hk, rfl⟩ := List.getElem_of_mem hi
    have := h ⟨k⟩ hk
    rwa [Registry.module, input, List.getD_eq_getElem _ _ hk] at this

/-! ## The import order

The order is the primary and then the others as they were given, so it is a permutation of the
ids. An id that no module has stands for a module without entries, which makes most facts about
modules hold of all ids. -/

theorem nodup_ids (r : Registry) : r.ids.Nodup :=
  (List.nodup_range).map fun _ _ h ↦ ModuleId.mk.inj h

theorem find?_lt {name : String} {l : ModuleId} (h : r.find? name = some l) :
    l.index < r.size := by
  simp only [find?, Option.map_eq_some_iff] at h
  obtain ⟨i, hi, rfl⟩ := h
  exact (List.findIdx?_eq_some_iff_getElem.mp hi).1

theorem primary?_lt {m : ModuleId} (h : r.primary? = some m) : m.index < r.size := by
  simp only [primary?, Option.map_eq_some_iff] at h
  obtain ⟨i, hi, rfl⟩ := h
  exact (List.findIdx?_eq_some_iff_getElem.mp hi).1

theorem mem_secondaries {m : ModuleId} :
    m ∈ r.secondaries ↔ m.index < r.size ∧ r.isPrimary m = false := by
  simp [secondaries]

theorem secondaries_of_only {p : ModuleId} (hp : r.primary? = some p)
    (honly : ∀ {m : ModuleId}, m.index < r.size → m = p) : r.secondaries = [] := by
  refine List.eq_nil_iff_forall_not_mem.mpr fun m hm ↦ ?_
  obtain ⟨hlt, hnot⟩ := mem_secondaries.mp hm
  rw [honly hlt] at hnot
  simp [isPrimary, hp] at hnot

theorem mem_importOrder {m : ModuleId} : m ∈ r.importOrder ↔ m.index < r.size := by
  rw [importOrder, List.mem_append, Option.mem_toList, mem_secondaries]
  constructor
  · rintro (h | ⟨h, -⟩)
    · exact primary?_lt h
    · exact h
  · intro h
    by_cases hp : r.primary? = some m
    · exact .inl hp
    · exact .inr ⟨h, by simpa [isPrimary] using hp⟩

theorem nodup_importOrder (r : Registry) : r.importOrder.Nodup := by
  refine List.nodup_append.mpr ⟨?_, ?_, ?_⟩
  · cases r.primary? <;> simp
  · exact r.nodup_ids.filter _
  · rintro m hm _ hm' rfl
    have hsec := (mem_secondaries.mp hm').2
    simp [isPrimary, Option.mem_toList.mp hm] at hsec

theorem perm_importOrder (r : Registry) : r.importOrder.Perm r.ids := by
  refine (List.perm_ext_iff_of_nodup r.nodup_importOrder r.nodup_ids).mpr fun m ↦ ?_
  rw [mem_importOrder, mem_ids]

theorem map_input_ids (r : Registry) : r.ids.map r.input = r.inputs := by
  refine List.ext_getElem (by simp [ids]) fun i _ hi ↦ ?_
  have hread : r.input ⟨i⟩ = r.inputs.get ⟨i, hi⟩ := List.getD_eq_getElem _ _ hi
  simpa [ids] using hread

theorem map_module_ids (r : Registry) : r.ids.map r.module = r.inputs.map Input.module := by
  rw [← r.map_input_ids, List.map_map]
  rfl

theorem SinglePrimary.isPrimary_eq (hone : r.SinglePrimary) {m : ModuleId} (hm : m.index < r.size) :
    r.isPrimary m = (r.input m).isPrimary := by
  have hread : ∀ {i : Nat} (hi : i < r.inputs.length), r.input ⟨i⟩ = r.inputs[i] := fun hi ↦
    List.getD_eq_getElem _ _ hi
  rw [Bool.eq_iff_iff, isPrimary, decide_eq_true_iff]
  constructor
  · intro hp
    obtain ⟨i, hi, rfl⟩ := Option.map_eq_some_iff.mp hp
    obtain ⟨hlt, hmarked, -⟩ := List.findIdx?_eq_some_iff_getElem.mp hi
    rw [hread hlt]
    exact hmarked
  · intro hmarked
    rw [hread hm] at hmarked
    refine Option.map_eq_some_iff.mpr ⟨m.index, ?_, rfl⟩
    refine List.findIdx?_eq_some_iff_getElem.mpr ⟨hm, hmarked, fun j hj hother ↦ ?_⟩
    have hboth := List.pairwise_iff_getElem.mp hone j m.index (Nat.lt_trans hj hm) hm hj
    simp [hother, hmarked] at hboth

/-- The import order puts the primary before the other inputs. -/
theorem SinglePrimary.map_input_importOrder (hone : r.SinglePrimary) :
    r.importOrder.map r.input
      = r.inputs.filter Input.isPrimary ++ r.inputs.filter fun i ↦ !i.isPrimary := by
  have hids : ∀ q : Bool → Bool, (r.ids.filter fun m ↦ q (r.isPrimary m)).map r.input
      = r.inputs.filter fun i ↦ q i.isPrimary := fun q ↦ by
    conv_rhs => rw [← r.map_input_ids, List.filter_map]
    refine congrArg _ (List.filter_congr fun m hm ↦ ?_)
    rw [hone.isPrimary_eq (mem_ids.mp hm)]
    rfl
  have hprimary : r.primary?.toList = r.ids.filter r.isPrimary := by
    cases hp : r.primary? with
    | none => simp [isPrimary, hp]
    | some p =>
      have hmem : p ∈ r.ids := mem_ids.mpr (primary?_lt hp)
      have hmark : r.isPrimary = (· == p) := by
        funext m
        simp [isPrimary, hp, eq_comm, Bool.beq_eq_decide_eq]
      rw [hmark, List.filter_beq, List.count_eq_one_of_mem r.nodup_ids hmem]
      rfl
  rw [importOrder, List.map_append, hprimary, secondaries]
  exact congrArg₂ _ (hids id) (hids not)

end Registry

theorem Context.fault?_module {ctx : Context} (h : ctx.registry.Accepted) (m : ModuleId) :
    (ctx.module m).fault? = none :=
  h.fault?_module m

end ModuleLinker

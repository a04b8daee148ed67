import Mathlib.Logic.Relation
import ModuleLinker.Policy
import ModuleLinker.Proofs.Image.Closed

/-!
# Types kept for a contract

A public type is kept for the sake of a contract when it has one itself, or when a type in its
nested list is kept. So a type is kept exactly when a way leads down from it, through public types
alone, to one with a contract; a type that is not public cuts the way. What is kept is closed
upwards: the public types around a kept type are kept, at every level, and no pattern is asked about
them.

The decision descends into nested lists, and nobody counts its levels. A type that needs more levels
lists one that needs one level less, so if a descent ends at all, the types on its longest way down
are all different, and there are no more levels than types. In a module in which no public type is
found again inside itself every descent ends.
-/

namespace ModuleLinker

namespace Module

/-- A public type, and a type in its nested list. -/
def Encloses (m : Module) (outer inner : TypeId) : Prop :=
  (m.typeDef outer).visibility.isPublic = true ∧ inner ∈ (m.typeDef outer).nested

/-- No public type is found again inside itself. -/
def NestingEnds (m : Module) : Prop := ∀ t, ¬Relation.TransGen m.Encloses t t

/-- A way down to a type, past the types that have been entered before, last one first. -/
structure Descent (m : Module) (entered : List TypeId) (t : TypeId) : Prop where
  mem : t ∈ m.typeIds
  entered_mem : ∀ x ∈ entered, x ∈ m.typeIds
  nodup : entered.Nodup
  above : ∀ x ∈ entered, Relation.TransGen m.Encloses x t

variable {m : Module}

/-! ## Ways down

A way down past distinct types has as many of them as the module has types at most. A step further
down is to a type that is new, where nesting ends. -/

/-- Where nested types always stand behind the types that list them, nesting ends. -/
theorem nestingEnds_of_lt
    (h : ∀ t ∈ m.typeIds, ∀ u ∈ (m.typeDef t).nested, t.index < u.index) : m.NestingEnds := by
  have hlt : ∀ t u, Relation.TransGen m.Encloses t u → t.index < u.index := by
    have hstep : ∀ t u, m.Encloses t u → t.index < u.index := by
      intro t u htu
      by_cases ht : t.index < m.types.length
      · exact h t (mem_typeIds.mpr ht) u htu.2
      · have hnone := htu.2
        rw [typeDef_of_not_lt ht] at hnone
        cases hnone
    intro t u htu
    induction htu with
    | single h => exact hstep _ _ h
    | tail _ h ih => exact ih.trans (hstep _ _ h)
  exact fun t ht ↦ Nat.lt_irrefl _ (hlt t t ht)

namespace Descent

variable {entered : List TypeId} {t : TypeId}

theorem start (ht : t ∈ m.typeIds) : m.Descent [] t :=
  ⟨ht, List.forall_mem_nil _, .nil, List.forall_mem_nil _⟩

/-- No type is entered twice, so fewer types have been entered than there are. -/
theorem length_lt (h : m.Descent entered t) (hends : m.NestingEnds) :
    entered.length < m.types.length := by
  have hnodup : (t :: entered).Nodup :=
    List.nodup_cons.mpr ⟨fun ht ↦ hends t (h.above t ht), h.nodup⟩
  exact length_le_of_subset_typeIds hnodup (List.cons_subset.mpr ⟨h.mem, h.entered_mem⟩)

theorem inside (h : m.Descent entered t) (hclosed : m.Closed) (hends : m.NestingEnds) {u : TypeId}
    (htu : m.Encloses t u) : m.Descent (t :: entered) u where
  mem := mem_typeIds.mpr (hclosed.nested_lt htu.2)
  entered_mem := List.forall_mem_cons.mpr ⟨h.mem, h.entered_mem⟩
  nodup := List.nodup_cons.mpr ⟨fun ht ↦ hends t (h.above t ht), h.nodup⟩
  above := List.forall_mem_cons.mpr ⟨.single htu, fun x hx ↦ (h.above x hx).tail htu⟩

end Descent

/-! ## Levels that a descent needs

The bound is found without looking at nesting. A type that needs exactly so many levels lists one
that needs one level less, so there is a way down along which the number falls. Its types are
therefore different, and there are no more of them than the module has. So a descent that needs
more levels than that needs infinitely many, which means that it does not end. -/

section AnyM

variable {α : Type} {f g : α → Option Bool} {l : List α}

private theorem anyM_mono (hfg : ∀ a ∈ l, ∀ b, f a = some b → g a = some b) {b : Bool}
    (h : l.anyM f = some b) : l.anyM g = some b := by
  induction l with
  | nil => exact h
  | cons a l ih =>
    obtain ⟨ha, hl⟩ := List.forall_mem_cons.mp hfg
    rw [List.anyM] at h ⊢
    cases hf : f a with
    | none => simp [hf] at h
    | some c =>
      rw [hf] at h
      rw [ha c hf]
      cases c with
      | true => exact h
      | false => exact ih hl h

private theorem anyM_ends (h : ∀ a ∈ l, ∃ b, f a = some b) : ∃ b, l.anyM f = some b := by
  induction l with
  | nil => exact ⟨false, rfl⟩
  | cons a l ih =>
    obtain ⟨⟨b, hb⟩, hl⟩ := List.forall_mem_cons.mp h
    rw [List.anyM, hb]
    cases b with
    | true => exact ⟨true, rfl⟩
    | false => exact ih hl

private theorem anyM_eq_some {b : Bool} (h : l.anyM f = some b) :
    if b then ∃ a ∈ l, f a = some true else ∀ a ∈ l, f a = some false := by
  induction l with
  | nil =>
    cases h
    simp
  | cons a l ih =>
    rw [List.anyM] at h
    cases hf : f a with
    | none => simp [hf] at h
    | some c =>
      rw [hf] at h
      cases c with
      | true =>
        cases h
        exact ⟨a, List.mem_cons_self .., hf⟩
      | false =>
        have hrest := ih h
        cases b with
        | true =>
          obtain ⟨a', ha', htrue⟩ := hrest
          exact ⟨a', List.mem_cons_of_mem a ha', htrue⟩
        | false => exact List.forall_mem_cons.mpr ⟨hf, hrest⟩

end AnyM

theorem exemptWithin_mono {levels levels' : Nat} {t : TypeId} {b : Bool}
    (h : m.exemptWithin levels t = some b) (hle : levels ≤ levels') :
    m.exemptWithin levels' t = some b := by
  induction levels generalizing levels' t b with
  | zero => cases h
  | succ levels ih =>
    obtain ⟨levels', rfl⟩ := Nat.exists_eq_add_one_of_ne_zero (by omega : levels' ≠ 0)
    unfold exemptWithin at h ⊢
    split
    · next hpublic =>
      rw [if_pos hpublic] at h
      split
      · next hcontract => rwa [if_pos hcontract] at h
      · next hcontract =>
        rw [if_neg hcontract] at h
        exact anyM_mono (fun u _ c hu ↦ ih hu (by omega)) h
    · next hpublic => rwa [if_neg hpublic] at h

/-- A type that is answered with one level more than so many, and not with fewer. -/
def Needs (m : Module) (levels : Nat) (t : TypeId) : Prop :=
  m.exemptWithin levels t = none ∧ ∃ b, m.exemptWithin (levels + 1) t = some b

theorem Needs.unique {levels levels' : Nat} {t : TypeId} (h : m.Needs levels t)
    (h' : m.Needs levels' t) : levels = levels' := by
  have hle : ∀ {n n'}, m.Needs n t → m.Needs n' t → n ≤ n' := by
    rintro n n' ⟨hnone, _⟩ ⟨_, b, hb⟩
    by_contra hlt
    rw [exemptWithin_mono hb (by omega)] at hnone
    cases hnone
  exact Nat.le_antisymm (hle h h') (hle h' h)

theorem Needs.listed {levels : Nat} {t : TypeId} (h : m.Needs (levels + 1) t) :
    ∃ u ∈ (m.typeDef t).nested, m.Needs levels u := by
  obtain ⟨hnone, b, hb⟩ := h
  by_contra hno
  have hsame : ∀ u ∈ (m.typeDef t).nested, ∀ c,
      m.exemptWithin (levels + 1) u = some c → m.exemptWithin levels u = some c := by
    intro u hu c hc
    cases hless : m.exemptWithin levels u with
    | none => exact absurd ⟨u, hu, hless, c, hc⟩ hno
    | some c' =>
      rw [exemptWithin_mono hless (Nat.le_succ levels)] at hc
      exact hc
  unfold exemptWithin at hnone hb
  by_cases hpublic : (m.typeDef t).visibility.isPublic = true
  · by_cases hcontract : (m.typeDef t).hasContract = true
    · simp [hpublic, hcontract] at hnone
    · rw [if_pos hpublic, if_neg hcontract] at hnone hb
      rw [anyM_mono hsame hb] at hnone
      cases hnone
  · simp [hpublic] at hnone

/-- The types on the way down from one that needs levels are all different, since they need fewer
and fewer. -/
theorem Needs.exists_way {levels : Nat} {t : TypeId} (h : m.Needs levels t) :
    ∃ way : List TypeId, way.length = levels ∧ way.Nodup ∧ way ⊆ m.typeIds
      ∧ ∀ u ∈ way, ∃ n ≤ levels, m.Needs n u := by
  induction levels generalizing t with
  | zero => exact ⟨[], rfl, .nil, List.nil_subset _, List.forall_mem_nil _⟩
  | succ levels ih =>
    obtain ⟨u, -, hu⟩ := h.listed
    obtain ⟨way, hlength, hnodup, hin, hneeds⟩ := ih hu
    have ht : t ∈ m.typeIds := by
      by_contra hnot
      have hnone := h.1
      unfold exemptWithin at hnone
      rw [typeDef_of_not_lt (mem_typeIds.not.mp hnot)] at hnone
      cases hnone
    refine ⟨t :: way, by rw [List.length_cons, hlength], ?_, List.cons_subset.mpr ⟨ht, hin⟩, ?_⟩
    · refine List.nodup_cons.mpr ⟨fun hmem ↦ ?_, hnodup⟩
      obtain ⟨n, hn, hneed⟩ := hneeds t hmem
      exact absurd (hneed.unique h) (by omega)
    · refine List.forall_mem_cons.mpr ⟨⟨_, Nat.le_refl _, h⟩, fun u hu ↦ ?_⟩
      obtain ⟨n, hn, hneed⟩ := hneeds u hu
      exact ⟨n, Nat.le_succ_of_le hn, hneed⟩

/-- A descent that comes to an answer at all does so within the bound. -/
theorem exemptWithin_descentBound {levels : Nat} {t : TypeId} {b : Bool}
    (h : m.exemptWithin levels t = some b) : m.exemptWithin m.descentBound t = some b := by
  induction levels with
  | zero => cases h
  | succ levels ih =>
    cases hless : m.exemptWithin levels t with
    | some c =>
      have hmore := exemptWithin_mono hless (Nat.le_succ levels)
      exact ih (hless.trans (hmore.symm.trans h))
    | none =>
      -- so many levels are needed, and there are no more types on the way down
      obtain ⟨way, hlength, hnodup, hin, -⟩ := Needs.exists_way ⟨hless, b, h⟩
      have hle := length_le_of_subset_typeIds hnodup hin
      exact exemptWithin_mono h (by unfold descentBound; omega)

end Module

/-! ## Decisions about hiding

A decision asks about contracts only if everything else speaks for hiding. So it comes to an end
when the answer about contracts does, and often without asking for it. -/

namespace Policy

variable {p : Policy} {m : Module} {id : TypeId} {selected : Bool} {levels levels' : Nat} {b : Bool}

theorem hidesWithin_congr
    (hexempt : ∀ kept, m.exemptWithin levels id = some kept → m.exemptWithin levels' id = some kept)
    (h : p.hidesWithin m levels id selected = some b) :
    p.hidesWithin m levels' id selected = some b := by
  unfold hidesWithin at h ⊢
  split
  · next hname =>
    rw [if_pos hname] at h
    split
    · next hexclude =>
      rw [if_pos hexclude, Option.map_eq_some_iff] at h
      obtain ⟨kept, hkept, rfl⟩ := h
      rw [hexempt kept hkept, Option.map_some]
    · next hexclude => rwa [if_neg hexclude] at h
  · next hname => rwa [if_neg hname] at h

theorem hidesWithin_eq_some (h : p.hidesWithin m levels id selected = some b) :
    p.decides m id selected = true ∧ p.hidesType m id selected = b := by
  have hbound := hidesWithin_congr (fun _ ↦ Module.exemptWithin_descentBound) h
  rw [decides, hidesType, hbound]
  exact ⟨rfl, rfl⟩

/-- The decision is come to within the bound, if it is come to at all. -/
theorem hidesWithin_of_decides (h : p.decides m id selected = true)
    (hlevels : m.descentBound ≤ levels) :
    p.hidesWithin m levels id selected = some (p.hidesType m id selected) := by
  obtain ⟨b, hb⟩ := Option.isSome_iff_exists.mp h
  rw [hidesType, hb, Option.getD_some]
  exact hidesWithin_congr (fun _ hkept ↦ Module.exemptWithin_mono hkept hlevels) hb

end Policy

namespace Module

variable {m : Module}

/-! ## What the answer says

An answer that is there is right, however it was come to: each level adds one type in front of the
way. Where no public type is found again inside itself there always is one. -/

/-- An answer tells whether a way leads down, through public types, to a public type with a
contract. -/
theorem exemptWithin_eq_some {levels : Nat} {t : TypeId} {b : Bool}
    (h : m.exemptWithin levels t = some b) :
    b = true ↔ ∃ u, Relation.ReflTransGen m.Encloses t u
      ∧ (m.typeDef u).visibility.isPublic = true ∧ (m.typeDef u).hasContract = true := by
  induction levels generalizing t b with
  | zero => cases h
  | succ levels ih =>
    unfold exemptWithin at h
    by_cases hpublic : (m.typeDef t).visibility.isPublic = true
    · rw [if_pos hpublic] at h
      by_cases hcontract : (m.typeDef t).hasContract = true
      · rw [if_pos hcontract] at h
        cases h
        exact iff_of_true rfl ⟨t, .refl, hpublic, hcontract⟩
      · rw [if_neg hcontract] at h
        have hnested := anyM_eq_some h
        cases b with
        | true =>
          obtain ⟨v, hv, htrue⟩ := hnested
          obtain ⟨u, hvu, hu⟩ := (ih htrue).mp rfl
          exact iff_of_true rfl ⟨u, .head ⟨hpublic, hv⟩ hvu, hu⟩
        | false =>
          refine iff_of_false Bool.false_ne_true fun ⟨u, htu, hu, hcontract'⟩ ↦ ?_
          rcases htu.cases_head with rfl | ⟨v, htv, hvu⟩
          · exact hcontract hcontract'
          · exact Bool.false_ne_true ((ih (hnested v htv.2)).mpr ⟨u, hvu, hu, hcontract'⟩)
    · rw [if_neg hpublic] at h
      cases h
      refine iff_of_false Bool.false_ne_true fun ⟨u, htu, hu, _⟩ ↦ ?_
      rcases htu.cases_head with rfl | ⟨v, htv, -⟩
      · exact hpublic hu
      · exact hpublic htv.1

section

variable (hclosed : m.Closed) (hends : m.NestingEnds)
include hclosed hends

/-- Where nesting ends, the descent comes to an answer within as many levels as there are types. -/
theorem exemptWithin_ends {levels : Nat} {entered : List TypeId} {t : TypeId}
    (h : m.Descent entered t) (hlevels : m.types.length ≤ entered.length + levels) :
    ∃ b, m.exemptWithin levels t = some b := by
  induction levels generalizing entered t with
  | zero => exact absurd (h.length_lt hends) (by omega)
  | succ levels ih =>
    unfold exemptWithin
    split
    · next hpublic =>
      split
      · exact ⟨true, rfl⟩
      · exact anyM_ends fun u hu ↦
          ih (h.inside hclosed hends ⟨hpublic, hu⟩) (by simp only [List.length_cons]; omega)
    · exact ⟨false, rfl⟩

theorem exemptWithin_of_nestingEnds {levels : Nat} {t : TypeId} (ht : t ∈ m.typeIds)
    (hlevels : m.types.length ≤ levels) :
    m.exemptWithin levels t = some (m.isContractExempt t) := by
  obtain ⟨b, hb⟩ := exemptWithin_ends hclosed hends (.start ht) (by simpa using hlevels)
  rw [hb, isContractExempt, exemptWithin_descentBound hb, Option.getD_some]

/-- A type is kept exactly when a way leads down from it to a type with a contract. -/
theorem isContractExempt_iff {t : TypeId} (ht : t ∈ m.typeIds) :
    m.isContractExempt t = true ↔ ∃ u, Relation.ReflTransGen m.Encloses t u
      ∧ (m.typeDef u).visibility.isPublic = true ∧ (m.typeDef u).hasContract = true :=
  exemptWithin_eq_some (exemptWithin_of_nestingEnds hclosed hends ht (Nat.le_refl _))

end

theorem isContractExempt_of_encloses (hclosed : m.Closed) (hends : m.NestingEnds) {t u : TypeId}
    (hut : m.Encloses u t) (ht : m.isContractExempt t = true) : m.isContractExempt u = true := by
  have hu : u ∈ m.typeIds := by
    by_contra hnot
    have hnested := hut.2
    rw [typeDef_of_not_lt (mem_typeIds.not.mp hnot)] at hnested
    cases hnested
  have htin := mem_typeIds.mpr (hclosed.nested_lt hut.2)
  obtain ⟨v, htv, hv⟩ := (isContractExempt_iff hclosed hends htin).mp ht
  exact (isContractExempt_iff hclosed hends hu).mpr ⟨v, .head hut htv, hv⟩

/-- In an accepted module whose nesting ends, a type is kept for a contract exactly when a way leads
down from it, through public types, to a public type with a contract; the descent comes to this
answer within as many levels as there are types. No policy that keeps contracts hides a public type
around a kept one, at any level. -/
theorem isContractExempt_iff_reachable (hvalid : m.validate = .ok ()) (hends : m.NestingEnds) :
    (∀ t ∈ m.typeIds,
      (∀ levels, m.types.length ≤ levels →
        m.exemptWithin levels t = some (m.isContractExempt t))
      ∧ (m.isContractExempt t = true ↔ ∃ u, Relation.ReflTransGen m.Encloses t u
        ∧ (m.typeDef u).visibility.isPublic = true ∧ (m.typeDef u).hasContract = true))
    ∧ ∀ p : Policy, p.excludeSerializable = true → ∀ t u, m.isContractExempt t = true →
      Relation.TransGen m.Encloses u t → ∀ selected, p.hidesType m u selected = false := by
  have hclosed := closed_of_accepted (validate_eq_ok_iff.mp hvalid)
  refine ⟨fun t ht ↦ ⟨fun levels hlevels ↦ exemptWithin_of_nestingEnds hclosed hends ht hlevels,
    isContractExempt_iff hclosed hends ht⟩, fun p hp t u ht hut selected ↦ ?_⟩
  have hu : m.isContractExempt u = true := by
    induction hut using Relation.TransGen.head_induction_on with
    | single h => exact isContractExempt_of_encloses hclosed hends h ht
    | head h _ ih => exact isContractExempt_of_encloses hclosed hends h ih
  rw [Policy.hidesType_eq, hp, hu, Bool.and_self, Bool.not_true, Bool.and_false]

/-- A public shell around a public case with a contract inside, and around a box that is not public
and holds a type with a contract as well. -/
def cased : Module where
  name := "Lib"
  types := [
    { nspace := "Lib", name := "Shell", visibility := .public, nested := [⟨1⟩, ⟨3⟩] },
    { name := "Case", visibility := .nestedPublic, declaring := some ⟨0⟩, nested := [⟨2⟩] },
    { name := "Record", visibility := .nestedPublic, declaring := some ⟨1⟩
      attributes := ["System.Runtime.Serialization.DataContractAttribute"] },
    { name := "Box", visibility := .nestedPrivate, declaring := some ⟨0⟩, nested := [⟨4⟩] },
    { name := "Secret", visibility := .nestedPublic, declaring := some ⟨3⟩
      isSerializable := true }]

theorem nestingEnds_cased : cased.NestingEnds := nestingEnds_of_lt (by decide)

/-- The shell is kept for what is in the case, two levels down; the box is not. -/
theorem exempt_cased :
    cased.isContractExempt ⟨0⟩ = true ∧ cased.isContractExempt ⟨3⟩ = false
      ∧ ∀ p : Policy, p.excludeSerializable = true → p.hidesType cased ⟨0⟩ true = false := by
  have hnesting := isContractExempt_iff_reachable (m := cased) (by decide) nestingEnds_cased
  have hcase : cased.Encloses ⟨0⟩ ⟨1⟩ := ⟨by decide, by decide⟩
  have hrecord : cased.Encloses ⟨1⟩ ⟨2⟩ := ⟨by decide, by decide⟩
  have hshell : Relation.TransGen cased.Encloses ⟨0⟩ ⟨2⟩ := .tail (.single hcase) hrecord
  have hlevels := (hnesting.1 ⟨3⟩ (by decide)).1 5 (Nat.le_refl 5)
  refine ⟨((hnesting.1 ⟨0⟩ (by decide)).2).mpr ⟨⟨2⟩, hshell.to_reflTransGen, by decide, by decide⟩,
    (Option.some.inj hlevels).symm, fun p hp ↦ ?_⟩
  exact hnesting.2 p hp ⟨2⟩ ⟨0⟩ (by decide) hshell true

end Module

end ModuleLinker

import Mathlib.Data.List.Perm.Subperm
import Mathlib.Logic.Relation
import ModuleLinker.Chain

/-!
# Chains that end

A chain is *complete* when every entry is linked to the one behind it and the last entry has no
link. Following links from an entry that reaches an end within the bound gives a complete chain, and
links are single-valued, so a complete chain is determined by its first entry. That rules out
repetition: an entry that came back would start two complete chains of different lengths.

A chain that is cut before its first repetition is complete when its last entry has no link, and a
complete chain is never cut. Either way it holds every entry that the links lead to, once.
-/

namespace ModuleLinker.Chain

variable {α : Type} {next : α → Option α}

/-- Every entry is linked to the one behind it, and the last one has no link. -/
inductive Complete (next : α → Option α) : List α → Prop
  | last {a : α} (h : next a = none) : Complete next [a]
  | link {a b : α} {rest : List α} (h : next a = some b) (hrest : Complete next (b :: rest)) :
      Complete next (a :: b :: rest)

/-- Following links from an entry comes to an end. -/
def Ends (next : α → Option α) (a : α) : Prop := ∃ rest, Complete next (a :: rest)

theorem complete_follow {n : Nat} {a : α} (h : endsWithin next n a = true) :
    Complete next (follow next n a) := by
  induction n generalizing a with
  | zero =>
    cases hn : next a with
    | none => exact .last hn
    | some b => simp [endsWithin, hn] at h
  | succ n ih =>
    unfold follow
    cases hn : next a with
    | none => exact .last hn
    | some b =>
      have hb : endsWithin next n b = true := by simpa [endsWithin, hn] using h
      obtain ⟨rest, hrest⟩ := follow_eq_cons next n b
      have hc := ih hb
      rw [hrest] at hc
      simpa only [hrest] using Complete.link hn hc

theorem endsWithin_of_none {a : α} (h : next a = none) (n : Nat) : endsWithin next n a = true := by
  cases n <;> simp [endsWithin, h]

/-- A link that goes down in a measure reaches an end within the measure. -/
theorem endsWithin_of_lt (rank : α → Nat) (hlt : ∀ a b, next a = some b → rank b < rank a) :
    ∀ {n : Nat} {a : α}, rank a ≤ n → endsWithin next n a = true := by
  intro n
  induction n with
  | zero =>
    intro a ha
    cases hn : next a with
    | none => simp [endsWithin, hn]
    | some b => exact absurd (hlt a b hn) (by omega)
  | succ n ih =>
    intro a ha
    cases hn : next a with
    | none => simp [endsWithin, hn]
    | some b =>
      have hb := hlt a b hn
      simpa [endsWithin, hn] using ih (by omega)

namespace Complete

theorem tail_of_append (pre : List α) {suf : List α} (h : Complete next (pre ++ suf))
    (hsuf : suf ≠ []) : Complete next suf := by
  induction pre with
  | nil => exact h
  | cons a pre ih =>
    refine ih ?_
    cases hrest : pre ++ suf with
    | nil => exact absurd (List.append_eq_nil_iff.mp hrest).2 hsuf
    | cons b rest =>
      rw [List.cons_append, hrest] at h
      cases h with
      | link _ hrest => exact hrest

theorem eq_of_head {l l' : List α} (h : Complete next l) (h' : Complete next l')
    (hhead : l.head? = l'.head?) : l = l' := by
  induction h generalizing l' with
  | last ha =>
    cases h' with
    | last _ => simpa using hhead
    | link hb _ =>
      obtain rfl : _ = _ := by simpa using hhead
      rw [ha] at hb
      cases hb
  | link ha _ ih =>
    cases h' with
    | last hb =>
      obtain rfl : _ = _ := by simpa using hhead
      rw [ha] at hb
      cases hb
    | link hb hrest =>
      obtain rfl : _ = _ := by simpa using hhead
      rw [ha] at hb
      cases hb
      rw [ih hrest rfl]

theorem congr {next' : α → Option α} {l : List α} (h : Complete next l)
    (hnext : ∀ a ∈ l, next' a = next a) : Complete next' l := by
  induction h with
  | last ha => exact .last ((hnext _ List.mem_cons_self).trans ha)
  | link ha _ ih =>
    exact .link ((hnext _ List.mem_cons_self).trans ha)
      (ih fun b hb ↦ hnext b (List.mem_cons_of_mem _ hb))

theorem nodup {l : List α} (h : Complete next l) : l.Nodup := by
  induction h with
  | last _ => simp
  | @link a b rest ha hrest ih =>
    refine List.nodup_cons.mpr ⟨fun hmem ↦ ?_, ih⟩
    -- otherwise the same entry would begin two chains of different lengths
    obtain ⟨pre, suf, hsplit⟩ := List.append_of_mem hmem
    have hsuf : Complete next (a :: suf) := by
      refine tail_of_append pre ?_ (by simp)
      rw [← hsplit]
      exact hrest
    have heq := congrArg List.length (eq_of_head hsuf (Complete.link ha hrest) rfl)
    have hlen := congrArg List.length hsplit
    simp only [List.length_cons, List.length_append] at heq hlen
    omega

/-- A complete chain that stays in a table has no more entries than the table. -/
theorem length_le {table : List α} (hnext : ∀ a ∈ table, ∀ b, next a = some b → b ∈ table) {a : α}
    {rest : List α} (h : Complete next (a :: rest)) (ha : a ∈ table) :
    (a :: rest).length ≤ table.length := by
  have hsub : a :: rest ⊆ table := by
    induction rest generalizing a with
    | nil => simpa using ha
    | cons b rest ih =>
      cases h with
      | link hlink hrest => exact List.cons_subset.mpr ⟨ha, ih hrest (hnext a ha b hlink)⟩
  exact (List.subperm_of_subset h.nodup hsub).length_le

theorem endsWithin {n : Nat} {a : α} {rest : List α} (h : Complete next (a :: rest))
    (hlen : rest.length ≤ n) : endsWithin next n a = true := by
  induction n generalizing a rest with
  | zero =>
    obtain rfl := List.length_eq_zero_iff.mp (Nat.le_zero.mp hlen)
    cases h with
    | last hn => simp [Chain.endsWithin, hn]
  | succ n ih =>
    cases h with
    | last hn => simp [Chain.endsWithin, hn]
    | link hn hrest =>
      simpa [Chain.endsWithin, hn] using ih hrest (Nat.le_of_succ_le_succ hlen)

theorem getLastD {l : List α} (h : Complete next l) (a : α) : next (l.getLastD a) = none := by
  induction h generalizing a with
  | last hn => exact hn
  | link _ _ ih => exact ih a

end Complete

/-- In a table that links do not leave, counting as many links as there are entries finds out
whether a chain ends. -/
theorem ends_iff_endsWithin {table : List α} {n : Nat} (hn : table.length = n)
    (hnext : ∀ a ∈ table, ∀ b, next a = some b → b ∈ table) {a : α} (ha : a ∈ table) :
    Ends next a ↔ endsWithin next n a = true := by
  constructor
  · rintro ⟨rest, h⟩
    have hlen := h.length_le hnext ha
    exact h.endsWithin (Nat.le_of_succ_le (hn ▸ hlen))
  · intro h
    obtain ⟨rest, hrest⟩ := follow_eq_cons next n a
    exact ⟨rest, hrest ▸ complete_follow h⟩

/-! ## Chains cut before a repetition

A chain that is cut follows links until it comes to an entry that it has passed. In a complete
chain that does not happen, so the two are the same list there. -/

section Distinct

variable [DecidableEq α]

theorem distinct_eq_cons (next : α → Option α) (n : Nat) (seen : List α) (a : α) :
    ∃ rest, distinct next n seen a = a :: rest := by
  cases n with
  | zero => exact ⟨[], rfl⟩
  | succ n =>
    unfold distinct
    split
    · exact ⟨[], rfl⟩
    · split
      · exact ⟨[], rfl⟩
      · exact ⟨_, rfl⟩

theorem length_distinct_le (next : α → Option α) (n : Nat) (seen : List α) (a : α) :
    (distinct next n seen a).length ≤ n + 1 := by
  induction n generalizing seen a with
  | zero => simp [distinct]
  | succ n ih =>
    unfold distinct
    split
    · simp
    · split
      · simp
      · simpa using ih _ _

theorem forall_mem_distinct {P : α → Prop} (hP : ∀ a b, next a = some b → P a → P b) {n : Nat}
    {seen : List α} {a : α} (h : P a) : ∀ x ∈ distinct next n seen a, P x := by
  induction n generalizing seen a with
  | zero => simpa [distinct] using h
  | succ n ih =>
    unfold distinct
    cases hn : next a with
    | none => simpa using h
    | some b =>
      dsimp only
      split
      · simpa using h
      · exact List.forall_mem_cons.mpr ⟨h, ih (hP a b hn h)⟩

theorem complete_distinct {n : Nat} {seen : List α} {a : α}
    (h : next ((distinct next n seen a).getLastD a) = none) :
    Complete next (distinct next n seen a) := by
  induction n generalizing seen a with
  | zero => exact .last h
  | succ n ih =>
    unfold distinct at h ⊢
    cases hn : next a with
    | none => exact .last hn
    | some b =>
      simp only [hn] at h ⊢
      by_cases hcut : b = a ∨ b ∈ seen
      · rw [if_pos hcut] at h ⊢
        exact .last h
      · rw [if_neg hcut] at h ⊢
        obtain ⟨rest, hrest⟩ := distinct_eq_cons next n (a :: seen) b
        have hlast : next ((distinct next n (a :: seen) b).getLastD b) = none := by
          rwa [hrest] at h ⊢
        have hcomplete := ih hlast
        rw [hrest] at hcomplete ⊢
        exact .link hn hcomplete

theorem Complete.distinct_eq {n : Nat} {seen : List α} {a : α} {rest : List α}
    (h : Complete next (a :: rest)) (hlen : rest.length ≤ n) (hseen : ∀ x ∈ rest, x ∉ seen) :
    distinct next n seen a = a :: rest := by
  induction n generalizing seen a rest with
  | zero =>
    obtain rfl := List.length_eq_zero_iff.mp (Nat.le_zero.mp hlen)
    rfl
  | succ n ih =>
    have hnodup := h.nodup
    unfold distinct
    cases h with
    | last hn => rw [hn]
    | @link _ b rest hn hrest =>
      obtain ⟨ha, -⟩ := List.nodup_cons.mp hnodup
      have hcut : ¬(b = a ∨ b ∈ seen) := by
        rintro (rfl | hb)
        · exact ha (List.mem_cons_self ..)
        · exact hseen b (List.mem_cons_self ..) hb
      simp only [hn]
      rw [if_neg hcut, ih hrest (Nat.le_of_succ_le_succ hlen)]
      intro x hx hmem
      rcases List.mem_cons.mp hmem with rfl | hmem
      · exact ha (List.mem_cons_of_mem _ hx)
      · exact hseen x (List.mem_cons_of_mem _ hx) hmem

end Distinct

/-! ## What a cut chain holds

Where the links lead into a circle, no complete chain exists, and the cut chain is all there is to
speak of. The entries passed so far are a parameter of the induction, since a link back to any of
them ends the chain. -/

/-- The entries behind a first one, up to the last that is linked to a new entry no more; `seen`
holds the entries already passed. -/
inductive Cut (next : α → Option α) : (seen : List α) → α → List α → Prop
  | stop {seen : List α} {a : α} (h : ∀ b, next a = some b → b ∈ a :: seen) : Cut next seen a []
  | link {seen rest : List α} {a b : α} (h : next a = some b) (hnew : b ∉ a :: seen)
      (hrest : Cut next (a :: seen) b rest) : Cut next seen a (b :: rest)

/-- In a table that links do not leave, the bound on the links is never what ends a cut chain. -/
theorem cut_distinct [DecidableEq α] {table : List α}
    (hnext : ∀ a ∈ table, ∀ b, next a = some b → b ∈ table) {n : Nat} {seen : List α} {a : α}
    (htable : a :: seen ⊆ table) (hnodup : (a :: seen).Nodup)
    (hn : table.length ≤ (a :: seen).length + n) :
    ∃ rest, distinct next n seen a = a :: rest ∧ Cut next seen a rest := by
  have ha := htable List.mem_cons_self
  induction n generalizing seen a with
  | zero =>
    -- all entries of the table have been passed
    have hperm := (List.subperm_of_subset hnodup htable).perm_of_length_le hn
    exact ⟨[], rfl, .stop fun b hb ↦ hperm.mem_iff.mpr (hnext a ha b hb)⟩
  | succ n ih =>
    unfold distinct
    cases hb : next a with
    | none => exact ⟨[], rfl, .stop fun b hb' ↦ by cases hb.symm.trans hb'⟩
    | some b =>
      by_cases hseen : b ∈ a :: seen
      · refine ⟨[], if_pos (List.mem_cons.mp hseen), .stop fun b' hb' ↦ ?_⟩
        exact Option.some.inj (hb.symm.trans hb') ▸ hseen
      · have hbtable := hnext a ha b hb
        obtain ⟨rest, heq, hcut⟩ := ih (List.cons_subset.mpr ⟨hbtable, htable⟩)
          (List.nodup_cons.mpr ⟨hseen, hnodup⟩) (by simp only [List.length_cons] at hn ⊢; omega)
          hbtable
        refine ⟨b :: rest, ?_, .link hb hseen hcut⟩
        dsimp only
        rw [if_neg fun h ↦ hseen (List.mem_cons.mpr h), heq]

namespace Cut

variable {seen rest : List α} {a : α}

theorem nodup (h : Cut next seen a rest) (ha : a ∉ seen) :
    (a :: rest).Nodup ∧ ∀ x ∈ a :: rest, x ∉ seen := by
  induction h with
  | stop _ => simpa using ha
  | @link seen rest a b _ hnew _ ih =>
    obtain ⟨hnodup, hout⟩ := ih hnew
    refine ⟨List.nodup_cons.mpr ⟨fun hmem ↦ hout a hmem List.mem_cons_self, hnodup⟩, ?_⟩
    intro x hx
    rcases List.mem_cons.mp hx with rfl | hx
    · exact ha
    · exact fun hseen ↦ hout x hx (List.mem_cons_of_mem _ hseen)

theorem reaches (h : Cut next seen a rest) :
    ∀ x ∈ a :: rest, Relation.ReflTransGen (fun x y ↦ next x = some y) a x := by
  induction h with
  | stop _ => exact fun x hx ↦ List.mem_singleton.mp hx ▸ .refl
  | link hb _ _ ih =>
    refine List.forall_mem_cons.mpr ⟨.refl, fun x hx ↦ .head hb (ih x hx)⟩

theorem reaches_last (h : Cut next seen a rest) :
    ∀ x ∈ a :: rest,
      Relation.ReflTransGen (fun x y ↦ next x = some y) x (rest.getLastD a) := by
  induction h with
  | stop _ => exact fun x hx ↦ List.mem_singleton.mp hx ▸ .refl
  | link hb _ _ ih =>
    rw [List.getLastD_cons]
    exact List.forall_mem_cons.mpr ⟨.head hb (ih _ List.mem_cons_self), ih⟩

theorem mem_of_link (h : Cut next seen a rest) :
    ∀ x ∈ a :: rest, ∀ y, next x = some y → y ∈ a :: rest ∨ y ∈ seen := by
  induction h with
  | stop h =>
    intro x hx y hy
    rw [List.mem_singleton.mp hx] at hy
    exact (List.mem_cons.mp (h y hy)).imp_left List.mem_singleton.mpr
  | @link seen rest a b hb _ _ ih =>
    intro x hx y hy
    rcases List.mem_cons.mp hx with rfl | hx
    · obtain rfl := Option.some.inj (hb.symm.trans hy)
      exact .inl (List.mem_cons_of_mem _ List.mem_cons_self)
    · rcases ih x hx y hy with hmem | hmem
      · exact .inl (List.mem_cons_of_mem _ hmem)
      · rcases List.mem_cons.mp hmem with rfl | hmem
        · exact .inl List.mem_cons_self
        · exact .inr hmem

/-- A cut chain holds exactly the entries that links lead to. -/
theorem mem_iff (h : Cut next [] a rest) {x : α} :
    x ∈ a :: rest ↔ Relation.ReflTransGen (fun x y ↦ next x = some y) a x := by
  refine ⟨h.reaches x, fun hx ↦ ?_⟩
  induction hx with
  | refl => exact List.mem_cons_self
  | tail _ hlink ih => exact (h.mem_of_link _ ih _ hlink).resolve_right (List.not_mem_nil)

/-- The last entry of a cut chain has a link exactly when the links lead to an entry that comes back
to itself. -/
theorem last_link_iff (h : Cut next [] a rest) :
    next (rest.getLastD a) ≠ none
      ↔ ∃ x, Relation.ReflTransGen (fun x y ↦ next x = some y) a x
        ∧ Relation.TransGen (fun x y ↦ next x = some y) x x := by
  have hlast : rest.getLastD a ∈ a :: rest :=
    h.mem_iff.mpr (h.reaches_last a List.mem_cons_self)
  constructor
  · intro hnone
    obtain ⟨b, hb⟩ := Option.ne_none_iff_exists'.mp hnone
    have hmem := (h.mem_of_link _ hlast b hb).resolve_right List.not_mem_nil
    exact ⟨b, h.reaches b hmem, .tail' (h.reaches_last b hmem) hb⟩
  · rintro ⟨x, hx, hcircle⟩ hnone
    -- links are single-valued, so what an entry on a circle leads to is on a circle
    have hon : ∀ y, Relation.ReflTransGen (fun x y ↦ next x = some y) x y →
        Relation.TransGen (fun x y ↦ next x = some y) y y := by
      intro y hy
      induction hy with
      | refl => exact hcircle
      | tail _ hlink ih =>
        obtain ⟨c, hc, hback⟩ := Relation.TransGen.head'_iff.mp ih
        obtain rfl := Option.some.inj (hc.symm.trans hlink)
        exact .tail' hback hlink
    obtain ⟨c, hc, -⟩ := Relation.TransGen.head'_iff.mp
      (hon _ (h.reaches_last x (h.mem_iff.mpr hx)))
    cases hnone.symm.trans hc

end Cut

end ModuleLinker.Chain

import Mathlib.Data.List.Infix
import ModuleLinker.Text.Replace

/-!
# What replacing leaves in place

A pattern that stands in one place of a text is replaced there and nowhere else. When a pattern and
what it is replaced by begin with the same character, the text up to the first such character stays
as it is: no occurrence begins before it, and after a replacement it is still there.
-/

namespace ModuleLinker.Text

variable {pattern replacement s : List Char}

theorem occursIn_iff : occursIn pattern s = true ↔ pattern <:+: s := by
  induction s with
  | nil => rw [occursIn, List.isEmpty_iff, List.infix_nil]
  | cons c rest ih =>
    rw [occursIn, Bool.or_eq_true, List.isPrefixOf_iff_prefix, ih, List.infix_cons_iff]

theorem occursIn_eq_false_iff : occursIn pattern s = false ↔ ¬pattern <:+: s := by
  rw [← occursIn_iff, Bool.not_eq_true]

/-! ## One step of replacing

A pattern is looked for from left to right. What has been replaced is not looked at again, so the
place where replacing goes on is part of the statements. -/

theorem replaceFrom_skip (front : List Char) :
    replaceFrom pattern replacement front.length (front ++ s)
      = replaceFrom pattern replacement 0 s := by
  induction front with
  | nil => rfl
  | cons c front ih => exact ih

theorem replaceFrom_append (hpattern : pattern ≠ []) :
    replaceFrom pattern replacement 0 (pattern ++ s)
      = replacement ++ replaceFrom pattern replacement 0 s := by
  cases pattern with
  | nil => exact absurd rfl hpattern
  | cons c rest =>
    have hfront : (c :: rest).isPrefixOf (c :: (rest ++ s)) = true :=
      List.isPrefixOf_iff_prefix.mpr (List.prefix_append (c :: rest) s)
    rw [List.cons_append, replaceFrom, if_pos hfront, List.length_cons, Nat.add_sub_cancel,
      replaceFrom_skip]

theorem replaceFrom_cons {c : Char} (h : ¬pattern <+: c :: s) :
    replaceFrom pattern replacement 0 (c :: s) = c :: replaceFrom pattern replacement 0 s := by
  rw [replaceFrom, if_neg (mt List.isPrefixOf_iff_prefix.mp h)]

/-! ## A single occurrence -/

theorem replaceFrom_of_only {front back : List Char} (hpattern : pattern ≠ [])
    (honly : ∀ a b, front ++ pattern ++ back = a ++ pattern ++ b → a = front) :
    replaceFrom pattern replacement 0 (front ++ pattern ++ back)
      = front ++ replacement ++ back := by
  induction front with
  | nil =>
    have hback : occursIn pattern back = false := by
      rw [occursIn_eq_false_iff]
      rintro ⟨a, b, rfl⟩
      -- behind the first occurrence there is no second one
      have hfront := honly (pattern ++ a) b (by simp)
      exact hpattern (List.append_eq_nil_iff.mp hfront).1
    rw [List.nil_append, replaceFrom_append hpattern, replaceFrom_of_not_occursIn hback]
    rfl
  | cons c front ih =>
    have hnot : ¬pattern <+: c :: (front ++ pattern ++ back) := by
      rintro ⟨b, hb⟩
      cases honly [] b hb.symm
    rw [List.cons_append, List.cons_append, replaceFrom_cons hnot, ih]
    · rfl
    · intro a b hab
      have := honly (c :: a) b (by rw [List.cons_append, List.cons_append, hab]; rfl)
      exact (List.cons.inj this).2

/-! ## Up to the first character of the pattern

Nothing is replaced in front of the first place where the pattern could begin, whatever happens
further on. -/

section Lead

variable {lead : Char} (hpattern : pattern.head? = some lead)
include hpattern

theorem not_prefix_cons_of_ne {c : Char} (hc : c ≠ lead) : ¬pattern <+: c :: s := by
  rintro ⟨b, hb⟩
  cases pattern with
  | nil => cases hpattern
  | cons d rest =>
    rw [List.cons_append] at hb
    exact hc ((List.cons.inj hb).1.symm.trans (Option.some.inj hpattern))

/-- Replacing begins with the first character of the pattern. -/
theorem replaceFrom_append_of_notMem {front : List Char} (hfront : lead ∉ front) :
    replaceFrom pattern replacement 0 (front ++ s)
      = front ++ replaceFrom pattern replacement 0 s := by
  induction front with
  | nil => rfl
  | cons c front ih =>
    obtain ⟨hc, hrest⟩ := not_or.mp (mt List.mem_cons.mpr hfront)
    rw [List.cons_append, replaceFrom_cons (not_prefix_cons_of_ne hpattern (Ne.symm hc)), ih hrest]
    rfl

variable (hreplacement : replacement.head? = some lead)
include hreplacement

/-- What a text begins with, up to the first character that pattern and replacement share, it begins
with after replacing. -/
theorem prefix_replaceFrom_iff {x : List Char} (hx : lead ∉ x.dropLast) :
    x <+: replaceFrom pattern replacement 0 s ↔ x <+: s := by
  induction x generalizing s with
  | nil => simp
  | cons c x ih =>
    cases s with
    | nil => rfl
    | cons d rest =>
      by_cases hfront : pattern <+: d :: rest
      · -- both texts begin with the shared character, which can only be the last one of `x`
        obtain ⟨back, hback⟩ := hfront
        have hne : pattern ≠ [] := by
          rintro rfl
          cases hpattern
        obtain ⟨after, rfl⟩ : ∃ after, pattern = lead :: after :=
          ⟨pattern.tail, (List.cons_head?_tail hpattern).symm⟩
        obtain ⟨after', rfl⟩ : ∃ after', replacement = lead :: after' :=
          ⟨replacement.tail, (List.cons_head?_tail hreplacement).symm⟩
        rw [← hback, replaceFrom_append hne, List.cons_append, List.cons_append,
          List.cons_prefix_cons, List.cons_prefix_cons]
        refine and_congr_right fun hc ↦ ?_
        cases x with
        | nil => simp
        | cons e x => exact absurd (hc ▸ List.mem_cons_self ..) hx
      · rw [replaceFrom_cons hfront, List.cons_prefix_cons, List.cons_prefix_cons]
        refine and_congr_right fun _ ↦ ih fun hmem ↦ hx ?_
        cases x with
        | nil => cases hmem
        | cons e x => exact List.mem_cons_of_mem _ hmem

end Lead

end ModuleLinker.Text

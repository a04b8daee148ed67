import Mathlib.Data.List.Infix

/-!
# Rows of parts

Parts that stand in a row can be told apart if their lengths are known, if a mark stands between
them that they do not hold, or if each part is the longest beginning of its row whose elements have
some property.
-/

namespace ModuleLinker

/-! ## Parts of known lengths -/

theorem map_eq_map_of_forall {α β γ : Type} {f : α → β} {g : α → γ} {l l' : List α}
    (hfg : ∀ a ∈ l, ∀ a' ∈ l', f a = f a' → g a = g a') (h : l.map f = l'.map f) :
    l.map g = l'.map g := by
  induction l generalizing l' with
  | nil =>
    obtain rfl := List.map_eq_nil_iff.mp h.symm
    rfl
  | cons a l ih =>
    cases l' with
    | nil => cases h
    | cons a' l' =>
      obtain ⟨hhead, htail⟩ := List.cons.inj h
      rw [List.map_cons, List.map_cons, hfg a (.head _) a' (.head _) hhead,
        ih (fun b hb b' hb' ↦ hfg b (.tail _ hb) b' (.tail _ hb')) htail]

theorem flatMap_append_inj {α β : Type} {f : α → List β} {l l' : List α} {rest rest' : List β}
    (hf : ∀ a ∈ l, ∀ a' ∈ l', f a = f a' → a = a')
    (hlengths : l.map (fun a ↦ (f a).length) = l'.map fun a ↦ (f a).length)
    (h : l.flatMap f ++ rest = l'.flatMap f ++ rest') : l = l' ∧ rest = rest' := by
  obtain ⟨hrow, hrest⟩ :=
    List.append_inj h (by rw [List.length_flatMap, List.length_flatMap, hlengths])
  have hblocks : l.map f = l'.map f := List.eq_iff_flatten_eq.mpr
    ⟨hrow, by simpa [Function.comp_def] using hlengths⟩
  exact ⟨by simpa using map_eq_map_of_forall (g := id) hf hblocks, hrest⟩

/-! ## Parts with a mark behind them

If the two rows were cut at different places, the shorter first part would be a proper beginning
of the longer one, and the mark behind it would be an element of the longer one. -/

theorem exists_of_append_eq {α : Type} {x : α} {start after front rest : List α} (hx : x ∉ start)
    (h : start ++ after = front ++ x :: rest) :
    ∃ more, front = start ++ more ∧ after = more ++ x :: rest := by
  rcases List.append_eq_append_iff.mp h with ⟨more, hfront, hmore⟩ | ⟨more, rfl, hmore⟩
  · exact ⟨more, hfront, hmore⟩
  · cases more with
    | nil => exact ⟨[], by simp, hmore.symm⟩
    | cons y more =>
      obtain rfl := (List.cons.inj hmore).1
      exact absurd (by simp) hx

theorem append_cons_eq {α : Type} {x : α} {front rest before after : List α} (hx : x ∉ front)
    (h : front ++ x :: rest = before ++ x :: after) :
    rest = after ∨ ∃ skipped, skipped.length < before.length ∧ rest = skipped ++ x :: after := by
  obtain ⟨more, rfl, hmore⟩ := exists_of_append_eq hx h
  cases more with
  | nil => exact .inl (List.cons.inj hmore).2
  | cons y more =>
    refine .inr ⟨more, ?_, (List.cons.inj hmore).2⟩
    simp only [List.length_append, List.length_cons]
    omega

/-- The first mark tells what stands before it from what stands behind. -/
theorem append_cons_inj {α : Type} {x : α} {front front' back back' : List α} (hx : x ∉ front)
    (hx' : x ∉ front') (h : front ++ x :: back = front' ++ x :: back') :
    front = front' ∧ back = back' := by
  obtain ⟨more, rfl, hmore⟩ := exists_of_append_eq hx h
  cases more with
  | nil => exact ⟨(List.append_nil _).symm, (List.cons.inj hmore).2⟩
  | cons y more =>
    obtain rfl := (List.cons.inj hmore).1
    exact absurd (by simp) hx'

/-! ## Longest beginnings -/

/-- Parts whose elements have a property, in front of what does not begin with such an element, can
be told from it. -/
theorem append_inj_of_longest {α : Type} {p : α → Prop} {front front' back back' : List α}
    (hfront : ∀ a ∈ front, p a) (hfront' : ∀ a ∈ front', p a)
    (hback : ∀ a ∈ back.head?, ¬p a) (hback' : ∀ a ∈ back'.head?, ¬p a)
    (h : front ++ back = front' ++ back') : front = front' ∧ back = back' := by
  -- what the longer part has more would begin what follows the shorter one
  have hnil : ∀ {front back more rest : List α}, (∀ a ∈ front ++ more, p a) →
      (∀ a ∈ back.head?, ¬p a) → back = more ++ rest → more = [] := by
    intro front back more rest hmore hback heq
    cases more with
    | nil => rfl
    | cons a more =>
      rw [heq] at hback
      exact absurd (hmore a (by simp)) (hback a rfl)
  rcases List.append_eq_append_iff.mp h with ⟨more, hlong, hrest⟩ | ⟨more, hlong, hrest⟩
  · obtain rfl := hnil (hlong ▸ hfront') hback hrest
    exact ⟨by rw [hlong, List.append_nil], hrest⟩
  · obtain rfl := hnil (hlong ▸ hfront) hback' hrest
    exact ⟨by rw [hlong, List.append_nil], hrest.symm⟩

end ModuleLinker

import Mathlib.Data.List.Forall2
import ModuleLinker.Import.Declare

/-!
# Two imports side by side

Two imports are alike when they go the same way from related states: both fail with one error, or
both succeed, with related results and in related states. The rules below take two imports apart
along the code that they share. What the states of a failure are like is left open, since nobody
looks at them.
-/

namespace ModuleLinker.Import

/-- The same failure, or related results and states. -/
inductive SameOutcome {α β : Type} (R : ImportState → ImportState → Prop) (V : α → β → Prop) :
    EStateM.Result LinkError ImportState α → EStateM.Result LinkError ImportState β → Prop
  | ok {a : α} {b : β} {s s' : ImportState} (ha : V a b) (hs : R s s') :
      SameOutcome R V (.ok a s) (.ok b s')
  | error (e : LinkError) (s s' : ImportState) : SameOutcome R V (.error e s) (.error e s')

/-- From related states two imports have the same outcome. -/
def Alike {α β : Type} (R : ImportState → ImportState → Prop) (V : α → β → Prop) (x : Import α)
    (y : Import β) : Prop :=
  ∀ s s', R s s' → SameOutcome R V (x s) (y s')

namespace Alike

variable {α β γ δ : Type} {R : ImportState → ImportState → Prop} {V : α → β → Prop}
  {W : γ → δ → Prop} {x : Import α} {y : Import β}

theorem of_ok {s s' t : ImportState} {a : α} (h : Alike R V x y) (hs : R s s')
    (hx : x s = .ok a t) : ∃ b t', y s' = .ok b t' ∧ V a b ∧ R t t' := by
  have hsame := h _ _ hs
  rw [hx] at hsame
  cases hy : y s' with
  | ok b t' =>
    rw [hy] at hsame
    cases hsame with
    | ok ha ht => exact ⟨b, t', rfl, ha, ht⟩
  | error e t' =>
    rw [hy] at hsame
    cases hsame

/-! ## Single steps -/

theorem pure {a : α} {b : β} (h : V a b) : Alike R V (pure a) (pure b) := fun _ _ hs ↦ .ok h hs

theorem throw {e : LinkError} : Alike R V (throw e) (throw e) := fun _ _ _ ↦ .error e _ _

theorem ofExcept {r : Except LinkError α} {f : α → β} :
    Alike R (fun a b ↦ b = f a) (Import.ofExcept r) (Import.ofExcept (r.map f)) := by
  cases r with
  | ok a => exact pure rfl
  | error e => exact throw

theorem ofExcept_same {r : Except LinkError α} :
    Alike R Eq (Import.ofExcept r) (Import.ofExcept r) := by
  cases r with
  | ok a => exact pure rfl
  | error e => exact throw

theorem get : Alike R R get get := fun _ _ hs ↦ .ok hs hs

theorem modify {f g : ImportState → ImportState} (h : ∀ {s s'}, R s s' → R (f s) (g s')) :
    Alike R Eq (modify f) (modify g) := fun _ _ hs ↦ .ok rfl (h hs)

/-- Declaring that asks the same questions and gets the same answers. -/
theorem deciding {ctx ctx' : Context} {m m' : ModuleId}
    {asked asked' : ImportState → ImportState → List TypeId} {f : ImportState → α × ImportState}
    {g : ImportState → β × ImportState} (hname : (ctx'.module m').name = (ctx.module m).name)
    (hdecides : ctx'.decides m' = ctx.decides m)
    (h : ∀ {s s'}, R s s' → V (f s).1 (g s').1 ∧ R (f s).2 (g s').2
      ∧ asked' s' (g s').2 = asked s (f s).2) :
    Alike R V (deciding ctx m asked f) (deciding ctx' m' asked' g) := by
  intro s s' hs
  obtain ⟨hvalue, hstate, hasked⟩ := h hs
  unfold Import.deciding
  dsimp only
  rw [hasked, hdecides, hname]
  split
  · exact .ok hvalue hstate
  · exact .error _ s s'

/-! ## Sequences -/

theorem bind {f : α → Import γ} {g : β → Import δ} (hx : Alike R V x y)
    (hf : ∀ a b, V a b → Alike R W (f a) (g b)) : Alike R W (x >>= f) (y >>= g) := by
  intro s s' hs
  have hsame := hx _ _ hs
  change SameOutcome R W (EStateM.bind x f s) (EStateM.bind y g s')
  unfold EStateM.bind
  generalize x s = r at hsame ⊢
  generalize y s' = r' at hsame ⊢
  cases hsame with
  | ok ha ht => exact hf _ _ ha _ _ ht
  | error e t t' => exact .error e t t'

theorem bind_eq {x y : Import α} {f : α → Import γ} {g : α → Import δ} (hx : Alike R Eq x y)
    (hf : ∀ a, Alike R W (f a) (g a)) : Alike R W (x >>= f) (y >>= g) :=
  hx.bind fun a _ heq ↦ heq ▸ hf a

/-! ## Loops

Both imports go over lists that correspond element by element, so they make the same number of
rounds and stop in the same one if they fail. -/

private theorem forall₂_map (r : α → β) (xs : List α) :
    List.Forall₂ (fun a b ↦ b = r a) xs (xs.map r) :=
  List.forall₂_map_right_iff.mpr (List.forall₂_same.mpr fun _ _ ↦ rfl)

theorem forM {P : α → β → Prop} {xs : List α} {ys : List β} {f : α → Import Unit}
    {g : β → Import Unit} (hxs : List.Forall₂ P xs ys)
    (hf : ∀ a b, P a b → Alike R Eq (f a) (g b)) : Alike R Eq (xs.forM f) (ys.forM g) := by
  induction hxs with
  | nil => exact pure rfl
  | cons hab _ ih => exact (hf _ _ hab).bind_eq fun _ ↦ ih

theorem forM_same {xs : List α} {f g : α → Import Unit} (hf : ∀ a ∈ xs, Alike R Eq (f a) (g a)) :
    Alike R Eq (xs.forM f) (xs.forM g) := by
  refine forM (P := fun a b ↦ a = b ∧ a ∈ xs) (List.forall₂_same.mpr fun a ha ↦ ⟨rfl, ha⟩) ?_
  rintro a _ ⟨rfl, ha⟩
  exact hf a ha

theorem forM_map {xs : List α} {r : α → β} {f : α → Import Unit} {g : β → Import Unit}
    (hf : ∀ a, Alike R Eq (f a) (g (r a))) : Alike R Eq (xs.forM f) ((xs.map r).forM g) := by
  refine forM (forall₂_map r xs) ?_
  rintro a _ rfl
  exact hf a

theorem mapM_same {xs : List α} {f g : α → Import γ} (hf : ∀ a ∈ xs, Alike R Eq (f a) (g a)) :
    Alike R Eq (xs.mapM f) (xs.mapM g) := by
  induction xs with
  | nil =>
    rw [List.mapM_nil, List.mapM_nil]
    exact pure rfl
  | cons a xs ih =>
    rw [List.mapM_cons, List.mapM_cons]
    refine (hf a (List.mem_cons_self ..)).bind_eq fun c ↦ ?_
    exact (ih fun a' ha' ↦ hf a' (List.mem_cons_of_mem a ha')).bind_eq fun cs ↦ pure rfl

theorem foldlM {P : α → β → Prop} {xs : List α} {ys : List β} {f : γ → α → Import γ}
    {g : δ → β → Import δ} {c : γ} {d : δ} (hxs : List.Forall₂ P xs ys) (hcd : W c d)
    (hf : ∀ c d a b, W c d → P a b → Alike R W (f c a) (g d b)) :
    Alike R W (xs.foldlM f c) (ys.foldlM g d) := by
  induction hxs generalizing c d with
  | nil => exact pure hcd
  | cons hab _ ih =>
    rw [List.foldlM_cons, List.foldlM_cons]
    exact (hf _ _ _ _ hcd hab).bind fun c' d' hcd' ↦ ih hcd'

theorem foldlM_map {xs : List α} {r : α → β} {f : γ → α → Import γ} {g : δ → β → Import δ} {c : γ}
    {d : δ} (hcd : W c d) (hf : ∀ c d a, W c d → Alike R W (f c a) (g d (r a))) :
    Alike R W (xs.foldlM f c) ((xs.map r).foldlM g d) := by
  refine foldlM (forall₂_map r xs) hcd ?_
  rintro c d a _ hcd rfl
  exact hf c d a hcd

theorem discard (h : Alike R V x y) : Alike R Eq (discard x) (discard y) := by
  change Alike R Eq (x >>= fun _ ↦ Pure.pure ()) (y >>= fun _ ↦ Pure.pure ())
  exact h.bind fun _ _ _ ↦ .pure rfl

end Alike

end ModuleLinker.Import

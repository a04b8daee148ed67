import Mathlib.Data.List.Forall2
import Mathlib.Logic.Relation
import ModuleLinker.Import.State

/-!
# Where an import leads

An import changes its state in single steps, and it keeps the steps it has made when it fails. Given
a relation that says what one step may do, `Reaches` says of a run that it only makes such steps,
and that a successful run ends with a result and a state of a given property.

The rules below take a run apart along its code. Whatever follows a step is shown from the state
that the step leaves, so the steps made before are at hand there: facts that steps keep need not be
carried through the properties.
-/

namespace ModuleLinker

open Relation (ReflTransGen)

theorem mem_of_initial {α : Type} {l done : List α} {x : α} (hpre : done ++ [x] <+: l) : x ∈ l :=
  hpre.subset (List.mem_append_right _ (List.mem_singleton_self x))

theorem not_mem_of_initial {α : Type} {l done : List α} {x : α} (hl : l.Nodup)
    (hpre : done ++ [x] <+: l) : x ∉ done := fun hmem ↦
  (List.nodup_append.mp (hl.sublist hpre.sublist)).2.2 x hmem x (by simp) rfl

namespace Import

/-- Run from a state, an import makes steps of a relation, also when it fails; when it succeeds, its
result and the state it leaves have a property. -/
def Reaches {α : Type} (T : ImportState → ImportState → Prop) (s : ImportState) (x : Import α)
    (Q : α → ImportState → Prop) : Prop :=
  match x s with
  | .ok a s' => ReflTransGen T s s' ∧ Q a s'
  | .error _ s' => ReflTransGen T s s'

namespace Reaches

variable {α β : Type} {T T' : ImportState → ImportState → Prop} {s s' : ImportState}
  {x : Import α} {P Q : α → ImportState → Prop}

/-! ## Using a run

What is known of a run holds of the state that it leaves, also when it fails. The steps that were
made say how that state is related to the first one. -/

theorem of_ok {a : α} (h : Reaches T s x Q) (hx : x s = .ok a s') :
    ReflTransGen T s s' ∧ Q a s' := by
  unfold Reaches at h
  rwa [hx] at h

theorem mono (h : Reaches T s x P) (hT : ∀ s s', T s s' → T' s s')
    (hP : ∀ a s', ReflTransGen T s s' → P a s' → Q a s') : Reaches T' s x Q := by
  unfold Reaches at h ⊢
  cases hx : x s with
  | ok a s' =>
    rw [hx] at h
    exact ⟨ReflTransGen.mono hT _ _ h.1, hP a s' h.1 h.2⟩
  | error e s' =>
    rw [hx] at h
    exact ReflTransGen.mono hT _ _ h

/-- More kinds of steps, while the steps that were made are remembered for what they are. -/
theorem lift (h : Reaches T s x Q) (hT : ∀ s s', T s s' → T' s s') :
    Reaches T' s x fun a s' ↦ ReflTransGen T s s' ∧ Q a s' :=
  h.mono hT fun _ _ hs ha ↦ ⟨hs, ha⟩

theorem imp (h : Reaches T s x P) (hP : ∀ a s', ReflTransGen T s s' → P a s' → Q a s') :
    Reaches T s x Q :=
  h.mono (fun _ _ ht ↦ ht) hP

/-! ## Single steps -/

theorem pure {a : α} (h : Q a s) : Reaches T s (pure a) Q := ⟨.refl, h⟩

theorem throw {e : LinkError} : Reaches T s (throw e) Q := ReflTransGen.refl

theorem unknown {ctx : Context} {m : ModuleId} {symbol : String} :
    Reaches T s (Import.unknown ctx m symbol) Q := ReflTransGen.refl

theorem orUnknown {ctx : Context} {m : ModuleId} {symbol : String} {found : Option α}
    (h : ∀ a, found = some a → Q a s) : Reaches T s (Import.orUnknown ctx m symbol found) Q := by
  cases found with
  | some a => exact pure (h a rfl)
  | none => exact unknown

theorem ofExcept {r : Except LinkError α} (h : ∀ a, r = .ok a → Q a s) :
    Reaches T s (Import.ofExcept r) Q := by
  cases r with
  | ok a => exact ⟨.refl, h a rfl⟩
  | error e => exact ReflTransGen.refl

theorem run {a : α} (hx : x s = .ok a s') (hs : ReflTransGen T s s') (h : Q a s') :
    Reaches T s x Q := by
  unfold Reaches
  rw [hx]
  exact ⟨hs, h⟩

theorem updateTarget {f : Target → α × Target}
    (hs : ReflTransGen T s { s with target := (f s.target).2 })
    (h : Q (f s.target).1 { s with target := (f s.target).2 }) :
    Reaches T s (Import.updateTarget f) Q :=
  run rfl hs h

theorem modifyMap {f : SymbolMap → SymbolMap} {Q : Unit → ImportState → Prop}
    (hs : ReflTransGen T s { s with map := f s.map }) (h : Q () { s with map := f s.map }) :
    Reaches T s (Import.modifyMap f) Q :=
  run rfl hs h

/-! ## Sequences -/

theorem bind {f : α → Import β} {Q : β → ImportState → Prop} (hx : Reaches T s x P)
    (hf : ∀ a s', ReflTransGen T s s' → P a s' → Reaches T s' (f a) Q) :
    Reaches T s (x >>= f) Q := by
  unfold Reaches at hx
  change match EStateM.bind x f s with
    | .ok b s'' => ReflTransGen T s s'' ∧ Q b s''
    | .error _ s'' => ReflTransGen T s s''
  unfold EStateM.bind
  cases hxs : x s with
  | error e s' =>
    rw [hxs] at hx
    exact hx
  | ok a s' =>
    rw [hxs] at hx
    have hrest := hf a s' hx.1 hx.2
    unfold Reaches at hrest
    dsimp only
    cases hfs : f a s' with
    | ok b s'' =>
      rw [hfs] at hrest
      exact ⟨hx.1.trans hrest.1, hrest.2⟩
    | error e s'' =>
      rw [hfs] at hrest
      exact hx.1.trans hrest

theorem run_bind {a : α} {f : α → Import β} {Q : β → ImportState → Prop} (hx : x s = .ok a s')
    (hs : ReflTransGen T s s') (hf : Reaches T s' (f a) Q) : Reaches T s (x >>= f) Q :=
  bind (P := fun b t ↦ b = a ∧ t = s') (run hx hs ⟨rfl, rfl⟩) fun _ _ _ ⟨ha, hs'⟩ ↦ ha ▸ hs' ▸ hf

theorem ofMap_bind {r : SymbolMap → α} {f : α → Import β} {Q : β → ImportState → Prop}
    (hf : Reaches T s (f (r s.map)) Q) : Reaches T s (ofMap r >>= f) Q :=
  run_bind rfl .refl hf

theorem ofTarget_bind {r : Target → α} {f : α → Import β} {Q : β → ImportState → Prop}
    (hf : Reaches T s (f (r s.target)) Q) : Reaches T s (ofTarget r >>= f) Q :=
  run_bind rfl .refl hf

theorem get_bind {f : ImportState → Import β} {Q : β → ImportState → Prop}
    (hf : Reaches T s (f s) Q) : Reaches T s (get >>= f) Q :=
  run_bind rfl .refl hf

/-! ## Loops

A loop keeps a property that says what has been gone through. The elements in front of the current
one are a part of the property, since several sweeps have to know what has already been done. -/

/-- A loop over a list keeps a property of what has been gone through. -/
theorem forM {xs : List α} {f : α → Import Unit} {J : List α → ImportState → Prop} (h : J [] s)
    (hf : ∀ done a s', done ++ [a] <+: xs → ReflTransGen T s s' → J done s' →
      Reaches T s' (f a) fun _ s'' ↦ J (done ++ [a]) s'') :
    Reaches T s (xs.forM f) fun _ s' ↦ J xs s' := by
  suffices hloop : ∀ rest done s', done ++ rest = xs → ReflTransGen T s s' → J done s' →
      Reaches T s' (rest.forM f) fun _ s'' ↦ J xs s'' from hloop xs [] s rfl .refl h
  intro rest
  induction rest with
  | nil =>
    intro done s' hxs _ hJ
    rw [List.append_nil] at hxs
    exact pure (hxs ▸ hJ)
  | cons a rest ih =>
    intro done s' hxs hs hJ
    have hpre : done ++ [a] <+: xs := ⟨rest, by simpa using hxs⟩
    refine bind (hf done a s' hpre hs hJ) fun _ s'' hs' hJ' ↦ ?_
    exact ih (done ++ [a]) s'' (by simpa using hxs) (hs.trans hs') hJ'

/-- A loop that brings something about for each element, which steps do not undo. -/
theorem forM_each {xs : List α} {f : α → Import Unit} {P : α → ImportState → Prop}
    (hkeep : ∀ a s s', ReflTransGen T s s' → P a s → P a s')
    (hf : ∀ a ∈ xs, ∀ s', ReflTransGen T s s' → Reaches T s' (f a) fun _ s'' ↦ P a s'') :
    Reaches T s (xs.forM f) fun _ s' ↦ ∀ a ∈ xs, P a s' := by
  refine forM (J := fun done s' ↦ ∀ a ∈ done, P a s') (by simp) fun done a s' hpre hs hdone ↦ ?_
  refine (hf a (hpre.subset (by simp)) s' hs).imp fun _ s'' hs' ha b hb ↦ ?_
  rcases List.mem_append.mp hb with hb | hb
  · exact hkeep b s' s'' hs' (hdone b hb)
  · rw [List.mem_singleton.mp hb]
    exact ha

/-- A loop that collects results: what holds of a result when it is made, and is kept by steps,
holds of all of them at the end. -/
theorem mapM {xs : List α} {f : α → Import β} {P : α → β → ImportState → Prop}
    (hkeep : ∀ a b s s', ReflTransGen T s s' → P a b s → P a b s')
    (hf : ∀ a ∈ xs, ∀ s', ReflTransGen T s s' → Reaches T s' (f a) (P a)) :
    Reaches T s (xs.mapM f) fun bs s' ↦ List.Forall₂ (fun a b ↦ P a b s') xs bs := by
  induction xs generalizing s with
  | nil =>
    rw [List.mapM_nil]
    exact pure .nil
  | cons a xs ih =>
    rw [List.mapM_cons]
    refine bind (hf a (by simp) s .refl) fun b s₁ hs₁ hb ↦ ?_
    refine bind (ih fun a' ha' s' hs' ↦ hf a' (by simp [ha']) s' (hs₁.trans hs'))
      fun bs s₂ hs₂ hbs ↦ ?_
    exact pure (.cons (hkeep a b s₁ s₂ hs₂ hb) hbs)

theorem foldlM {xs : List α} {f : β → α → Import β} {J : List α → β → ImportState → Prop} {b : β}
    (h : J [] b s)
    (hf : ∀ done a b s', done ++ [a] <+: xs → ReflTransGen T s s' → J done b s' →
      Reaches T s' (f b a) fun b' s'' ↦ J (done ++ [a]) b' s'') :
    Reaches T s (xs.foldlM f b) fun b' s' ↦ J xs b' s' := by
  suffices hloop : ∀ rest done b s', done ++ rest = xs → ReflTransGen T s s' → J done b s' →
      Reaches T s' (rest.foldlM f b) fun b' s'' ↦ J xs b' s'' from hloop xs [] b s rfl .refl h
  intro rest
  induction rest with
  | nil =>
    intro done b s' hxs _ hJ
    rw [List.append_nil] at hxs
    exact pure (hxs ▸ hJ)
  | cons a rest ih =>
    intro done b s' hxs hs hJ
    have hpre : done ++ [a] <+: xs := ⟨rest, by simpa using hxs⟩
    rw [List.foldlM_cons]
    refine bind (hf done a b s' hpre hs hJ) fun b' s'' hs' hJ' ↦ ?_
    exact ih (done ++ [a]) b' s'' (by simpa using hxs) (hs.trans hs') hJ'

end Reaches

end Import

end ModuleLinker

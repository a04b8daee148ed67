import ModuleLinker.Proofs.Import.Faithful

/-!
# The last writer of a body

Copying goes through the methods of the inputs one after the other. A method *writes* a method of
the output when it is mapped onto it, has a body, and comes from the module that made it; several
methods of one module may write the same one. So after the sweep a method of the output has the body
of the last method that writes it, and no body when none does.

Who writes what is fixed before the sweep begins, since copying changes neither the entries nor the
makers of methods.
-/

namespace ModuleLinker

open Relation (ReflTransGen)

/-- The last element of a list with a property. -/
def LastWith {α : Type} (P : α → Prop) (l : List α) (x : α) : Prop :=
  ∃ pre post, l = pre ++ x :: post ∧ P x ∧ ∀ y ∈ post, ¬P y

theorem LastWith.concat_self {α : Type} {P : α → Prop} (l : List α) {x : α} (h : P x) :
    LastWith P (l ++ [x]) x :=
  ⟨l, [], rfl, h, by simp⟩

theorem LastWith.concat_other {α : Type} {P : α → Prop} {l : List α} {x y : α}
    (h : LastWith P l x) (hy : ¬P y) : LastWith P (l ++ [y]) x := by
  obtain ⟨pre, post, rfl, hx, hpost⟩ := h
  refine ⟨pre, post ++ [y], by simp, hx, fun z hz ↦ ?_⟩
  rcases List.mem_append.mp hz with hz | hz
  · exact hpost z hz
  · rw [List.mem_singleton.mp hz]
    exact hy

theorem LastWith.holds {α : Type} {P : α → Prop} {l : List α} {x : α} (h : LastWith P l x) :
    P x := by
  obtain ⟨pre, post, -, hx, -⟩ := h
  exact hx

theorem LastWith.unique {α : Type} {P : α → Prop} {l : List α} {x y : α} (hx : LastWith P l x)
    (hy : LastWith P l y) : x = y := by
  obtain ⟨pre, post, rfl, hx, hpost⟩ := hx
  obtain ⟨pre', post', heq, hy, hpost'⟩ := hy
  rcases List.append_eq_append_iff.mp heq with ⟨as, -, h⟩ | ⟨as, -, h⟩
  · rcases List.cons_eq_append_iff.mp h with ⟨rfl, h⟩ | ⟨as', rfl, h⟩
    · cases h
      rfl
    · cases h
      exact absurd hy (hpost y (by simp))
  · rcases List.cons_eq_append_iff.mp h with ⟨rfl, h⟩ | ⟨as', rfl, h⟩
    · cases h
      rfl
    · cases h
      exact absurd hx (hpost' x (by simp))

theorem LastWith.mem {α : Type} {P : α → Prop} {l : List α} {x : α} (h : LastWith P l x) :
    x ∈ l := by
  obtain ⟨pre, post, rfl, -⟩ := h
  simp

namespace ImportState

/-- Copying the body of a method of an input is a write to a method of the output. -/
def Writes (s : ImportState) (ctx : Context) (d : MethodId) (x : ModuleId × MethodId) : Prop :=
  s.map.methodOf? x.1 x.2 = some (.definition d) ∧ s.map.methodOrigin? d = some x.1
    ∧ ((ctx.module x.1).method x.2).body.isSome

/-- A method of the output has the body of a method of an input, carried over. -/
def Carries (s : ImportState) (ctx : Context) (d : MethodId) (x : ModuleId × MethodId) : Prop :=
  ∃ source body, ((ctx.module x.1).method x.2).body = some source
    ∧ s.map.remapBody? x.1 source = some body ∧ (Module.method s.target d).body = some body

/-- After the methods of a list have been copied, a method of the output has the body of the last
one that writes it. -/
def Copied (s : ImportState) (ctx : Context) (done : List (ModuleId × MethodId)) (d : MethodId) :
    Prop :=
  (∀ x ∈ done, ¬s.Writes ctx d x) ∧ (Module.method s.target d).body = none
    ∨ ∃ x, LastWith (s.Writes ctx d) done x ∧ s.Carries ctx d x

/-- The methods of the inputs have the same entries, and those of the output the same makers. -/
structure SameWriters (s s' : ImportState) : Prop where
  entries : ∀ m id, s'.map.methodOf? m id = s.map.methodOf? m id
  origins : ∀ d, s'.map.methodOrigin? d = s.map.methodOrigin? d

variable {s s' : ImportState} {ctx : Context} {d : MethodId} {x : ModuleId × MethodId}

theorem SameWriters.writes_iff (h : s.SameWriters s') :
    s'.Writes ctx d x ↔ s.Writes ctx d x := by
  unfold Writes
  rw [h.entries, h.origins]

theorem SameWriters.refl (s : ImportState) : s.SameWriters s := ⟨fun _ _ ↦ rfl, fun _ ↦ rfl⟩

theorem SameWriters.symm (h : s.SameWriters s') : s'.SameWriters s :=
  ⟨fun m id ↦ (h.entries m id).symm, fun d ↦ (h.origins d).symm⟩

theorem SameWriters.trans {s'' : ImportState} (h : s.SameWriters s') (h' : s'.SameWriters s'') :
    s.SameWriters s'' :=
  ⟨fun m id ↦ (h'.entries m id).trans (h.entries m id), fun d ↦ (h'.origins d).trans (h.origins d)⟩

theorem SameMembers.sameWriters (h : s.SameMembers s') : s.SameWriters s' where
  entries := h.methodOf?_eq
  origins := h.origins

theorem Copied.concat {done : List (ModuleId × MethodId)} (h : s.Copied ctx done d)
    (hs : s.Grows s') (hsame : s.SameWriters s')
    (hwrite : s.Writes ctx d x → s'.Carries ctx d x)
    (hkeep : ¬s.Writes ctx d x →
      (Module.method s'.target d).body = (Module.method s.target d).body) :
    s'.Copied ctx (done ++ [x]) d := by
  have hiff : s'.Writes ctx d = s.Writes ctx d :=
    funext fun y ↦ propext hsame.writes_iff
  unfold Copied
  rw [hiff]
  by_cases hx : s.Writes ctx d x
  · exact .inr ⟨x, .concat_self done hx, hwrite hx⟩
  · rcases h with ⟨hnone, hbody⟩ | ⟨y, hlast, source, body, hsource, hremap, hbody⟩
    · refine .inl ⟨fun y hy ↦ ?_, (hkeep hx).trans hbody⟩
      rcases List.mem_append.mp hy with hy | hy
      · exact hnone y hy
      · rwa [List.mem_singleton.mp hy]
    · exact .inr ⟨y, hlast.concat_other hx, source, body, hsource, hs.map.remapBody? hremap,
        (hkeep hx).trans hbody⟩

end ImportState

namespace Import

open ImportState

variable {ctx : Context} {s s' : ImportState} {m : ModuleId} {id : MethodId}

/-- Copying a body that has not been looked at writes what the method writes, and nothing else. -/
structure CopyEffect (ctx : Context) (m : ModuleId) (id : MethodId) (s s' : ImportState) :
    Prop where
  copied : s'.copied = (m, id) :: s.copied
  writers : s.SameWriters s'
  writes : ∀ {d}, s.Writes ctx d (m, id) → s'.Carries ctx d (m, id)
  keeps : ∀ {d}, ¬s.Writes ctx d (m, id) →
    (Module.method s'.target d).body = (Module.method s.target d).body

section Accepted

variable (hctx : ctx.registry.Accepted)
include hctx

theorem reaches_writeBody (hs : s.Sound ctx) (hid : id.index < (ctx.module m).methods.length)
    {source : Body} (hsource : ((ctx.module m).method id).body = some source) {place : MethodId}
    (hplace : s.map.methodOf? m id = some (.definition place))
    (horigin : s.map.methodOrigin? place = some m) :
    Reaches (CopyStep ctx) s (do
      let body ← importBody ctx m source
      modifyTarget fun t ↦ t.updateMethod place fun d ↦ { d with body := some body }) fun _ s' ↦
        s'.copied = s.copied ∧ s.SameWriters s' ∧ s'.Carries ctx place (m, id)
          ∧ ∀ d, d ≠ place →
            (Module.method s'.target d).body = (Module.method s.target d).body := by
  have hhas := body_has hctx hid hsource
  refine .bind ((reaches_importBody hctx hs source hhas).lift fun _ _ ↦ .use)
    fun body s₁ _ h ↦ ?_
  obtain ⟨hs₁, hbody⟩ := h
  have hsame := UseStep.sameMembers_steps hs₁
  have hplace₁ : s₁.map.methodOf? m id = some (.definition place) := by
    rw [hsame.methodOf?_eq]
    exact hplace
  have horigin₁ : s₁.map.methodOrigin? place = some m := by
    rw [hsame.origins]
    exact horigin
  have hin := (UseStep.sound_steps hs₁ hs).methodOf?_lt hplace₁
  refine .run rfl (.single (.setBody hplace₁ horigin₁ hsource hbody))
    ⟨hsame.copied, ⟨hsame.sameWriters.entries, hsame.origins⟩, ⟨source, body, hsource, hbody, ?_⟩,
      fun d hne ↦ ?_⟩
  · rw [Module.method_updateMethod, if_pos ⟨rfl, hin⟩]
  · rw [Module.method_updateMethod, if_neg fun hc ↦ hne hc.1, hsame.method_eq]

theorem reaches_copyBody (hs : s.Sound ctx) (hid : id.index < (ctx.module m).methods.length) :
    Reaches (CopyStep ctx) s (copyBody ctx m id) fun _ s' ↦
      (m, id) ∉ s.copied → CopyEffect ctx m id s s' := by
  have hvisit : CopyStep ctx s { s with copied := (m, id) :: s.copied } := .visit m id
  -- a method that writes nothing is only noted
  have hnothing : (∀ d, ¬s.Writes ctx d (m, id)) → (m, id) ∉ s.copied →
      CopyEffect ctx m id s { s with copied := (m, id) :: s.copied } := fun hno _ ↦
    ⟨rfl, ⟨fun _ _ ↦ rfl, fun _ ↦ rfl⟩, fun hw ↦ absurd hw (hno _), fun _ ↦ rfl⟩
  unfold copyBody
  refine .get_bind ?_
  split
  · next hmem => exact .pure fun hnot ↦ absurd (List.contains_iff_mem.mp hmem) hnot
  refine .run_bind rfl (.single hvisit) ?_
  cases hsource : ((ctx.module m).method id).body with
  | none => exact .pure (hnothing fun d hw ↦ by simp [Writes, hsource] at hw)
  | some source =>
    refine .ofMap_bind ?_
    dsimp only
    cases hplace : s.map.methodOf? m id with
    | none => exact .pure (hnothing fun d hw ↦ by simp [Writes, hplace] at hw)
    | some handle =>
      cases handle with
      | reference r => exact .pure (hnothing fun d hw ↦ by simp [Writes, hplace] at hw)
      | definition place =>
        have hsole : ∀ {d}, s.Writes ctx d (m, id) → d = place := by
          intro d hw
          have heq := hplace.symm.trans hw.1
          simpa using heq.symm
        refine .ofMap_bind ?_
        change Reaches _ _ (if s.map.methodOrigin? place = some m then _ else _) _
        split
        · next horigin =>
          refine (reaches_writeBody hctx (hvisit.sound hs) hid hsource hplace horigin).imp
            fun _ s' _ h _ ↦ ?_
          obtain ⟨hcopied, hwriters, hcarries, hothers⟩ := h
          refine ⟨hcopied, ⟨hwriters.entries, hwriters.origins⟩, fun hw ↦ ?_, fun {d} hw ↦ ?_⟩
          · rw [hsole hw]
            exact hcarries
          · refine hothers d fun heq ↦ hw ?_
            rw [heq]
            exact ⟨hplace, horigin, by simp [hsource]⟩
        · next horigin =>
          refine .pure (hnothing fun d hw ↦ horigin ?_)
          rw [← hsole hw]
          exact hw.2.1

end Accepted

end Import

end ModuleLinker

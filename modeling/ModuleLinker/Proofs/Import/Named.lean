import ModuleLinker.Proofs.Import.Late

/-!
# Members keep their names

A method of the output that a call of an input module has become has the name that the call asked
for: methods are found by their names, and so are the members that references lead to. References of
the output are made with the name of the reference they come from.

Names are part of what growth leaves alone, so all there is to look at in a step is the reference
that it enters.
-/

namespace ModuleLinker

open Relation (ReflTransGen)

namespace ImportState

/-- Members that references of the inputs lead to have the names that the references ask for. -/
def RefsNamed (s : ImportState) (ctx : Context) : Prop :=
  ∀ m id c, s.map.memberRefOf? m id = some c →
    c.memberName? s.target = some ((ctx.module m).memberRef id).name

variable {s s' : ImportState} {ctx : Context}

theorem RefsNamed.of_grows (h : s.RefsNamed ctx) (hsound : s.Sound ctx) (hs : s.Grows s')
    (hnew : ∀ m id c, s'.map.memberRefOf? m id = some c → s.map.memberRefOf? m id = some c
      ∨ c.memberName? s'.target = some ((ctx.module m).memberRef id).name) :
    s'.RefsNamed ctx := by
  intro m id c hc
  rcases hnew m id c hc with hold | hname
  · rw [Counterpart.memberName?_of_grows hs.target (hsound.has hold)]
    exact h m id c hold
  · exact hname

/-- The two states have the same entries for references to members. -/
def SameMemberRefs (s s' : ImportState) : Prop :=
  ∀ m id, s'.map.memberRefOf? m id = s.map.memberRefOf? m id

theorem RefsNamed.of_same (h : s.RefsNamed ctx) (hsound : s.Sound ctx) (hs : s.Grows s')
    (hsame : s.SameMemberRefs s') : s'.RefsNamed ctx :=
  h.of_grows hsound hs fun m id _ hc ↦ .inl ((hsame m id).symm.trans hc)

theorem sameMemberRefs_record {m : ModuleId} {symbol : Symbol} {c : Counterpart}
    (hne : ∀ id, symbol ≠ .memberRef id) :
    s.SameMemberRefs { s with map := s.map.record m symbol c } :=
  fun _ id ↦ SymbolMap.find?_record_of_ne (fun heq ↦ hne id (congrArg Prod.snd heq).symm) _

end ImportState

namespace Import

open ImportState

variable {ctx : Context} {s s' : ImportState} {m : ModuleId}

theorem SignStep.sameMemberRefs (h : SignStep ctx s s') : s.SameMemberRefs s' :=
  find?_memberRef_steps (.single h)

theorem FillStep.sameMemberRefs (h : FillStep ctx m s s') : s.SameMemberRefs s' := by
  cases h with
  | sign h => exact h.sameMemberRefs
  | hierarchy _ _ _ => exact fun _ _ ↦ rfl
  | shareField _ _ _ | addField _ _ _ _ | shareMethod _ _ _ _ _ _ =>
    exact sameMemberRefs_record fun _ hne ↦ by cases hne
  | addMethod _ _ _ _ _ _ =>
    exact sameMemberRefs_record (s := { s with map := s.map.recordMethodOrigin _ m })
      fun _ hne ↦ by cases hne

theorem UseStep.refsNamed (h : UseStep ctx s s') (hs : s.Sound ctx) (hn : s.RefsNamed ctx) :
    s'.RefsNamed ctx := by
  have hg := h.grows
  cases h with
  | sign h => exact hn.of_same hs hg h.sameMemberRefs
  | intern _ => exact hn.of_same hs hg fun _ _ ↦ rfl
  | resolve _ _ _ hname =>
    refine hn.of_grows hs hg fun m id c hc ↦ ?_
    rcases SymbolMap.find?_record_cases hc with hold | ⟨heq, rfl⟩
    · exact .inl hold
    · cases heq
      exact .inr hname

theorem Step.refsNamed (h : Step ctx s s') (hs : s.Sound ctx) (hn : s.RefsNamed ctx) :
    s'.RefsNamed ctx := by
  have hg := h.grows
  cases h with
  | shape h =>
    cases h with
    | fill h => exact hn.of_same hs hg h.sameMemberRefs
    | visit _ _ => exact hn.of_same hs hg fun _ _ ↦ rfl
  | copy h =>
    cases h with
    | use h => exact h.refsNamed hs hn
    | visit _ _ | setBody _ _ _ _ => exact hn.of_same hs hg fun _ _ ↦ rfl

theorem LateStep.refsNamed (h : LateStep ctx s s') (hs : s.Sound ctx) (hn : s.RefsNamed ctx) :
    s'.RefsNamed ctx := by
  have hg := h.grows
  cases h with
  | use h => exact h.refsNamed hs hn
  | moduleType | setBody _ _ | addMethod _ | addExport _ => exact hn.of_same hs hg fun _ _ ↦ rfl
  | lead _ => exact hn.of_same hs hg (sameMemberRefs_record fun _ hne ↦ by cases hne)
  | note hentries _ _ =>
    refine hn.of_same hs hg fun m id ↦ ?_
    rw [SymbolMap.memberRefOf?, SymbolMap.find?, hentries]
    rfl

theorem LateStep.refsNamed_steps (h : ReflTransGen (LateStep ctx) s s') (hs : s.Sound ctx)
    (hn : s.RefsNamed ctx) : s'.RefsNamed ctx :=
  ImportState.Sound.keeps LateStep.sound LateStep.refsNamed h hs hn

/-- After the import of types, references lead to members of their names. -/
theorem refsNamed_of_run (hctx : ctx.registry.Accepted) (h : run ctx ctx.startImport = .ok () s) :
    s.RefsNamed ctx := by
  have hsteps := ((reaches_run hctx).of_ok h).1
  clear h
  induction hsteps with
  | refl =>
    intro m id c hc
    cases hc
  | tail hsteps hstep ih =>
    have hsound := (Step.invariants hsteps ctx.sound_startImport ctx.faithful_startImport).1
    exact hstep.refsNamed hsound ih

theorem handleName_of_late (hs : s.Imported ctx) (hn : s.RefsNamed ctx)
    (h : ReflTransGen (LateStep ctx) s s') {handle r : MethodHandle}
    (hr : s'.map.remapMethod? m handle = some r) :
    Module.handleName s'.target r = (ctx.module m).handleName handle := by
  cases handle with
  | definition id =>
    have hentry : s.map.methodOf? m id = some r := by
      rw [← (LateStep.sameWriters_steps h).entries]
      exact hr
    obtain ⟨place, owner, t, rfl, himage⟩ := hs.faithful.methods hentry
    exact (himage.mono (LateStep.grows_steps h)).name
  | reference id =>
    have hentry : s'.map.memberRefOf? m id = some (.method r) :=
      SymbolMap.remapMethod?_eq_some.mp hr
    exact Option.some.inj (LateStep.refsNamed_steps h hs.sound hn m id _ hentry)

end Import

end ModuleLinker

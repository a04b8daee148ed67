import ModuleLinker.Proofs.Import.Calls

/-!
# Calls that are repeated

Along every sequence of calls the map only gains entries, and a call that has answered once gives
the same answer ever after and leaves the state as it is. A call that answers writes its answer
down, which stays; and what is written down is all that the same call looks at later.
-/

namespace ModuleLinker

open Import (Recalls)

variable {ctx : Context} {s s' : ImportState} {α : Type}

/-! ## What is written down is answered

An answer is written down as an entry of the map or of one of the lists. Those are never taken
back, whatever is called in between, and a call looks there first. -/

namespace Call

theorem Answered.mono {c : Call α} {a : α} (h : c.Answered ctx s a) (hs : s.Keeps s') :
    c.Answered ctx s' a := by
  cases c with
  | run =>
    obtain ⟨hdeclared, hpopulated, hcopied⟩ := h
    refine ⟨fun m hm id hid ↦ ?_, fun x hx ↦ hs.populated (hpopulated x hx),
      fun x hx ↦ hs.copied (hcopied x hx)⟩
    obtain ⟨hdecides, t, ht⟩ := hdeclared m hm id hid
    exact ⟨hdecides, t, hs.map.typeOf? ht⟩
  | importType m p => exact ⟨hs.map.typeOf? h.1, hs.populated h.2⟩
  | ensureDeclared m id => exact hs.map.typeOf? h
  | importSig m sig => exact hs.map.remapSig? sig h
  | importOperand m operand => exact hs.map.remapOperand? h
  | importMethodHandle m handle => exact hs.map.remapMethod? h
  | importFieldHandle m handle => exact hs.map.remapField? h

/-- A call whose answer is written down only looks it up. -/
theorem Answered.recalls {c : Call α} {a : α} (h : c.Answered ctx s a) :
    Recalls s (c.perform ctx) a := by
  cases c with
  | run =>
    obtain ⟨hdeclared, hpopulated, hcopied⟩ := h
    change Recalls s (Import.run ctx) ()
    unfold Import.run
    dsimp only
    rw [forM_pairs, forM_pairs]
    refine (Recalls.forM fun m hm ↦ Import.recalls_declareModule (hdeclared m hm)).bind ?_
    refine (Recalls.forM fun x hx ↦ Import.recalls_populate (hpopulated x hx)).bind ?_
    exact .forM fun x hx ↦ Import.recalls_copyBody (hcopied x hx)
  | importType m p => exact Import.recalls_importType h.1 h.2
  | ensureDeclared m id => exact Import.recalls_ensureDeclared h
  | importSig m sig => exact Import.recalls_importSig sig h
  | importOperand m operand => exact Import.recalls_importOperand h
  | importMethodHandle m handle => exact Import.recalls_importMethodHandle h
  | importFieldHandle m handle => exact Import.recalls_importFieldHandle h

end Call

/-- Along any sequence of calls no entry of the map is changed or removed, and once a call has
answered, each repetition of it gives the same answer and changes nothing. -/
theorem repeats_of_calls {inputs : List Input}
    (hinputs : Registry.ofInputs inputs = .ok ctx.registry) (hs : Calls ctx ctx.startImport s) :
    (∀ s', Calls ctx s s' → s.map.Extends s'.map)
      ∧ ∀ (α : Type) (c : Call α) (a : α) (s₁ s₂ : ImportState), c.Within ctx s →
        c.perform ctx s = .ok a s₁ → Calls ctx s₁ s₂ → c.perform ctx s₂ = .ok a s₂ := by
  have hctx := (Registry.accepted_of_ofInputs hinputs).1
  have hsound := CallStep.sound_steps (hs.callSteps hctx ctx.sound_startImport)
    ctx.sound_startImport
  refine ⟨fun s' hs' ↦ (CallStep.keeps_steps (hs'.callSteps hctx hsound)).map,
    fun α c a s₁ s₂ hc hanswer hbetween ↦ ?_⟩
  obtain ⟨hsteps, hanswered⟩ := (Import.reaches_perform hctx hsound c hc).of_ok hanswer
  have hbetween := hbetween.callSteps hctx (CallStep.sound_steps hsteps hsound)
  exact (hanswered.mono (CallStep.keeps_steps hbetween)).recalls

/-! ## A box that is asked for twice -/

/-- A program, and a library whose box has a lid inside. One reference of the library leads to the
lid, and one leads nowhere. -/
def boxed : List Input :=
  [{ isPrimary := true
     module := { name := "App", types := [{ name := "Main", visibility := .public }] } },
   { isPrimary := false
     module :=
      { name := "Lib"
        types := [
          { name := "Box", visibility := .public, nested := [⟨1⟩], fields := [⟨0⟩] },
          { name := "Lid", visibility := .nestedPublic, declaring := some ⟨0⟩ }]
        fields := [
          { name := "lid", access := .private, isStatic := false, fieldType := .reference ⟨1⟩
            declaring := ⟨0⟩ }]
        typeRefs := [⟨.local, "", "Box"⟩, ⟨.nested ⟨0⟩, "", "Lid"⟩, ⟨.local, "", "Gone"⟩] } }]

def boxedLink : Context where
  registry := ⟨boxed⟩
  policy := ⟨false, [], [], [], true⟩
  targetName := "App"

/-- The box is wanted inside the program's type, and hidden. -/
def wantBox : Call TypeId := .importType ⟨1⟩ ⟨⟨0⟩, some ⟨0⟩, true⟩

/-- A call that fails. -/
def wantGone : Call TypeSig := .importSig ⟨1⟩ (.reference ⟨2⟩)

/-- The program's type has a place. -/
def boxedOpened : ImportState :=
  Import.finalState (Call.perform boxedLink (.ensureDeclared ⟨0⟩ ⟨0⟩)) boxedLink.startImport

/-- The box has been put into it. -/
def boxedFilled : ImportState := Import.finalState (wantBox.perform boxedLink) boxedOpened

/-- Then a call has failed, and everything has been imported. -/
def boxedDone : ImportState :=
  Import.finalState (Call.run.perform boxedLink)
    (Import.finalState (wantGone.perform boxedLink) boxedFilled)

/-- The box keeps the place that it was given, although a whole import would have put it elsewhere,
and asking for it again changes nothing. -/
theorem repeats_wantBox : Registry.ofInputs boxed = .ok boxedLink.registry
    ∧ Calls boxedLink boxedLink.startImport boxedOpened ∧ wantBox.Within boxedLink boxedOpened
    ∧ wantBox.perform boxedLink boxedOpened = .ok ⟨1⟩ boxedFilled
    ∧ Calls boxedLink boxedFilled boxedDone
    ∧ Import.succeeds (wantGone.perform boxedLink) boxedFilled = false
    ∧ boxedDone.target.qualifiedName ⟨1⟩ = "Main/Box"
    ∧ wantBox.perform boxedLink boxedDone = .ok ⟨1⟩ boxedDone := by
  have hinputs : Registry.ofInputs boxed = .ok boxedLink.registry := rfl
  have hopened : Calls boxedLink boxedLink.startImport boxedOpened :=
    .single ⟨_, .ensureDeclared ⟨0⟩ ⟨0⟩, Nat.zero_lt_one, rfl⟩
  have hwithin : wantBox.Within boxedLink boxedOpened :=
    ⟨by decide, fun o ho ↦ by cases ho; decide +kernel⟩
  have hanswer : wantBox.perform boxedLink boxedOpened = .ok ⟨1⟩ boxedFilled :=
    Import.eq_ok_of_answer? (by decide +kernel)
  have hgone : wantGone.Within boxedLink boxedFilled := by
    intro x hx
    rw [List.mem_singleton.mp hx]
    change 2 < (boxedLink.module ⟨1⟩).typeRefs.length
    decide
  have hbetween : Calls boxedLink boxedFilled boxedDone :=
    .tail (.single ⟨_, wantGone, hgone, rfl⟩) ⟨_, .run, trivial, rfl⟩
  exact ⟨hinputs, hopened, hwithin, hanswer, hbetween, by decide +kernel, by decide +kernel,
    (repeats_of_calls hinputs hopened).2 _ _ _ _ _ hwithin hanswer hbetween⟩

end ModuleLinker

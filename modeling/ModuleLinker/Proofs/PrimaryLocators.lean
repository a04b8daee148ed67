import ModuleLinker.Proofs.Image.Names
import ModuleLinker.Proofs.LocatorForms

/-!
# Locators in the primary module

The primary names the other modules in its locators, and each locator that names a secondary one is
to be moved into the directory of that module, once. The secondaries are gone through one after the
other, each on what the ones before have left. A literal that holds the mark once names one module,
so only that one's turn changes it; but then it names the output. Where the output has the name of a
secondary whose turn is still to come, the literal is moved a second time, as if it had named that
one.
-/

namespace ModuleLinker

/-- A name that is one step of a path and does not hold the character that begins the mark. -/
def IsModuleStep (name : String) : Prop := IsSegment name ∧ ';' ∉ name.toList

instance (name : String) : Decidable (IsModuleStep name) := inferInstanceAs (Decidable (_ ∧ _))

/-- A literal that names a module and a path in it, and holds the mark between the two only. -/
structure NamesOnce (literal front name path : String) : Prop where
  eq : literal = front ++ "/" ++ name ++ componentMark ++ path
  only : ∀ a b, literal.toList = a ++ componentMark.toList ++ b → a = (front ++ "/" ++ name).toList

instance (literal front name path : String) : Decidable (NamesOnce literal front name path) :=
  decidable_of_iff
    (literal = front ++ "/" ++ name ++ componentMark ++ path
      ∧ ∀ a ∈ literal.toList.inits, a ++ componentMark.toList <+: literal.toList →
        a = (front ++ "/" ++ name).toList)
    ⟨fun h ↦ ⟨h.1, fun a b hab ↦ h.2 a
        ((List.mem_inits ..).mpr ⟨componentMark.toList ++ b, by rw [hab, List.append_assoc]⟩)
        ⟨b, hab.symm⟩⟩,
      fun h ↦ ⟨h.eq, fun a _ ⟨b, hb⟩ ↦ h.only a b hb.symm⟩⟩

/-- The locator of a path in the directory of a module. -/
def LocatorNames.locator (n : LocatorNames) (front name path : String) : String :=
  front ++ "/" ++ n.target ++ componentMark ++ (name ++ "/" ++ path)

/-- To be moved twice is not to be moved once. -/
theorem LocatorNames.locator_ne (n : LocatorNames) (front name path : String) :
    n.locator front n.target (name ++ "/" ++ path) ≠ n.locator front name path := by
  intro h
  have hlength := congrArg String.length h
  simp only [locator, String.length_append] at hlength
  have hslash : "/".length = 1 := rfl
  omega

/-! ## Where the mark stands

The mark stands between the name of a module and the path. It begins with a character that names
do not hold and ends in its only slash, so an occurrence that begins elsewhere would have to lie
in the path as a whole. -/

/-- The mark ends in its only slash, so an occurrence does not go beyond a slash of the text. -/
theorem occurrence_split {x y a b : List Char}
    (h : x ++ '/' :: y = a ++ componentMark.toList ++ b) :
    (∃ c, x ++ ['/'] = a ++ componentMark.toList ++ c)
      ∨ ∃ c, a = x ++ '/' :: c ∧ y = c ++ componentMark.toList ++ b := by
  have hmark : componentMark.toList = ";component".toList ++ ['/'] := by decide
  rw [List.append_assoc] at h
  rcases List.append_eq_append_iff.mp h with ⟨c, rfl, hrest⟩ | ⟨c, rfl, hrest⟩
  · -- the occurrence begins at the slash or behind it
    cases c with
    | nil =>
      have hfirst : '/' = ';' := (List.cons.inj hrest).1
      exact absurd hfirst (by decide)
    | cons d c =>
      obtain ⟨rfl, rfl⟩ := List.cons.inj hrest
      exact .inr ⟨c, rfl, (List.append_assoc ..).symm⟩
  · rw [hmark, List.append_assoc] at hrest
    refine .inl ?_
    rcases List.append_eq_append_iff.mp hrest with ⟨d, rfl, htail⟩ | ⟨d, hd, htail⟩
    · exact ⟨(d ++ ['/']).tail, by cases d <;> simp_all⟩
    · -- the slash would stand inside the mark
      cases d with
      | nil =>
        refine ⟨[], ?_⟩
        rw [hmark, hd]
        simp
      | cons e d =>
        have hslash : e = '/' := (List.cons.inj htail).1.symm
        exact absurd (hd ▸ List.mem_append_right c (hslash ▸ List.mem_cons_self ..))
          (by decide : '/' ∉ ";component".toList)

namespace NamesOnce

variable {literal front name path : String}

theorem toList_eq (h : NamesOnce literal front name path) : literal.toList
    = front.toList ++ '/' :: (name.toList ++ (componentMark.toList ++ path.toList)) := by
  rw [h.eq]
  simp

theorem front_ne (h : NamesOnce literal front name path) (a c : List Char) :
    front.toList ++ ['/'] ≠ a ++ componentMark.toList ++ c := by
  intro hfront
  have hmark : 0 < componentMark.toList.length := by decide
  have htext : literal.toList = a ++ componentMark.toList
      ++ (c ++ (name.toList ++ (componentMark.toList ++ path.toList))) :=
    calc literal.toList = front.toList ++ ['/']
          ++ (name.toList ++ (componentMark.toList ++ path.toList)) := by
          rw [h.toList_eq, List.append_assoc, List.singleton_append]
      _ = _ := by rw [hfront, List.append_assoc _ c]
  have hlength := congrArg List.length hfront
  rw [h.only a _ htext, String.toList_append, String.toList_append] at hlength
  simp only [List.length_append, List.length_singleton] at hlength
  have hslash : "/".toList.length = 1 := rfl
  omega

theorem path_ne (h : NamesOnce literal front name path) (a b : List Char) :
    path.toList ≠ a ++ componentMark.toList ++ b := by
  intro hpath
  have hmark : 0 < componentMark.toList.length := by decide
  have ha := h.only ((front ++ "/" ++ name).toList ++ componentMark.toList ++ a) b <| by
    rw [h.toList_eq, hpath]
    simp
  have hlength := congrArg List.length ha
  simp only [List.length_append] at hlength
  omega

/-- A literal that has no mark before and behind the one at its name names a module once. -/
theorem of_ne (hname : '/' ∉ name.toList)
    (hfront : ∀ a c : List Char, front.toList ++ ['/'] ≠ a ++ componentMark.toList ++ c)
    (hpath : ∀ a b : List Char, path.toList ≠ a ++ componentMark.toList ++ b) :
    NamesOnce (front ++ "/" ++ name ++ componentMark ++ path) front name path := by
  refine ⟨rfl, fun a b hab ↦ ?_⟩
  have hmark : componentMark.toList = ";component".toList ++ ['/'] := by decide
  have htext : front.toList ++ '/' :: ((name.toList ++ ";component".toList) ++ '/' :: path.toList)
      = a ++ componentMark.toList ++ b := by
    rw [← hab]
    simp [hmark]
  rcases occurrence_split htext with ⟨c, hc⟩ | ⟨c, rfl, hrest⟩
  · exact absurd hc (hfront a c)
  rcases occurrence_split hrest with ⟨d, hd⟩ | ⟨d, -, hd⟩
  · have hslash : '/' ∉ name.toList ++ ";component".toList := by
      rw [List.mem_append]
      rintro (hmem | hmem)
      · exact hname hmem
      · exact absurd hmem (by decide)
    rw [hmark, ← List.append_assoc, List.append_assoc _ _ d] at hd
    obtain ⟨hsame, -⟩ := (List.append_cons_inj_of_notMem hslash (List.not_mem_nil)).mp hd
    rw [← List.append_cancel_right hsame]
    simp
  · exact absurd hd (hpath d b)

theorem locator (h : NamesOnce literal front name path) (hname : IsModuleStep name)
    {n : LocatorNames} (htarget : '/' ∉ n.target.toList) :
    NamesOnce (n.locator front name path) front n.target (name ++ "/" ++ path) := by
  refine of_ne htarget h.front_ne fun a b hab ↦ ?_
  have hsplit : name.toList ++ '/' :: path.toList = a ++ componentMark.toList ++ b := by
    rw [← hab]
    simp
  rcases occurrence_split hsplit with ⟨c, hc⟩ | ⟨c, -, hc⟩
  · -- the name would hold the first character of the mark
    have hmem : ';' ∈ name.toList ++ ['/'] := by
      rw [hc, List.append_assoc]
      exact List.mem_append_right _ (List.mem_append_left _ (by decide))
    rcases List.mem_append.mp hmem with hmem | hmem
    · exact hname.2 hmem
    · exact absurd hmem (by decide)
  · exact h.path_ne c b hc

theorem eq_of_pattern (h : NamesOnce literal front name path) (hname : '/' ∉ name.toList)
    {other : String} (hother : '/' ∉ other.toList) {a b : List Char}
    (hab : literal.toList = a ++ ("/" ++ other ++ componentMark).toList ++ b) :
    a = front.toList ∧ other = name := by
  have hat := h.only (a ++ '/' :: other.toList) b (by rw [hab]; simp)
  have htext : String.ofList a ++ "/" ++ other = front ++ "/" ++ name := by
    rw [← String.toList_inj, ← hat]
    simp
  obtain ⟨hfront, rfl⟩ := append_slash_inj hother hname htext
  refine ⟨?_, rfl⟩
  rw [← hfront, String.toList_ofList]

end NamesOnce

namespace LocatorNames

variable {n : LocatorNames} {literal front name path : String}

/-! ## One turn

The pattern of a module is its name between a slash and the mark. In a literal that has one mark
only, that is found where the name of the module stands, or not at all. -/

theorem relocate?_of_ne (h : NamesOnce literal front name path) (hname : '/' ∉ name.toList)
    {other : String} (hother : '/' ∉ other.toList) (hne : other ≠ name) :
    n.relocate? literal other = none := by
  refine relocate?_eq_none_iff.mpr ?_
  rintro ⟨a, b, hab⟩
  exact hne (h.eq_of_pattern hname hother hab.symm).2

/-- The turn of the module that a literal names puts the output in its place, and the module into
the path. -/
theorem relocate?_self (h : NamesOnce literal front name path) (hname : '/' ∉ name.toList) :
    n.relocate? literal name = some (n.locator front name path) := by
  have htext : literal.toList
      = front.toList ++ ("/" ++ name ++ componentMark).toList ++ path.toList := by
    rw [h.eq]
    simp
  have hoccurs : Text.occursIn ("/" ++ name ++ componentMark).toList literal.toList = true :=
    Text.occursIn_iff.mpr ⟨_, _, htext.symm⟩
  have hreplaced : Text.replaceFrom ("/" ++ name ++ componentMark).toList
      ("/" ++ n.target ++ componentMark ++ name ++ "/").toList 0
        (front.toList ++ ("/" ++ name ++ componentMark).toList ++ path.toList)
      = front.toList ++ ("/" ++ n.target ++ componentMark ++ name ++ "/").toList ++ path.toList :=
    Text.replaceFrom_of_only (by simp) fun a b hab ↦
      (h.eq_of_pattern hname hname (htext.trans hab)).1
  rw [relocate?, Text.replace?, if_pos hoccurs, htext, hreplaced, Option.some_inj,
    ← String.toList_inj]
  simp [locator]

/-! ## All turns

Once a literal has been moved it names the output, and any later module of the output's name finds
it again. Whether there is one behind the module that the literal names is all that matters. -/

theorem foldl_turn_of_notMem {moved : Option String}
    (h : NamesOnce (moved.getD literal) front name path) (hname : '/' ∉ name.toList)
    {names : List String} (hnames : ∀ other ∈ names, '/' ∉ other.toList) (hnot : name ∉ names) :
    names.foldl (n.turn literal) moved = moved := by
  refine foldl_turn_of_none fun other hmem ↦ ?_
  exact relocate?_of_ne h hname (hnames other hmem) fun heq ↦ hnot (heq ▸ hmem)

/-- Where the module that a literal names has its turn, only that turn changes it. -/
theorem foldl_turn_of_mem {moved : Option String}
    (h : NamesOnce (moved.getD literal) front name path) (hname : IsModuleStep name)
    (htarget : '/' ∉ n.target.toList) {before after : List String}
    (hnames : ∀ other ∈ before ++ name :: after, '/' ∉ other.toList) (hbefore : name ∉ before)
    (hafter : n.target ∉ after) :
    (before ++ name :: after).foldl (n.turn literal) moved = some (n.locator front name path) := by
  have hturn : n.turn literal moved name = some (n.locator front name path) := by
    rw [turn, relocate?_self h hname.1.2]
    rfl
  have honce : NamesOnce ((some (n.locator front name path)).getD literal) front n.target
      (name ++ "/" ++ path) := h.locator hname htarget
  rw [List.foldl_append, List.foldl_cons, foldl_turn_of_notMem h hname.1.2 (fun other hmem ↦
    hnames other (List.mem_append_left _ hmem)) hbefore, hturn]
  exact foldl_turn_of_notMem honce htarget (fun other hmem ↦
    hnames other (List.mem_append_right _ (List.mem_cons_of_mem _ hmem))) hafter

/-- Where the module that a literal names has its turn before one that has the output's name, the
literal is moved a second time. -/
theorem foldl_turn_of_later (h : NamesOnce literal front name path) (hname : IsModuleStep name)
    (htarget : IsModuleStep n.target) {before between after : List String}
    (hnames : ∀ other ∈ before ++ name :: between ++ n.target :: after, '/' ∉ other.toList)
    (hnodup : (before ++ name :: between ++ n.target :: after).Nodup) :
    (before ++ name :: between ++ n.target :: after).foldl (n.turn literal) none
      = some (n.locator front n.target (name ++ "/" ++ path)) := by
  obtain ⟨hfirst, hlast, hapart⟩ := List.nodup_append.mp hnodup
  have hbefore : name ∉ before := fun hmem ↦
    (List.nodup_append.mp hfirst).2.2 name hmem name (List.mem_cons_self ..) rfl
  have hbetween : n.target ∉ between := fun hmem ↦
    hapart n.target (List.mem_append_right _ (List.mem_cons_of_mem _ hmem)) n.target
      (List.mem_cons_self ..) rfl
  have honce : NamesOnce ((none : Option String).getD literal) front name path := h
  have hagain : NamesOnce ((some (n.locator front name path)).getD literal) front n.target
      (name ++ "/" ++ path) := h.locator hname htarget.1.2
  rw [List.foldl_append, foldl_turn_of_mem honce hname htarget.1.2
    (fun other hmem ↦ hnames other (List.mem_append_left _ hmem)) hbefore hbetween]
  exact foldl_turn_of_mem hagain htarget htarget.1.2
    (fun other hmem ↦ hnames other (List.mem_append_right _ hmem)) (List.not_mem_nil)
    (List.nodup_cons.mp hlast).1

end LocatorNames

theorem pair_sublist_iff {α : Type} {x y : α} {before after : List α} (h : x ∉ before) :
    [x, y].Sublist (before ++ x :: after) ↔ y ∈ after := by
  induction before with
  | nil => rw [List.nil_append, List.cons_sublist_cons, List.singleton_sublist]
  | cons z before ih =>
    obtain ⟨hne, hbefore⟩ := not_or.mp (mt List.mem_cons.mpr h)
    rw [List.cons_append, List.sublist_cons_iff, ih hbefore, or_iff_left]
    rintro ⟨_, heq, -⟩
    exact hne (List.cons.inj heq).1

/-- In the primary module a literal that names a secondary once is moved into the directory of that
one, and a literal that names another module is left alone, whatever the order of the secondaries;
except that a literal is moved twice when a secondary with the output's name comes behind the one
that it names. -/
theorem namedOnce_iff_of_patch {n : LocatorNames} {literal front name path : String}
    (htarget : IsModuleStep n.target) (hnodup : n.secondaries.Nodup)
    (hsecondaries : ∀ other ∈ n.secondaries, IsModuleStep other)
    (hlocator : isLocator literal = true) (hname : '/' ∉ name.toList)
    (h : NamesOnce literal front name path) :
    n.patchLiteral? literal none
        = (if [name, n.target].Sublist n.secondaries then
            some (n.locator front n.target (name ++ "/" ++ path))
          else if name ∈ n.secondaries then some (n.locator front name path) else none)
      ∧ (n.patchLiteral? literal none
          = (if name ∈ n.secondaries then some (n.locator front name path) else none)
        ↔ ¬[name, n.target].Sublist n.secondaries) := by
  have hslash : ∀ other ∈ n.secondaries, '/' ∉ other.toList := fun other hmem ↦
    (hsecondaries other hmem).1.2
  have honce : NamesOnce ((none : Option String).getD literal) front name path := h
  rw [LocatorNames.patchLiteral?_none hlocator, LocatorNames.relocateAll?_eq_foldl]
  by_cases hmem : name ∈ n.secondaries
  · have hstep := hsecondaries name hmem
    obtain ⟨before, after, hsplit⟩ := List.append_of_mem hmem
    have hbefore : name ∉ before := by
      rw [hsplit] at hnodup
      exact fun hin ↦ (List.nodup_append.mp hnodup).2.2 name hin name (List.mem_cons_self ..) rfl
    have hbehind : [name, n.target].Sublist (before ++ name :: after) ↔ n.target ∈ after :=
      pair_sublist_iff hbefore
    rw [if_pos hmem, hsplit]
    by_cases hlater : n.target ∈ after
    · obtain ⟨between, rest, rfl⟩ := List.append_of_mem hlater
      have hlist : before ++ name :: (between ++ n.target :: rest)
          = before ++ name :: between ++ n.target :: rest := by simp
      rw [hlist] at hsplit
      have htwice := LocatorNames.foldl_turn_of_later h hstep htarget (hsplit ▸ hslash)
        (hsplit ▸ hnodup)
      rw [if_pos (hbehind.mpr hlater), hlist, htwice]
      rw [hlist] at hbehind
      exact ⟨rfl, iff_of_false (mt Option.some.inj (n.locator_ne front name path))
        (not_not_intro (hbehind.mpr hlater))⟩
    · have hmoved := LocatorNames.foldl_turn_of_mem honce hstep htarget.1.2 (hsplit ▸ hslash)
        hbefore hlater
      rw [if_neg (mt hbehind.mp hlater), hmoved]
      exact ⟨rfl, iff_of_true rfl (mt hbehind.mp hlater)⟩
  · have hapart : ¬[name, n.target].Sublist n.secondaries := fun hsub ↦
      hmem (hsub.subset (List.mem_cons_self ..))
    rw [if_neg hapart, if_neg hmem, LocatorNames.foldl_turn_of_notMem honce hname hslash hmem]
    exact ⟨rfl, iff_of_true rfl hapart⟩

/-- A program with two libraries. -/
def themedNames (target : String) : LocatorNames := ⟨target, ["Controls", "Themes"]⟩

/-- A theme is found in the directory of its library. -/
theorem namedOnce_themes :
    NamesOnce "pack://application:,,,/Themes;component/Dark.xaml" "pack://application:,,,"
        "Themes" "Dark.xaml"
      ∧ (themedNames "App").patchLiteral? "pack://application:,,,/Themes;component/Dark.xaml" none
        = some "pack://application:,,,/App;component/Themes/Dark.xaml"
      ∧ ¬["Themes", "App"].Sublist ["Controls", "Themes"] := by
  have hnames : NamesOnce "pack://application:,,,/Themes;component/Dark.xaml"
      "pack://application:,,," "Themes" "Dark.xaml" := by decide +kernel
  obtain ⟨hpatched, -⟩ := namedOnce_iff_of_patch (n := themedNames "App") (by decide) (by decide)
    (by decide) (by decide) (by decide) hnames
  exact ⟨hnames, hpatched.trans (by decide +kernel), by decide⟩

/-- Where the output is called like the second library, what the program finds in the first one is
looked for in a directory of the second. -/
theorem not_namedOnce_controls :
    ¬∀ (n : LocatorNames) (literal front name path : String), IsModuleStep n.target →
      n.secondaries.Nodup → (∀ other ∈ n.secondaries, IsModuleStep other) →
      isLocator literal = true → '/' ∉ name.toList → NamesOnce literal front name path →
      n.patchLiteral? literal none
        = if name ∈ n.secondaries then some (n.locator front name path) else none := by
  intro h
  have honce := h (themedNames "Themes") "/Controls;component/Button.xaml" "" "Controls"
    "Button.xaml" (by decide) (by decide) (by decide) (by decide) (by decide) (by decide +kernel)
  have htwice : (themedNames "Themes").patchLiteral? "/Controls;component/Button.xaml" none
      = some "/Themes;component/Themes/Controls/Button.xaml" := by decide +kernel
  rw [htwice] at honce
  exact absurd honce (by decide +kernel)

end ModuleLinker

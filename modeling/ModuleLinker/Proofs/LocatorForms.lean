import ModuleLinker.Locator
import ModuleLinker.Proofs.Rows
import ModuleLinker.Proofs.Text.Replace

/-!
# Addressing forms of locators

A locator is rooted, or absolute behind the pack prefix, or a relative path. Whatever revising does,
a rooted locator stays rooted and no other becomes it. An absolute one does not always stay so. A
path without a module goes into the directory of its module, and an absolute path is taken for a
relative one there: the directory ends up before the scheme. And where a module has a name that
looks like the authority of the pack prefix, a locator is moved right behind the scheme, so that the
output is named in the place of the authority.
-/

namespace ModuleLinker

/-- What stands before the authority of an absolute locator. -/
def packScheme : String := "pack://"

/-- The authority of an absolute locator. -/
def packAuthority : String := "application:,,,"

theorem toList_packPrefix :
    packPrefix.toList = packScheme.toList ++ packAuthority.toList := by decide

/-- A name that is one step of a path. -/
def IsSegment (name : String) : Prop := name ≠ "" ∧ '/' ∉ name.toList

instance (name : String) : Decidable (IsSegment name) := inferInstanceAs (Decidable (_ ∧ _))

/-- A literal that names a module right behind the scheme, where the authority belongs. -/
def NamesAsAuthority (literal name : String) : Prop :=
  packScheme.toList ++ (name ++ componentMark).toList <+: literal.toList

instance (literal name : String) : Decidable (NamesAsAuthority literal name) :=
  inferInstanceAs (Decidable (_ <+: _))

theorem IsSegment.toList_eq {name : String} (h : IsSegment name) :
    ∃ c rest, c ≠ '/' ∧ name.toList = c :: rest := by
  obtain ⟨hne, hslash⟩ := h
  cases hname : name.toList with
  | nil => exact absurd (String.toList_eq_nil_iff.mp hname) hne
  | cons c rest =>
    refine ⟨c, rest, ?_, rfl⟩
    rintro rfl
    exact hslash (hname ▸ List.mem_cons_self ..)

theorem slash_notMem_dropLast_mark {name : String} (h : '/' ∉ name.toList) :
    '/' ∉ (name ++ componentMark).toList.dropLast := by
  have hmark : componentMark.toList ≠ [] := by decide
  rw [String.toList_append, List.dropLast_append_of_ne_nil hmark, List.mem_append]
  rintro (hmem | hmem)
  · exact h hmem
  · exact absurd hmem (by decide)

/-- A text that names a module in the place of the authority has the pack prefix only when the name
begins with the authority. -/
theorem NamesAsAuthority.packPrefix_iff {literal name : String}
    (h : NamesAsAuthority literal name) :
    packPrefix.toList <+: literal.toList ↔ packAuthority.toList <+: name.toList := by
  rw [NamesAsAuthority, String.toList_append] at h
  rw [toList_packPrefix]
  constructor
  · intro hpack
    obtain ⟨back, hback⟩ := h
    rw [← hback, List.append_assoc, List.append_assoc, List.prefix_append_right_inj] at hpack
    rcases List.prefix_or_prefix_of_prefix hpack (List.prefix_append ..) with hle | ⟨more, hmore⟩
    · exact hle
    · -- the authority would hold the first character of the mark
      rw [← hmore, List.prefix_append_right_inj] at hpack
      cases more with
      | nil => rw [← hmore, List.append_nil]
      | cons c more =>
        obtain ⟨_, hmark⟩ := hpack
        have hc : c = ';' := (List.cons.inj hmark).1
        exact absurd (hmore ▸ List.mem_append_right _ (hc ▸ List.mem_cons_self ..))
          (by decide : ';' ∉ packAuthority.toList)
  · intro hname
    refine List.IsPrefix.trans ?_ h
    exact (List.prefix_append_right_inj _).mpr (hname.trans (List.prefix_append ..))

namespace LocatorNames

variable {n : LocatorNames} {literal secondary : String}

/-! ## Moving the locators of one module

What is looked for and what it is replaced by both begin with a slash. So nothing in front of the
first slash of a literal is touched, and with it stays whether the literal is rooted. The scheme
ends in two slashes, so what follows it may be touched, and that is where an authority can turn
into the name of the output. -/

theorem toList_pattern (secondary : String) :
    ("/" ++ secondary ++ componentMark).toList = '/' :: (secondary ++ componentMark).toList := by
  simp

theorem toList_replacement (target secondary : String) :
    ("/" ++ target ++ componentMark ++ secondary ++ "/").toList
      = '/' :: ((target ++ componentMark).toList ++ (secondary.toList ++ ['/'])) := by
  simp

theorem relocate?_eq_none_iff : n.relocate? literal secondary = none
    ↔ ¬("/" ++ secondary ++ componentMark).toList <:+: literal.toList := by
  rw [relocate?, Text.replace?, ← Text.occursIn_iff]
  split <;> simp_all

/-- A literal with the locators of one module moved. -/
def relocated (n : LocatorNames) (literal secondary : String) : String :=
  (n.relocate? literal secondary).getD literal

theorem toList_relocated : (n.relocated literal secondary).toList
    = Text.replaceFrom ("/" ++ secondary ++ componentMark).toList
      ("/" ++ n.target ++ componentMark ++ secondary ++ "/").toList 0 literal.toList := by
  rw [relocated, relocate?, Text.replace?]
  split
  · rw [Option.getD_some, String.toList_ofList]
  · next h => rw [Option.getD_none, Text.replaceFrom_of_not_occursIn (Bool.eq_false_iff.mpr h)]

theorem prefix_relocated_iff {x : List Char} (hx : '/' ∉ x.dropLast) :
    x <+: (n.relocated literal secondary).toList ↔ x <+: literal.toList := by
  rw [toList_relocated, toList_pattern, toList_replacement]
  exact Text.prefix_replaceFrom_iff rfl rfl hx

/-- The scheme ends in two slashes, and moving may begin at the second. -/
theorem toList_scheme_append (path : List Char) :
    "pack:/".toList ++ '/' :: path = packScheme.toList ++ path := rfl

section Absolute

variable {path : List Char} (hsecondary : IsSegment secondary)
  (hliteral : literal.toList = packScheme.toList ++ path)
include hsecondary hliteral

private theorem toList_relocated_absolute : (n.relocated literal secondary).toList
    = "pack:/".toList ++ Text.replaceFrom ("/" ++ secondary ++ componentMark).toList
      ("/" ++ n.target ++ componentMark ++ secondary ++ "/").toList 0 ('/' :: path) := by
  obtain ⟨c, rest, hc, hname⟩ := hsecondary.toList_eq
  rw [toList_relocated, hliteral, toList_pattern]
  have hscheme : packScheme.toList ++ path = "pack:".toList ++ '/' :: '/' :: path := rfl
  have hnot : ¬ '/' :: (secondary ++ componentMark).toList <+: '/' :: '/' :: path := by
    rw [String.toList_append, hname, List.cons_append, List.cons_prefix_cons,
      List.cons_prefix_cons]
    exact fun h ↦ hc h.2.1
  rw [hscheme, Text.replaceFrom_append_of_notMem rfl (by decide), Text.replaceFrom_cons hnot]
  rfl

/-- Where a module is named in the place of the authority, the output is named there afterwards. -/
theorem namesAsAuthority_relocated (h : NamesAsAuthority literal secondary) :
    NamesAsAuthority (n.relocated literal secondary) n.target := by
  rw [NamesAsAuthority, hliteral, List.prefix_append_right_inj] at h
  obtain ⟨back, rfl⟩ := h
  rw [NamesAsAuthority, toList_relocated_absolute hsecondary hliteral, toList_pattern,
    ← List.cons_append, Text.replaceFrom_append (List.cons_ne_nil _ _), toList_replacement,
    List.cons_append, toList_scheme_append, List.prefix_append_right_inj, List.append_assoc]
  exact List.prefix_append ..

/-- Where it is not, the literal keeps what it has behind the scheme up to the next slash. -/
theorem scheme_prefix_relocated_iff (h : ¬NamesAsAuthority literal secondary) {x : List Char}
    (hx : '/' ∉ x.dropLast) : packScheme.toList ++ x <+: (n.relocated literal secondary).toList
      ↔ packScheme.toList ++ x <+: literal.toList := by
  rw [NamesAsAuthority, hliteral, List.prefix_append_right_inj] at h
  have hnot : ¬ '/' :: (secondary ++ componentMark).toList <+: '/' :: path := by
    rw [List.cons_prefix_cons]
    exact fun hfront ↦ h hfront.2
  rw [toList_relocated_absolute hsecondary hliteral, toList_pattern, Text.replaceFrom_cons hnot,
    toList_scheme_append, hliteral, List.prefix_append_right_inj, List.prefix_append_right_inj,
    toList_replacement]
  exact Text.prefix_replaceFrom_iff rfl rfl hx

end Absolute

/-! ## Moving the locators of several modules -/

/-- The beginning of a literal up to its first slash stays, whatever is moved. -/
theorem prefix_foldl_relocated_iff {x : List Char} (hx : '/' ∉ x.dropLast) (names : List String) :
    x <+: (names.foldl n.relocated literal).toList ↔ x <+: literal.toList := by
  induction names generalizing literal with
  | nil => rfl
  | cons name rest ih => rw [List.foldl_cons, ih, prefix_relocated_iff hx]

/-- Once a module is named in the place of the authority, the output is named there in the end; as
long as none is, the authority stays. -/
theorem foldl_relocated_absolute (htarget : '/' ∉ n.target.toList) {names : List String}
    (hnames : ∀ name ∈ names, IsSegment name) (hliteral : packScheme.toList <+: literal.toList) :
    ((∃ name ∈ names, NamesAsAuthority literal name) →
        NamesAsAuthority (names.foldl n.relocated literal) n.target)
      ∧ ((∀ name ∈ names, ¬NamesAsAuthority literal name) → ∀ x : List Char, '/' ∉ x.dropLast →
        (packScheme.toList ++ x <+: (names.foldl n.relocated literal).toList
          ↔ packScheme.toList ++ x <+: literal.toList)) := by
  induction names generalizing literal with
  | nil => exact ⟨fun ⟨_, hmem, _⟩ ↦ (List.not_mem_nil hmem).elim, fun _ _ _ ↦ .rfl⟩
  | cons name rest ih =>
    obtain ⟨hname, hrest⟩ := List.forall_mem_cons.mp hnames
    obtain ⟨path, hpath⟩ := hliteral
    rw [List.foldl_cons, List.exists_mem_cons_iff, List.forall_mem_cons]
    by_cases hfirst : NamesAsAuthority literal name
    · have hmoved : NamesAsAuthority (n.relocated literal name) n.target :=
        namesAsAuthority_relocated hname hpath.symm hfirst
      obtain ⟨hnamed, hkept⟩ := ih hrest ((List.prefix_append ..).trans hmoved)
      refine ⟨fun _ ↦ ?_, fun hnone ↦ absurd hfirst hnone.1⟩
      by_cases hlater : ∃ later ∈ rest, NamesAsAuthority (n.relocated literal name) later
      · exact hnamed hlater
      · refine (hkept ?_ _ (slash_notMem_dropLast_mark htarget)).mpr hmoved
        intro later hmem hnames
        exact hlater ⟨later, hmem, hnames⟩
    · have hsame : ∀ x : List Char, '/' ∉ x.dropLast →
          (packScheme.toList ++ x <+: (n.relocated literal name).toList
            ↔ packScheme.toList ++ x <+: literal.toList) := fun x hx ↦
        scheme_prefix_relocated_iff hname hpath.symm hfirst hx
      have hlater : ∀ later ∈ rest,
          NamesAsAuthority (n.relocated literal name) later ↔ NamesAsAuthority literal later :=
        fun later hmem ↦ hsame _ (slash_notMem_dropLast_mark (hrest later hmem).2)
      have hscheme : packScheme.toList <+: (n.relocated literal name).toList := by
        have h := (hsame [] (by simp)).mpr (by rw [List.append_nil]; exact ⟨path, hpath⟩)
        rwa [List.append_nil] at h
      obtain ⟨hnamed, hkept⟩ := ih hrest hscheme
      constructor
      · rintro (hnow | ⟨later, hmem, hnames⟩)
        · exact absurd hnow hfirst
        · exact hnamed ⟨later, hmem, (hlater later hmem).mpr hnames⟩
      · rintro ⟨-, hnone⟩ x hx
        refine (hkept ?_ x hx).trans (hsame x hx)
        intro later hmem hnames
        exact hnone later hmem ((hlater later hmem).mp hnames)

/-! ## Revised literals

A literal is looked at for locators of modules first. Only if none is found may it be taken for a
path, which is put into the directory of a module; an absolute path then ends up behind the name
of that module. -/

/-- The modules whose locators are moved in the literals of a module. -/
def movedFor (n : LocatorNames) (origin : Option String) : List String :=
  match origin with
  | none => n.secondaries
  | some secondary => [secondary]

/-- What the turn of one module makes of what the turns before have left. -/
def turn (n : LocatorNames) (literal : String) (moved : Option String) (secondary : String) :
    Option String :=
  n.relocate? (moved.getD literal) secondary <|> moved

theorem relocateAll?_eq_foldl (n : LocatorNames) (literal : String) :
    n.relocateAll? literal = n.secondaries.foldl (n.turn literal) none := rfl

theorem foldl_turn_of_none {names : List String} {moved : Option String}
    (h : ∀ name ∈ names, n.relocate? (moved.getD literal) name = none) :
    names.foldl (n.turn literal) moved = moved := by
  induction names with
  | nil => rfl
  | cons name rest ih =>
    obtain ⟨hname, hrest⟩ := List.forall_mem_cons.mp h
    have hturn : n.turn literal moved name = moved := by
      rw [turn, hname]
      rfl
    rw [List.foldl_cons, hturn, ih hrest]

theorem getD_foldl_turn (n : LocatorNames) (literal : String) (names : List String)
    (moved : Option String) : (names.foldl (n.turn literal) moved).getD literal
      = names.foldl n.relocated (moved.getD literal) := by
  induction names generalizing moved with
  | nil => rfl
  | cons name rest ih =>
    have hturn : (n.turn literal moved name).getD literal
        = n.relocated (moved.getD literal) name := by
      rw [turn, relocated]
      cases n.relocate? (moved.getD literal) name <;> rfl
    rw [List.foldl_cons, List.foldl_cons, ih, hturn]

theorem relocate?_eq_none_of_mark (h : ¬componentMark.toList <:+: literal.toList)
    (secondary : String) : n.relocate? literal secondary = none := by
  refine relocate?_eq_none_iff.mpr fun hpattern ↦ h (List.IsInfix.trans ?_ hpattern)
  rw [String.toList_append]
  exact (List.suffix_append ..).isInfix

theorem isLocator_of_patchLiteral? {origin : Option String} {r : String}
    (h : n.patchLiteral? literal origin = some r) : isLocator literal = true := by
  by_contra hnot
  have hnone : n.patchLiteral? literal origin = none := if_neg hnot
  rw [hnone] at h
  cases h

theorem patchLiteral?_none (h : isLocator literal = true) :
    n.patchLiteral? literal none = n.relocateAll? literal := if_pos h

theorem patchLiteral?_some (h : isLocator literal = true) (secondary : String) :
    n.patchLiteral? literal (some secondary)
      = (n.relocate? literal secondary <|> relocatePath? literal secondary) := if_pos h

/-- A literal that names a module is revised by moving locators; any other one is a path that goes
into the directory of the module that it was written in. -/
theorem patchLiteral?_cases {origin : Option String} {r : String}
    (h : n.patchLiteral? literal origin = some r) :
    (componentMark.toList <:+: literal.toList ∧ r = (n.movedFor origin).foldl n.relocated literal)
      ∨ (¬componentMark.toList <:+: literal.toList
        ∧ ∃ secondary, origin = some secondary ∧ relocatePath? literal secondary = some r) := by
  have hlocator := isLocator_of_patchLiteral? h
  by_cases hmark : componentMark.toList <:+: literal.toList
  · refine .inl ⟨hmark, ?_⟩
    cases origin with
    | none =>
      have hmoved := n.getD_foldl_turn literal n.secondaries none
      rw [patchLiteral?_none hlocator, relocateAll?_eq_foldl] at h
      rw [h] at hmoved
      exact hmoved
    | some secondary =>
      have hpath : relocatePath? literal secondary = none := by
        rw [relocatePath?, if_neg]
        simp [Text.occursIn_iff.mpr hmark]
      rw [patchLiteral?_some hlocator, hpath] at h
      have hmoved : n.relocate? literal secondary = some r := by simpa using h
      rw [movedFor, List.foldl_cons, List.foldl_nil, relocated, hmoved]
      rfl
  · refine .inr ⟨hmark, ?_⟩
    cases origin with
    | none =>
      rw [patchLiteral?_none hlocator, relocateAll?_eq_foldl,
        foldl_turn_of_none fun name _ ↦ relocate?_eq_none_of_mark hmark name] at h
      cases h
    | some secondary =>
      rw [patchLiteral?_some hlocator, relocate?_eq_none_of_mark hmark] at h
      have hpath : relocatePath? literal secondary = some r := by simpa using h
      exact ⟨secondary, rfl, hpath⟩

theorem toList_of_relocatePath? {r : String} (h : relocatePath? literal secondary = some r) :
    (∃ rest, literal.toList = '/' :: rest ∧ r.toList = '/' :: (secondary.toList ++ '/' :: rest))
      ∨ (¬['/'] <+: literal.toList ∧ r.toList = secondary.toList ++ '/' :: literal.toList) := by
  rw [relocatePath?] at h
  split at h
  case isFalse => cases h
  split at h
  case h_1 rest hrooted =>
    cases h
    exact .inl ⟨rest, hrooted, by simp⟩
  case h_2 hnot =>
    cases h
    refine .inr ⟨?_, by simp⟩
    rintro ⟨rest, hrest⟩
    exact hnot rest hrest.symm

theorem forms_of_relocatePath? {r : String} (hsecondary : IsSegment secondary)
    (h : relocatePath? literal secondary = some r) :
    ("/".toList <+: r.toList ↔ "/".toList <+: literal.toList)
      ∧ (packPrefix.toList <+: literal.toList → ¬packPrefix.toList <+: r.toList) := by
  rcases toList_of_relocatePath? h with ⟨rest, hrooted, hr⟩ | ⟨hrelative, hr⟩
  · constructor
    · rw [hr, hrooted]
      exact iff_of_true ⟨_, rfl⟩ ⟨_, rfl⟩
    · intro hpack
      rw [hrooted] at hpack
      exact absurd (List.cons_prefix_cons.mp hpack).1 (by decide)
  · constructor
    · obtain ⟨c, name, hc, hname⟩ := hsecondary.toList_eq
      rw [hr, hname]
      exact iff_of_false (fun hslash ↦ hc (List.cons_prefix_cons.mp hslash).1.symm) hrelative
    · -- the slash behind the directory would be the first one of the scheme
      rintro - ⟨back, hback⟩
      have hsplit : secondary.toList ++ '/' :: literal.toList
          = "pack:".toList ++ '/' :: ('/' :: (packAuthority.toList ++ back)) := by
        rw [← hr, ← hback, toList_packPrefix]
        rfl
      obtain ⟨-, hrooted⟩ := append_cons_inj hsecondary.2 (by decide) hsplit
      exact hrelative ⟨_, hrooted.symm⟩

/-- Moving locators keeps a literal rooted, and keeps the pack prefix unless a module is named in
the place of the authority, whose name the output's would have to begin like. -/
theorem forms_of_foldl_relocated (htarget : '/' ∉ n.target.toList) {names : List String}
    (hnames : ∀ name ∈ names, IsSegment name) :
    ("/".toList <+: (names.foldl n.relocated literal).toList ↔ "/".toList <+: literal.toList)
      ∧ (packPrefix.toList <+: literal.toList →
        (packPrefix.toList <+: (names.foldl n.relocated literal).toList
          ↔ packAuthority.toList <+: n.target.toList
            ∨ ∀ name ∈ names, ¬NamesAsAuthority literal name)) := by
  refine ⟨prefix_foldl_relocated_iff (by decide) names, fun hpack ↦ ?_⟩
  have hscheme : packScheme.toList <+: literal.toList := by
    rw [toList_packPrefix] at hpack
    exact (List.prefix_append ..).trans hpack
  obtain ⟨hnamed, hkept⟩ := foldl_relocated_absolute htarget hnames hscheme
  by_cases hfirst : ∃ name ∈ names, NamesAsAuthority literal name
  · rw [(hnamed hfirst).packPrefix_iff, or_iff_left]
    obtain ⟨name, hmem, hname⟩ := hfirst
    exact fun hnone ↦ hnone name hmem hname
  · have hnone : ∀ name ∈ names, ¬NamesAsAuthority literal name := fun name hmem hname ↦
      hfirst ⟨name, hmem, hname⟩
    have hsame := hkept hnone packAuthority.toList (by decide)
    rw [← toList_packPrefix] at hsame
    exact iff_of_true (hsame.mpr hpack) (.inr hnone)

end LocatorNames

/-- A literal and what it is revised to are addressed alike: both are rooted or neither is, and an
absolute one stays absolute. -/
def KeepsForm (literal r : String) : Prop :=
  ("/".toList <+: r.toList ↔ "/".toList <+: literal.toList)
    ∧ (packPrefix.toList <+: literal.toList → packPrefix.toList <+: r.toList)

instance (literal r : String) : Decidable (KeepsForm literal r) :=
  inferInstanceAs (Decidable (_ ∧ _))

/-- A rooted literal stays rooted, and no other one becomes it. An absolute literal that is revised
stays absolute exactly when it names a module, and names none in the place of the authority or else
the output has a name that begins like the authority. -/
theorem keepsForm_iff_of_patch {n : LocatorNames} {literal r : String} {origin : Option String}
    (htarget : IsSegment n.target) (hsecondaries : ∀ name ∈ n.secondaries, IsSegment name)
    (horigin : ∀ name ∈ origin, IsSegment name) (h : n.patchLiteral? literal origin = some r) :
    ("/".toList <+: r.toList ↔ "/".toList <+: literal.toList)
      ∧ (KeepsForm literal r ↔ (packPrefix.toList <+: literal.toList →
        componentMark.toList <:+: literal.toList
          ∧ (packAuthority.toList <+: n.target.toList
            ∨ ∀ name ∈ n.movedFor origin, ¬NamesAsAuthority literal name))) := by
  have hnames : ∀ name ∈ n.movedFor origin, IsSegment name := by
    cases origin with
    | none => exact hsecondaries
    | some secondary =>
      intro name hname
      rw [List.mem_singleton.mp hname]
      exact horigin secondary rfl
  rcases LocatorNames.patchLiteral?_cases h with ⟨hmark, rfl⟩ | ⟨hmark, secondary, rfl, hpath⟩
  · obtain ⟨hrooted, habsolute⟩ := LocatorNames.forms_of_foldl_relocated htarget.2 hnames
    refine ⟨hrooted, ?_⟩
    rw [KeepsForm, and_iff_right hrooted]
    refine forall_congr' fun hpack ↦ ?_
    rw [habsolute hpack, and_iff_right hmark]
  · obtain ⟨hrooted, hrelative⟩ := LocatorNames.forms_of_relocatePath? (horigin _ rfl) hpath
    refine ⟨hrooted, ?_⟩
    rw [KeepsForm, and_iff_right hrooted]
    refine forall_congr' fun hpack ↦ ?_
    exact iff_of_false (hrelative hpack) fun hholds ↦ hmark hholds.1

/-- A locator of a library, in the library that has it and in the program, with the pack prefix. -/
theorem keepsForm_dark :
    LocatorNames.patchLiteral? ⟨"App", ["Controls", "Themes"]⟩
        "pack://application:,,,/Themes;component/Dark.xaml" none
      = some "pack://application:,,,/App;component/Themes/Dark.xaml"
      ∧ KeepsForm "pack://application:,,,/Themes;component/Dark.xaml"
        "pack://application:,,,/App;component/Themes/Dark.xaml" := by
  have hpatched : LocatorNames.patchLiteral? ⟨"App", ["Controls", "Themes"]⟩
      "pack://application:,,,/Themes;component/Dark.xaml" none
      = some "pack://application:,,,/App;component/Themes/Dark.xaml" := by decide +kernel
  have hmark : componentMark.toList
      <:+: "pack://application:,,,/Themes;component/Dark.xaml".toList :=
    Text.occursIn_iff.mp (by decide +kernel)
  have hnone : ∀ name ∈ ["Controls", "Themes"],
      ¬NamesAsAuthority "pack://application:,,,/Themes;component/Dark.xaml" name := by
    decide +kernel
  obtain ⟨-, hkeeps⟩ := keepsForm_iff_of_patch (by decide) (by decide) (by simp) hpatched
  exact ⟨hpatched, hkeeps.mpr fun _ ↦ ⟨hmark, .inr hnone⟩⟩

/-- An absolute path to the markup of a library ends up behind the name of the library. -/
theorem not_keepsForm_panel :
    ¬∀ (n : LocatorNames) (literal r : String) (origin : Option String), IsSegment n.target →
      (∀ name ∈ n.secondaries, IsSegment name) → (∀ name ∈ origin, IsSegment name) →
      n.patchLiteral? literal origin = some r → KeepsForm literal r := by
  intro h
  have hpatched : LocatorNames.patchLiteral? ⟨"App", ["Controls"]⟩
      "pack://application:,,,/Views/Panel.xaml" (some "Controls")
      = some "Controls/pack://application:,,,/Views/Panel.xaml" := by decide +kernel
  have hkeeps := h _ _ _ _ (by decide) (by decide) (by decide) hpatched
  exact absurd hkeeps (by decide +kernel)

/-- A library whose name begins like the authority is found in its place. -/
example : LocatorNames.patchLiteral? ⟨"App", ["application:,,,Kit"]⟩
    "pack://application:,,,Kit;component/Main.xaml" none
      = some "pack://App;component/application:,,,Kit/Main.xaml" := by decide +kernel

end ModuleLinker

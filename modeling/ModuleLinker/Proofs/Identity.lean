import ModuleLinker.Proofs.Text.Bytes

/-!
# The identity of a module as bytes

A content digest is taken of the identity of a module, written as one row of bytes: the name, the
version, the names of the types with a zero byte behind each, and the methods, each the name and
then the length of the body in eight bytes. Nothing marks the end of the name, of the version, of
the list of types or of the name of a method. So the row determines the identity together with the
places where the parts end, and not without them.

Compilers write names that are not empty, hold no zero byte, and do not begin with a digit, nor do
the parts of a name between its points. In such a *legible* identity all these places can be found
but one: the name and the version are one text, and the end of the name is lost if it stands between
digits.

The length of a body tells the methods from the types. It ends in four zero bytes as long as it is
below 2^32, and a row of names with single zero bytes between them has no such place.
-/

namespace ModuleLinker

/-! ## Lengths of bodies

Lengths are written in eight bytes, the lowest first, so a body that is not enormous has zero
bytes at the end of its number. They are what makes the number hard to take for a name. -/

theorem length_littleEndian64 (n : Nat) : (littleEndian64 n).length = 8 := rfl

theorem littleEndian64_inj {n k : Nat} (hn : n < UInt64.size) (hk : k < UInt64.size)
    (h : littleEndian64 n = littleEndian64 k) : n = k := by
  have hbytes : ∀ i < 8, n / 256 ^ i % 256 = k / 256 ^ i % 256 := by
    intro i hi
    have hbyte := congrArg (fun bytes ↦ bytes[i]?.map UInt8.toNat) h
    simpa [littleEndian64, hi, Nat.shiftRight_eq_div_pow, Nat.pow_mul] using hbyte
  have hlow : ∀ count ≤ 8, n % 256 ^ count = k % 256 ^ count := by
    intro count hcount
    induction count with
    | zero => simp [Nat.mod_one]
    | succ count ih => rw [Nat.mod_pow_succ, Nat.mod_pow_succ, ih (by omega), hbytes count hcount]
  have hwidth : UInt64.size = 256 ^ 8 := by decide
  have heq := hlow 8 (Nat.le_refl 8)
  rw [hwidth] at hn hk
  rwa [Nat.mod_eq_of_lt hn, Nat.mod_eq_of_lt hk] at heq

/-- The number of a short body ends in four zero bytes. -/
theorem littleEndian64_of_lt {n : Nat} (hn : n < UInt32.size) :
    ∃ low, low.length = 4 ∧ littleEndian64 n = low ++ [0, 0, 0, 0] := by
  have hhigh : ∀ i, 4 ≤ i → UInt8.ofNat (n >>> (8 * i) % 256) = 0 := by
    intro i hi
    have hpow : n < 2 ^ (8 * i) := by
      have hsize : UInt32.size = 2 ^ 32 := rfl
      rw [hsize] at hn
      exact Nat.lt_of_lt_of_le hn (Nat.pow_le_pow_right (by decide) (by omega))
    rw [Nat.shiftRight_eq_div_pow, Nat.div_eq_of_lt hpow]
    rfl
  have hdrop : (littleEndian64 n).drop 4 = [0, 0, 0, 0] := by
    change [4, 5, 6, 7].map (fun i ↦ UInt8.ofNat (n >>> (8 * i) % 256)) = [4, 5, 6, 7].map fun _ ↦ 0
    exact List.map_congr_left fun i hi ↦ hhigh i (by revert i; decide)
  exact ⟨(littleEndian64 n).take 4, rfl, by rw [← hdrop, List.take_append_drop]⟩

/-! ## Identities

The bytes depend on a few parts of a module only. They are kept in a structure of their own, so
that what the bytes say can be compared with what they are made from. -/

/-- The parts of a module that its content digest is taken of. -/
structure Identity where
  name : String
  version : Version
  typeNames : List String
  /-- The names of the methods, with the lengths of their bodies. -/
  methods : List (String × Nat)
deriving DecidableEq

/-- How many bytes the parts of an identity take. -/
structure Layout where
  name : Nat
  version : Nat
  typeNames : List Nat
  methodNames : List Nat
deriving DecidableEq

namespace Identity

def typeBytes (names : List String) : List UInt8 := names.flatMap fun name ↦ utf8 name ++ [0]

def methodBytes (methods : List (String × Nat)) : List UInt8 :=
  methods.flatMap fun d ↦ utf8 d.1 ++ littleEndian64 d.2

/-- What stands behind the version. -/
def memberBytes (names : List String) (methods : List (String × Nat)) : List UInt8 :=
  typeBytes names ++ methodBytes methods

def bytes (i : Identity) : List UInt8 :=
  utf8 i.name ++ (utf8 i.version.text ++ memberBytes i.typeNames i.methods)

def layout (i : Identity) : Layout where
  name := (utf8 i.name).length
  version := (utf8 i.version.text).length
  typeNames := i.typeNames.map fun name ↦ (utf8 name).length
  methodNames := i.methods.map fun d ↦ (utf8 d.1).length

/-- The lengths of all bodies fit in eight bytes. -/
def Counted (i : Identity) : Prop := ∀ d ∈ i.methods, d.2 < UInt64.size

instance (i : Identity) : Decidable i.Counted := inferInstanceAs (Decidable (∀ d ∈ i.methods, _))

end Identity

/-- The identity of a module. -/
def Module.identity (m : Module) : Identity where
  name := m.name
  version := m.version
  typeNames := m.typeIds.map m.qualifiedName
  methods := m.methods.map fun d ↦
    (d.name, (d.body.map fun b ↦ b.instructions.length).getD 0)

theorem Module.identityBytes_eq (m : Module) : m.identityBytes = m.identity.bytes := by
  simp only [identityBytes, Identity.bytes, Identity.memberBytes, Identity.typeBytes,
    Identity.methodBytes, identity, List.flatMap_map, List.append_assoc]

namespace Identity

/-! ## The places of the parts -/

private theorem methodBlock_inj {d d' : String × Nat} (hd : d.2 < UInt64.size)
    (hd' : d'.2 < UInt64.size)
    (h : utf8 d.1 ++ littleEndian64 d.2 = utf8 d'.1 ++ littleEndian64 d'.2) : d = d' := by
  obtain ⟨hname, hcount⟩ := List.append_inj' h rfl
  exact Prod.ext (utf8_injective hname) (littleEndian64_inj hd hd' hcount)

/-- The bytes of an identity and the places of its parts determine it. -/
theorem eq_of_bytes_of_layout {i j : Identity} (hi : i.Counted) (hj : j.Counted)
    (hbytes : i.bytes = j.bytes) (hlayout : i.layout = j.layout) : i = j := by
  obtain ⟨hname, hversion, htypes, hmethods⟩ := Layout.mk.inj hlayout
  obtain ⟨hname, hbytes⟩ := List.append_inj hbytes hname
  obtain ⟨hversion, hbytes⟩ := List.append_inj hbytes hversion
  have hpart : ∀ {α : Type} {l l' : List α} {f g : α → List UInt8} {n : Nat},
      (∀ a, (g a).length = (f a).length + n) →
      l.map (fun a ↦ (f a).length) = l'.map (fun a ↦ (f a).length) →
      l.map (fun a ↦ (g a).length) = l'.map fun a ↦ (g a).length := by
    intro α l l' f g n hg h
    simpa [hg, Function.comp_def] using congrArg (List.map (· + n)) h
  obtain ⟨htypes, hbytes⟩ := flatMap_append_inj
    (fun _ _ _ _ h ↦ utf8_injective (List.append_cancel_right h))
    (hpart (n := 1) (fun _ ↦ List.length_append) htypes) hbytes
  rw [← List.append_nil (methodBytes i.methods), ← List.append_nil (methodBytes j.methods)]
    at hbytes
  obtain ⟨hmethods, -⟩ := flatMap_append_inj
    (fun d hd d' hd' ↦ methodBlock_inj (hi d hd) (hj d' hd'))
    (hpart (n := 8) (fun _ ↦ List.length_append) hmethods) hbytes
  have hversion := Version.text_injective (utf8_injective hversion)
  cases i
  cases j
  simp only [mk.injEq]
  exact ⟨utf8_injective hname, hversion, htypes, hmethods⟩

/-- The end of a version is lost in a name that begins with a digit. -/
example : bytes ⟨"Lib", ⟨1, 0, 0, 1⟩, ["2"], []⟩ = bytes ⟨"Lib", ⟨1, 0, 0, 12⟩, [""], []⟩ := by
  decide +kernel

/-- A method without a body may be eight types, seven of them without a name. -/
example : bytes ⟨"Lib", ⟨1, 0, 0, 0⟩, ["Kit"], [("Run", 0)]⟩
    = bytes ⟨"Lib", ⟨1, 0, 0, 0⟩, ["Kit", "Run", "", "", "", "", "", "", ""], []⟩ := by
  decide +kernel

/-! ## Legible identities

Behind the version stand the types and then the methods. A type is a text with a zero byte
behind it, and a method is a text and a number. Which of the two comes next, and where it
ends, has to be read off the bytes alone. The zero bytes at the end of a number decide it when
no name holds one. -/

/-- Names that a zero byte can end. -/
def NamesPlain (names : List String) : Prop := ∀ name ∈ names, name ≠ "" ∧ '\x00' ∉ name.toList

/-- Methods whose names and lengths can be told apart. -/
def MethodsPlain (methods : List (String × Nat)) : Prop :=
  ∀ d ∈ methods, d.1 ≠ "" ∧ '\x00' ∉ d.1.toList ∧ d.2 < UInt32.size

instance (names : List String) : Decidable (NamesPlain names) :=
  inferInstanceAs (Decidable (∀ name ∈ names, _))

instance (methods : List (String × Nat)) : Decidable (MethodsPlain methods) :=
  inferInstanceAs (Decidable (∀ d ∈ methods, _))

theorem head?_utf8_append {name : String} (hname : name ≠ "") (hzero : '\x00' ∉ name.toList)
    (rest : List UInt8) : (utf8 name ++ rest).head? ≠ some 0 := by
  rw [List.head?_append_of_ne_nil _ (utf8_ne_nil hname)]
  exact fun h ↦ zero_notMem_utf8 hzero (List.mem_of_mem_head? h)

theorem memberBytes_cons (name : String) (names : List String) (methods : List (String × Nat)) :
    memberBytes (name :: names) methods = utf8 name ++ 0 :: memberBytes names methods := by
  simp [memberBytes, typeBytes]

theorem methodBytes_cons (d : String × Nat) (methods : List (String × Nat)) :
    methodBytes (d :: methods) = utf8 d.1 ++ (littleEndian64 d.2 ++ methodBytes methods) := by
  simp [methodBytes]

theorem methodBytes_ne_nil (d : String × Nat) (methods : List (String × Nat)) :
    methodBytes (d :: methods) ≠ [] := by
  rw [methodBytes_cons]
  exact List.append_ne_nil_of_right_ne_nil _ (List.append_ne_nil_of_left_ne_nil
    (List.ne_nil_of_length_eq_add_one (length_littleEndian64 d.2)) _)

variable {names names' : List String} {methods methods' : List (String × Nat)}

theorem head?_methodBytes (hmethods : MethodsPlain methods) :
    (methodBytes methods).head? ≠ some 0 := by
  cases methods with
  | nil => simp [methodBytes]
  | cons d methods =>
    obtain ⟨hname, hzero, -⟩ := hmethods d (.head _)
    rw [methodBytes_cons]
    exact head?_utf8_append hname hzero _

theorem head?_memberBytes (hnames : NamesPlain names) (hmethods : MethodsPlain methods) :
    (memberBytes names methods).head? ≠ some 0 := by
  cases names with
  | nil => exact head?_methodBytes hmethods
  | cons name names =>
    obtain ⟨hname, hzero⟩ := hnames name (.head _)
    rw [memberBytes_cons]
    exact head?_utf8_append hname hzero _

/-- In front of four zero bytes that no fifth one follows there is no place for a name and half of a
number. -/
theorem zeros_ne_of_short {front low after after' : List UInt8} {name : List UInt8}
    (hfront : front.length ≤ 4) (hname : name ≠ []) (hzero : 0 ∉ name) (hlow : low.length = 4)
    (hafter : after.head? ≠ some 0) :
    front ++ ([0, 0, 0, 0] ++ after) ≠ name ++ (low ++ ([0, 0, 0, 0] ++ after')) := by
  intro h
  -- the name ends before the zero bytes, so the number ends behind them
  have hle : name.length ≤ front.length := by
    by_contra hlt
    have hbyte := congrArg (fun bytes ↦ bytes[front.length]?) h
    simp only [List.getElem?_append_right (Nat.le_refl _), Nat.sub_self,
      List.getElem?_append_left (Nat.lt_of_not_le hlt)] at hbyte
    exact hzero (List.mem_of_getElem? hbyte.symm)
  have hlt : front.length - name.length < 4 := by
    have hpos := List.length_pos_iff.mpr hname
    omega
  have hzeros : ∀ k < 4, ([0, 0, 0, 0] : List UInt8)[k]? = some 0 := by decide
  refine hafter ?_
  calc
    after.head? = (front ++ ([0, 0, 0, 0] ++ after))[front.length + 4]? := by
      rw [List.getElem?_append_right (by simp), List.head?_eq_getElem?, Nat.add_sub_cancel_left]
      rfl
    _ = (name ++ (low ++ ([0, 0, 0, 0] ++ after')))[front.length + 4]? := by rw [h]
    _ = ([0, 0, 0, 0] ++ after')[front.length - name.length]? := by
      rw [List.getElem?_append_right (by omega), List.getElem?_append_right (by omega)]
      congr 1
      omega
    _ = some 0 := by rw [List.getElem?_append_left hlt, hzeros _ hlt]

/-- What is left of a row behind part of a number is no row of types and methods. -/
theorem memberBytes_ne_of_short {front : List UInt8} (hfront : front.length ≤ 4)
    (hnames : NamesPlain names) (hmethods : MethodsPlain methods)
    (hmethods' : MethodsPlain methods') :
    memberBytes names methods' ≠ front ++ ([0, 0, 0, 0] ++ methodBytes methods) := by
  induction names generalizing front with
  | nil =>
    intro h
    cases methods' with
    | nil => simp [memberBytes, typeBytes, methodBytes] at h
    | cons d methods' =>
      obtain ⟨hname, hzero, hcount⟩ := hmethods' d (.head _)
      obtain ⟨low, hlow, hnumber⟩ := littleEndian64_of_lt hcount
      change methodBytes (d :: methods') = _ at h
      rw [methodBytes_cons, hnumber, List.append_assoc] at h
      exact zeros_ne_of_short hfront (utf8_ne_nil hname) (zero_notMem_utf8 hzero) hlow
        (head?_methodBytes hmethods) h.symm
  | cons name names ih =>
    intro h
    obtain ⟨-, hzero⟩ := hnames name (.head _)
    have hrest : NamesPlain names := fun _ h ↦ hnames _ (.tail _ h)
    rw [memberBytes_cons] at h
    rcases append_cons_eq (zero_notMem_utf8 hzero) h with hends | ⟨skipped, hlt, hends⟩
    · exact head?_memberBytes hrest hmethods' (by rw [hends]; rfl)
    · exact ih (by omega) hrest hends

theorem methodBytes_ne_typeBytes {name : String} (hnames : NamesPlain (name :: names))
    (hmethods : MethodsPlain methods) (hmethods' : MethodsPlain methods') :
    methodBytes methods ≠ memberBytes (name :: names) methods' := by
  intro h
  obtain ⟨hname, hzero⟩ := hnames name (.head _)
  have hrest : NamesPlain names := fun _ h ↦ hnames _ (.tail _ h)
  rw [memberBytes_cons] at h
  cases methods with
  | nil => simp [methodBytes] at h
  | cons d methods =>
    obtain ⟨-, hzero', hcount⟩ := hmethods d (.head _)
    have hmore : MethodsPlain methods := fun _ h ↦ hmethods _ (.tail _ h)
    obtain ⟨low, hlow, hnumber⟩ := littleEndian64_of_lt hcount
    rw [methodBytes_cons, hnumber, List.append_assoc] at h
    -- the zero byte behind the name of the type would be one of the number
    obtain ⟨more, htype, h⟩ := exists_of_append_eq (zero_notMem_utf8 hzero') h
    have hnot : 0 ∉ more := fun h ↦
      zero_notMem_utf8 hzero (htype ▸ List.mem_append_right _ h)
    rcases append_cons_eq hnot h.symm with hends | ⟨skipped, hlt, hends⟩
    · exact head?_memberBytes hrest hmethods' (by rw [hends]; rfl)
    · exact memberBytes_ne_of_short (by omega) hrest hmore hmethods' hends

theorem methodBytes_inj (hmethods : MethodsPlain methods) (hmethods' : MethodsPlain methods')
    (h : methodBytes methods = methodBytes methods') : methods = methods' := by
  -- a longer name would reach into the number of the shorter one
  have hnil : ∀ {d d' : String × Nat} {rest rest' : List (String × Nat)} {more : List UInt8},
      MethodsPlain (d :: rest) → MethodsPlain (d' :: rest') → utf8 d'.1 = utf8 d.1 ++ more →
      littleEndian64 d.2 ++ methodBytes rest
        = more ++ (littleEndian64 d'.2 ++ methodBytes rest') → more = [] := by
    intro d d' rest rest' more hd hd' hlong h
    by_contra hmore
    obtain ⟨low, hlow, hnumber⟩ := littleEndian64_of_lt (hd d (.head _)).2.2
    obtain ⟨low', hlow', hnumber'⟩ := littleEndian64_of_lt (hd' d' (.head _)).2.2
    have hzero : 0 ∉ more := fun h ↦
      zero_notMem_utf8 (hd' d' (.head _)).2.1 (hlong ▸ List.mem_append_right _ h)
    have hhead := head?_methodBytes fun _ h ↦ hd _ (.tail d h)
    rw [hnumber, hnumber', List.append_assoc, List.append_assoc] at h
    exact zeros_ne_of_short (by omega) hmore hzero hlow' hhead h
  induction methods generalizing methods' with
  | nil =>
    cases methods' with
    | nil => rfl
    | cons d' methods' => exact absurd h.symm (methodBytes_ne_nil d' methods')
  | cons d methods ih =>
    cases methods' with
    | nil => exact absurd h (methodBytes_ne_nil d methods)
    | cons d' methods' =>
      rw [methodBytes_cons, methodBytes_cons] at h
      have hname : utf8 d.1 = utf8 d'.1 := by
        rcases List.append_eq_append_iff.mp h with ⟨more, hlong, hmore⟩ | ⟨more, hlong, hmore⟩
        · rw [hlong, hnil hmethods hmethods' hlong hmore, List.append_nil]
        · rw [hlong, hnil hmethods' hmethods hlong hmore, List.append_nil]
      rw [hname] at h
      obtain ⟨hcount, h⟩ := List.append_inj (List.append_cancel_left h) rfl
      have hcount := littleEndian64_inj (Nat.lt_trans (hmethods d (.head _)).2.2 (by decide))
        (Nat.lt_trans (hmethods' d' (.head _)).2.2 (by decide)) hcount
      rw [Prod.ext (utf8_injective hname) hcount,
        ih (fun _ h ↦ hmethods _ (.tail _ h)) (fun _ h ↦ hmethods' _ (.tail _ h)) h]

theorem memberBytes_inj (hnames : NamesPlain names) (hnames' : NamesPlain names')
    (hmethods : MethodsPlain methods) (hmethods' : MethodsPlain methods')
    (h : memberBytes names methods = memberBytes names' methods') :
    names = names' ∧ methods = methods' := by
  induction names generalizing names' with
  | nil =>
    cases names' with
    | nil => exact ⟨rfl, methodBytes_inj hmethods hmethods' h⟩
    | cons name' names' => exact absurd h (methodBytes_ne_typeBytes hnames' hmethods hmethods')
  | cons name names ih =>
    cases names' with
    | nil => exact absurd h.symm (methodBytes_ne_typeBytes hnames hmethods' hmethods)
    | cons name' names' =>
      rw [memberBytes_cons, memberBytes_cons] at h
      obtain ⟨hname, hrest⟩ :=
        utf8_zero_inj (hnames name (.head _)).2 (hnames' name' (.head _)).2 h
      obtain ⟨hnames, hmethods⟩ :=
        ih (fun _ h ↦ hnames _ (.tail _ h)) (fun _ h ↦ hnames' _ (.tail _ h)) hrest
      exact ⟨by rw [hname, hnames], hmethods⟩

/-! ## Names and versions

A version is four numbers with points between them, and a name stands right in front of it. If the
same text is cut in two ways, what goes over from the version to the name are digits, and nothing
but digits. -/

/-- In a name a character that is no digit stands behind every point. -/
def PointsPlain (name : String) : Prop :=
  ∀ part ∈ name.toList.tails, part.head? = some '.' →
    part.tail.head?.any (fun c ↦ !c.isDigit) = true

instance (name : String) : Decidable (PointsPlain name) :=
  inferInstanceAs (Decidable (∀ part ∈ name.toList.tails, _))

theorem PointsPlain.not_digitFirst {front back : String} (h : PointsPlain (front ++ "." ++ back))
    (rest : List UInt8) : ¬DigitFirst (utf8 back ++ rest) := by
  intro hdigit
  have hplain := h ('.' :: back.toList) (by simp) rfl
  have hne : back ≠ "" := by
    rintro rfl
    simp at hplain
  have hany := isDigit_of_digitFirst hne hdigit
  cases hhead : back.toList.head? with
  | none => simp [hhead] at hany
  | some c =>
    rw [hhead, Option.any_some] at hany
    rw [List.tail_cons, hhead, Option.any_some, hany] at hplain
    cases hplain

/-- Where one name goes on after the other one, it takes digits of the version along and nothing
else. -/
theorem title_eq_of_append {name more : String} {v w : Version} {rest rest' : List UInt8}
    (hname : PointsPlain (name ++ more)) (hrest : ¬DigitFirst rest) (hrest' : ¬DigitFirst rest')
    (h : utf8 v.text ++ rest = utf8 more ++ (utf8 w.text ++ rest')) :
    v.text = more ++ w.text ∧ rest = rest' := by
  rw [v.utf8_text, List.append_assoc, List.cons_append] at h
  rcases List.append_eq_append_iff.mp h with ⟨behind, hmore, hw⟩ | ⟨digits, hmajor, hw⟩
  · -- the name would reach behind a point, where the next number of the version stands
    cases behind with
    | nil => exact absurd (w.digitFirst_text rest') (hw ▸ not_digitFirst_point _)
    | cons b behind =>
      obtain ⟨rfl, hbehind⟩ := List.cons.inj hw
      obtain ⟨part, rfl, hpart⟩ := exists_of_utf8_append hmore.symm
      have hpoint : utf8 "." ++ behind = utf8 part := by rw [utf8_point, ← hpart]; rfl
      obtain ⟨back, rfl, rfl⟩ := exists_of_utf8_append hpoint
      rw [← String.append_assoc, ← String.append_assoc] at hname
      exact absurd (v.digitFirst_minorBytes rest) (hbehind ▸ hname.not_digitFirst _)
  · rw [w.utf8_text, List.append_assoc, List.cons_append] at hw
    obtain ⟨rfl, hbehind⟩ := append_inj_of_longest
      (fun b ↦ isDigitByte_of_mem_decimal)
      (fun b hb ↦ isDigitByte_of_mem_decimal (hmajor ▸ List.mem_append_right _ hb))
      (fun b hb hd ↦ not_digitFirst_point _ ⟨b, hb, hd⟩)
      (fun b hb hd ↦ not_digitFirst_point _ ⟨b, hb, hd⟩) hw
    obtain ⟨⟨hminor, hbuild, hrevision⟩, heq⟩ :=
      Version.minorBytes_append_inj hrest hrest' (List.cons.inj hbehind).2.symm
    refine ⟨utf8_injective ?_, heq⟩
    rw [utf8_append, v.utf8_text, w.utf8_text, hmajor, List.append_assoc, Version.minorBytes,
      hminor, hbuild, hrevision, Version.minorBytes]

/-- Up to the place between the two, the bytes determine a name and a version, and what follows
them. -/
theorem title_inj {name name' : String} {v w : Version} {rest rest' : List UInt8}
    (hname : PointsPlain name) (hname' : PointsPlain name') (hrest : ¬DigitFirst rest)
    (hrest' : ¬DigitFirst rest')
    (h : utf8 name ++ (utf8 v.text ++ rest) = utf8 name' ++ (utf8 w.text ++ rest')) :
    name ++ v.text = name' ++ w.text ∧ rest = rest' := by
  rcases List.append_eq_append_iff.mp h with ⟨more, hlong, hmore⟩ | ⟨more, hlong, hmore⟩
  · obtain ⟨more, rfl, rfl⟩ := exists_of_utf8_append hlong.symm
    obtain ⟨htext, heq⟩ := title_eq_of_append hname' hrest hrest' hmore
    exact ⟨by rw [htext, String.append_assoc], heq⟩
  · obtain ⟨more, rfl, rfl⟩ := exists_of_utf8_append hlong.symm
    obtain ⟨htext, heq⟩ := title_eq_of_append hname hrest' hrest hmore
    exact ⟨by rw [htext, String.append_assoc], heq.symm⟩

/-! ## Bytes of legible identities -/

/-- An identity whose types and methods can be found in its bytes. -/
structure Legible (i : Identity) : Prop where
  points : PointsPlain i.name
  types : NamesPlain i.typeNames
  methods : MethodsPlain i.methods
  /-- The name that stands behind the version does not begin with a digit. -/
  first : ∀ name ∈ i.typeNames.head?, name.toList.head?.any Char.isDigit = false
  /-- A method has a type that declares it. -/
  declared : i.typeNames = [] → i.methods = []

instance (i : Identity) : Decidable i.Legible :=
  decidable_of_iff (PointsPlain i.name ∧ NamesPlain i.typeNames ∧ MethodsPlain i.methods
      ∧ (∀ name ∈ i.typeNames.head?, name.toList.head?.any Char.isDigit = false)
      ∧ (i.typeNames = [] → i.methods = []))
    ⟨fun ⟨hpoints, htypes, hmethods, hfirst, hdeclared⟩ ↦
        ⟨hpoints, htypes, hmethods, hfirst, hdeclared⟩,
      fun h ↦ ⟨h.points, h.types, h.methods, h.first, h.declared⟩⟩

theorem Legible.not_digitFirst {i : Identity} (h : i.Legible) :
    ¬DigitFirst (memberBytes i.typeNames i.methods) := by
  cases hnames : i.typeNames with
  | nil =>
    rw [h.declared hnames]
    exact not_digitFirst_nil
  | cons name names =>
    intro hdigit
    rw [memberBytes_cons] at hdigit
    have hfirst := h.first name (by rw [hnames]; rfl)
    have hname := (h.types name (by rw [hnames]; exact .head _)).1
    rw [isDigit_of_digitFirst hname hdigit] at hfirst
    cases hfirst

/-- Two identities with the same types and methods whose names and versions are one text. -/
structure Alike (i j : Identity) : Prop where
  title : i.name ++ i.version.text = j.name ++ j.version.text
  typeNames : i.typeNames = j.typeNames
  methods : i.methods = j.methods

instance (i j : Identity) : Decidable (i.Alike j) :=
  decidable_of_iff (i.name ++ i.version.text = j.name ++ j.version.text
      ∧ i.typeNames = j.typeNames ∧ i.methods = j.methods)
    ⟨fun ⟨htitle, htypes, hmethods⟩ ↦ ⟨htitle, htypes, hmethods⟩,
      fun h ↦ ⟨h.title, h.typeNames, h.methods⟩⟩

theorem Alike.eq {i j : Identity} (h : i.Alike j) (hname : i.name = j.name) : i = j := by
  obtain ⟨htitle, htypes, hmethods⟩ := h
  rw [hname, String.append_right_inj] at htitle
  cases i
  cases j
  simp only [mk.injEq]
  exact ⟨hname, Version.text_injective htitle, htypes, hmethods⟩

theorem Alike.exists_digits {i j : Identity} (h : i.Alike j) :
    ∃ more : String, (∀ c ∈ more.toList, c.isDigit = true)
      ∧ (j.name = i.name ++ more ∨ i.name = j.name ++ more) := by
  -- what one version has in front of the other holds no point, since both have three
  have hdigits : ∀ {v w : Version} {more : List Char}, v.text.toList = more ++ w.text.toList →
      ∀ c ∈ more, c.isDigit = true := by
    intro v w more hlong c hc
    have hcount := congrArg (List.count '.') hlong
    rw [List.count_append, v.count_text, w.count_text, Nat.right_eq_add,
      List.count_eq_zero] at hcount
    refine v.isDigit_of_mem_text (hlong ▸ List.mem_append_left _ hc) ?_
    rintro rfl
    exact hcount hc
  have hchars := congrArg String.toList h.title
  rw [String.toList_append, String.toList_append] at hchars
  rcases List.append_eq_append_iff.mp hchars with ⟨more, hname, hlong⟩ | ⟨more, hname, hlong⟩
  · refine ⟨String.ofList more, by simpa using hdigits hlong, .inl ?_⟩
    rw [← String.toList_inj, hname, String.toList_append, String.toList_ofList]
  · refine ⟨String.ofList more, by simpa using hdigits hlong, .inr ?_⟩
    rw [← String.toList_inj, hname, String.toList_append, String.toList_ofList]

/-- The bytes of a legible identity show all of it but the place between name and version. -/
theorem Legible.bytes_eq_iff {i j : Identity} (hi : i.Legible) (hj : j.Legible) :
    i.bytes = j.bytes ↔ i.Alike j := by
  constructor
  · intro h
    obtain ⟨htitle, hmembers⟩ :=
      title_inj hi.points hj.points hi.not_digitFirst hj.not_digitFirst h
    obtain ⟨htypes, hmethods⟩ :=
      memberBytes_inj hi.types hj.types hi.methods hj.methods hmembers
    exact ⟨htitle, htypes, hmethods⟩
  · rintro ⟨htitle, htypes, hmethods⟩
    rw [bytes, bytes, ← List.append_assoc, ← List.append_assoc, ← utf8_append, ← utf8_append,
      htitle, htypes, hmethods]

end Identity

end ModuleLinker

import ModuleLinker.Proofs.Identity
import ModuleLinker.Proofs.Stages

/-!
# What digests tell

A content hash is the digest of the bytes of an identity, and the digest of a registry is that of
the content hashes in import order. All content hashes have one length, so their row shows every one
of them. As far as no two of the messages at hand have one digest, equal digests mean equal rows of
bytes, module by module.

What equal bytes mean is another matter. The version stands right behind the name, and nothing ends
the name: `Lib` in version 11.0.0.0 and `Lib1` in version 1.0.0.0 have one content hash. Two
registries are told apart by their digests exactly if the bytes of their modules show where the
parts end, and among legible modules exactly if no two of them differ in that place alone.

The identity of an output is the leading half of the digest of its inputs.
-/

namespace ModuleLinker

namespace Digest

/-- No two messages of a list have one digest. -/
def NoCollision (messages : List (List UInt8)) : Prop :=
  ∀ a ∈ messages, ∀ b ∈ messages, sha256 a = sha256 b → a = b

instance (messages : List (List UInt8)) : Decidable (NoCollision messages) :=
  inferInstanceAs (Decidable (∀ a ∈ messages, ∀ b ∈ messages, _))

end Digest

open Digest (NoCollision sha256 hex)

/-! ## Content hashes

The digest of a registry is taken of content hashes, and those are taken of bytes. Each of the two
steps can be undone where the messages at hand do not collide: all content hashes have one length,
so equal rows have equal parts. -/

theorem Module.identityBytes_eq_of_contentHash {m n : Module}
    (hfree : NoCollision [m.identityBytes, n.identityBytes]) (h : m.contentHash = n.contentHash) :
    m.identityBytes = n.identityBytes :=
  hfree _ (.head _) _ (.tail _ (.head _)) (Digest.hex_injective h)

theorem Module.length_contentHash (m : Module) : m.contentHash.length = 64 := by
  rw [contentHash, Digest.length_hex, Digest.length_sha256]

namespace Registry

/-- The modules of a registry in import order. -/
def modules (r : Registry) : List Module := r.importOrder.map r.module

def identities (r : Registry) : List Identity := r.modules.map Module.identity

/-- What the digest of a registry is taken of. -/
def digested (r : Registry) : List UInt8 := (r.modules.map Module.contentHash).flatMap utf8

/-- All that digests are taken of in a registry. -/
def messages (r : Registry) : List (List UInt8) :=
  r.digested :: r.modules.map Module.identityBytes

variable {r r' : Registry}

theorem combinedHash_eq (r : Registry) : r.combinedHash = hex (sha256 r.digested) := by
  rw [combinedHash, ModuleLinker.combinedHash, digested, modules, List.map_map]
  rfl

theorem identityBytes_mem_messages {m : Module} (hm : m ∈ r.modules) :
    m.identityBytes ∈ r.messages := .tail _ (List.mem_map_of_mem hm)

theorem combinedHash_congr
    (h : r.modules.map Module.identityBytes = r'.modules.map Module.identityBytes) :
    r.combinedHash = r'.combinedHash := by
  have hhashes := map_eq_map_of_forall (g := Module.contentHash)
    (fun m _ n _ heq ↦ by rw [Module.contentHash, heq, Module.contentHash]) h
  rw [combinedHash_eq, combinedHash_eq, digested, hhashes, digested]

/-- Registries of one digest have the same bytes hashed, module by module. -/
theorem map_identityBytes_eq_of_combinedHash (hfree : NoCollision (r.messages ++ r'.messages))
    (h : r.combinedHash = r'.combinedHash) :
    r.modules.map Module.identityBytes = r'.modules.map Module.identityBytes := by
  rw [combinedHash_eq, combinedHash_eq] at h
  have hdigested : r.digested = r'.digested :=
    hfree _ (by simp [messages]) _ (by simp [messages]) (Digest.hex_injective h)
  have hlength : ∀ {r : Registry}, ∀ s ∈ r.modules.map Module.contentHash, s.length = 64 := by
    intro r s hs
    obtain ⟨m, -, rfl⟩ := List.mem_map.mp hs
    exact m.length_contentHash
  have hhashes := flatMap_utf8_inj (by decide) hlength hlength hdigested
  refine map_eq_map_of_forall (fun m hm n hn heq ↦ ?_) hhashes
  exact hfree _ (List.mem_append_left _ (identityBytes_mem_messages hm))
    _ (List.mem_append_right _ (identityBytes_mem_messages hn)) (Digest.hex_injective heq)

/-- Digests tell what modules are: modules with one row of bytes, or with one content hash, have one
identity, and registries with one digest have the same identities in import order. -/
structure DigestsTell (r r' : Registry) : Prop where
  bytes : ∀ m ∈ r.modules, ∀ n ∈ r'.modules,
    m.identityBytes = n.identityBytes → m.identity = n.identity
  content : ∀ m ∈ r.modules, ∀ n ∈ r'.modules,
    NoCollision [m.identityBytes, n.identityBytes] →
      m.contentHash = n.contentHash → m.identity = n.identity
  combined : NoCollision (r.messages ++ r'.messages) →
    r.combinedHash = r'.combinedHash → r.identities = r'.identities

theorem DigestsTell.of_bytes (h : ∀ m ∈ r.modules, ∀ n ∈ r'.modules,
    m.identityBytes = n.identityBytes → m.identity = n.identity) : r.DigestsTell r' where
  bytes := h
  content m hm n hn hfree heq := h m hm n hn (Module.identityBytes_eq_of_contentHash hfree heq)
  combined hfree heq := map_eq_map_of_forall h (map_identityBytes_eq_of_combinedHash hfree heq)

/-- **What digests tell.** Digests tell the modules of two registries exactly if equal bytes always
have their parts in the same places. Where the identities are legible, that is if no two of them are
alike and have different names. -/
theorem digestsTell_iff :
    ((∀ m ∈ r.modules ++ r'.modules, m.identity.Counted) →
        (r.DigestsTell r' ↔ ∀ m ∈ r.modules, ∀ n ∈ r'.modules,
          m.identityBytes = n.identityBytes → m.identity.layout = n.identity.layout))
      ∧ ((∀ m ∈ r.modules ++ r'.modules, m.identity.Legible) →
        (r.DigestsTell r' ↔ ∀ m ∈ r.modules, ∀ n ∈ r'.modules,
          m.identity.Alike n.identity → m.name = n.name)) := by
  have hleft : ∀ {m}, m ∈ r.modules → m ∈ r.modules ++ r'.modules := List.mem_append_left _
  have hright : ∀ {m}, m ∈ r'.modules → m ∈ r.modules ++ r'.modules := List.mem_append_right _
  constructor
  · intro hcounted
    constructor
    · intro h m hm n hn heq
      rw [h.bytes m hm n hn heq]
    · intro h
      refine .of_bytes fun m hm n hn heq ↦ ?_
      have hlayout := h m hm n hn heq
      rw [m.identityBytes_eq, n.identityBytes_eq] at heq
      exact Identity.eq_of_bytes_of_layout (hcounted m (hleft hm)) (hcounted n (hright hn)) heq
        hlayout
  · intro hlegible
    have hbytes : ∀ m ∈ r.modules, ∀ n ∈ r'.modules,
        m.identityBytes = n.identityBytes ↔ m.identity.Alike n.identity := by
      intro m hm n hn
      rw [m.identityBytes_eq, n.identityBytes_eq]
      exact (hlegible m (hleft hm)).bytes_eq_iff (hlegible n (hright hn))
    constructor
    · intro h m hm n hn halike
      exact congrArg Identity.name (h.bytes m hm n hn ((hbytes m hm n hn).mpr halike))
    · intro h
      refine .of_bytes fun m hm n hn heq ↦ ?_
      have halike := (hbytes m hm n hn).mp heq
      exact halike.eq (h m hm n hn halike)

/-- A library in some version, with one routine, and an application that is linked with it. -/
def kit (name : String) (version : Version) : Registry where
  inputs := [
    { isPrimary := false
      module := {
        name, version
        types := [{ nspace := "Kit", name := "Shelf", methods := [⟨0⟩] }]
        methods := [{
          name := "Open", access := .«public», isStatic := false, declaring := ⟨0⟩
          body := some { instructions := [{ opcode := .ret }] } }] } },
    { isPrimary := true, module := { name := "App", version := ⟨1, 0, 0, 0⟩ } }]

/-- `Lib` and `Lib2` are told apart in these versions. -/
theorem digestsTell_kits :
    (kit "Lib" ⟨2, 0, 0, 0⟩).DigestsTell (kit "Lib2" ⟨1, 0, 0, 0⟩)
      ∧ (kit "Lib" ⟨2, 0, 0, 0⟩).combinedHash ≠ (kit "Lib2" ⟨1, 0, 0, 0⟩).combinedHash := by
  have htell : (kit "Lib" ⟨2, 0, 0, 0⟩).DigestsTell (kit "Lib2" ⟨1, 0, 0, 0⟩) :=
    (digestsTell_iff.2 (by decide +kernel)).mpr (by decide +kernel)
  have hfree : NoCollision
      ((kit "Lib" ⟨2, 0, 0, 0⟩).messages ++ (kit "Lib2" ⟨1, 0, 0, 0⟩).messages) := by
    decide +kernel
  have hdifferent : (kit "Lib" ⟨2, 0, 0, 0⟩).identities ≠ (kit "Lib2" ⟨1, 0, 0, 0⟩).identities := by
    decide +kernel
  exact ⟨htell, fun heq ↦ hdifferent (htell.combined hfree heq)⟩

/-- `Lib` in version 11 and `Lib1` in version 1 are taken for one another. -/
theorem not_digestsTell_kits :
    (∀ m ∈ (kit "Lib" ⟨11, 0, 0, 0⟩).modules ++ (kit "Lib1" ⟨1, 0, 0, 0⟩).modules, m.fault? = none)
      ∧ (kit "Lib" ⟨11, 0, 0, 0⟩).combinedHash = (kit "Lib1" ⟨1, 0, 0, 0⟩).combinedHash
      ∧ (kit "Lib" ⟨11, 0, 0, 0⟩).identities ≠ (kit "Lib1" ⟨1, 0, 0, 0⟩).identities
      ∧ ¬(kit "Lib" ⟨11, 0, 0, 0⟩).DigestsTell (kit "Lib1" ⟨1, 0, 0, 0⟩) := by
  have hbytes : (kit "Lib" ⟨11, 0, 0, 0⟩).modules.map Module.identityBytes
      = (kit "Lib1" ⟨1, 0, 0, 0⟩).modules.map Module.identityBytes := by
    decide +kernel
  have hdifferent :
      (kit "Lib" ⟨11, 0, 0, 0⟩).identities ≠ (kit "Lib1" ⟨1, 0, 0, 0⟩).identities := by
    decide +kernel
  exact ⟨by decide +kernel, combinedHash_congr hbytes, hdifferent,
    fun h ↦ hdifferent (map_eq_map_of_forall h.bytes hbytes)⟩

end Registry

/-! ## Identities of outputs -/

/-- The digits of the identity of an output, without the hyphens between them, are the leading ones
of a digest. -/
theorem filter_mvidOfHash {digest : String} (h : '-' ∉ digest.toList) :
    (mvidOfHash digest).toList.filter (· != '-')
      = (digest.toList ++ List.replicate 32 '0').take 32 := by
  have hdigit : ∀ c ∈ (digest.toList ++ List.replicate 32 '0').take 32, (c != '-') = true := by
    intro c hc
    rw [bne_iff_ne]
    rintro rfl
    rcases List.mem_append.mp (List.mem_of_mem_take hc) with hc | hc
    · exact h hc
    · exact absurd (List.eq_of_mem_replicate hc) (by decide)
  have hlength : ((digest.toList ++ List.replicate 32 '0').take 32).length = 32 := by
    simp
  unfold mvidOfHash
  generalize (digest.toList ++ List.replicate 32 '0').take 32 = digits at hdigit hlength ⊢
  have hgroup : ∀ start count, ((digits.drop start).take count).filter (· != '-')
      = (digits.drop start).take count := fun start count ↦
    List.filter_eq_self.mpr fun c hc ↦ hdigit c (List.mem_of_mem_drop (List.mem_of_mem_take hc))
  have hfirst : (digits.take 8).filter (· != '-') = digits.take 8 := hgroup 0 8
  have hall : digits.take (8 + 4 + 4 + 4 + 12) = digits := List.take_of_length_le hlength.le
  rw [List.take_add, List.take_add, List.take_add, List.take_add] at hall
  simpa [hgroup, hfirst] using hall

theorem mvidOfHash_hex_eq_iff {bytes bytes' : List UInt8} (h : bytes.length = 32)
    (h' : bytes'.length = 32) :
    mvidOfHash (hex bytes) = mvidOfHash (hex bytes') ↔ bytes.take 16 = bytes'.take 16 := by
  have hleading : ∀ {bytes : List UInt8}, bytes.length = 32 →
      ((hex bytes).toList ++ List.replicate 32 '0').take 32 = (hex (bytes.take 16)).toList := by
    intro bytes h
    rw [List.take_append_of_le_length (by rw [String.length_toList, Digest.length_hex]; omega)]
    exact Digest.take_hex bytes 16
  constructor
  · intro heq
    have hdigits := congrArg (fun mvid ↦ mvid.toList.filter (· != '-')) heq
    simp only [filter_mvidOfHash (Digest.hyphen_notMem_hex _), hleading h, hleading h'] at hdigits
    exact Digest.hex_injective (String.toList_inj.mp hdigits)
  · intro heq
    simp only [mvidOfHash, hleading h, hleading h', heq]

/-- Two links give their outputs one identity if the digests of their inputs agree in their leading
half. -/
theorem mvid_eq_iff_of_link {settings settings' : Settings} {inputs inputs' : List Input}
    {linked linked' : Linked} {r r' : Registry} (hlink : link settings inputs = .ok linked)
    (hlink' : link settings' inputs' = .ok linked') (hr : Registry.ofInputs inputs = .ok r)
    (hr' : Registry.ofInputs inputs' = .ok r') :
    linked.module.mvid = linked'.module.mvid
      ↔ (sha256 r.digested).take 16 = (sha256 r'.digested).take 16 := by
  have hmvid : ∀ {settings inputs linked r}, link settings inputs = .ok linked →
      Registry.ofInputs inputs = .ok r →
      linked.module.mvid = some (mvidOfHash (hex (sha256 r.digested))) := by
    intro settings inputs linked r hlink hr
    obtain ⟨ctx, s, h⟩ := link_eq_ok_iff.mp hlink
    obtain rfl := Except.ok.inj (hr.symm.trans h.inputs)
    rw [h.module, Registry.combinedHash_eq]
  rw [hmvid hlink hr, hmvid hlink' hr', Option.some_inj]
  exact mvidOfHash_hex_eq_iff (Digest.length_sha256 _) (Digest.length_sha256 _)

end ModuleLinker

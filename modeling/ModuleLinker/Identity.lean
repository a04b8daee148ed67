import ModuleLinker.Digest.Sha256
import ModuleLinker.Image.Names

/-!
# Identity of modules

The content of an input module is summed up in a digest of its name, its version, the names of its
types, and the names of its methods with the lengths of their bodies. The digests of all inputs, the
primary's first, give the identity of the output, so that the same inputs always make the same
module.
-/

namespace ModuleLinker

/-- The bytes of a text in UTF-8. -/
def utf8 (s : String) : List UInt8 := s.toUTF8.toList

/-- A number as eight bytes, least significant first. -/
def littleEndian64 (n : Nat) : List UInt8 :=
  (List.range 8).map fun i ↦ UInt8.ofNat (n >>> (8 * i) % 256)

namespace Module

/-- What the content digest of a module is taken of. -/
def identityBytes (m : Module) : List UInt8 :=
  utf8 m.name ++ utf8 m.version.text
    ++ (m.typeIds.flatMap fun id ↦ utf8 (m.qualifiedName id) ++ [0])
    ++ (m.methods.flatMap fun d ↦
      utf8 d.name ++ littleEndian64 ((d.body.map fun b ↦ b.instructions.length).getD 0))

/-- Digest of the content of a module, in hexadecimal. -/
def contentHash (m : Module) : String := Digest.hex (Digest.sha256 m.identityBytes)

end Module

/-- Digest of several content hashes, in hexadecimal. -/
def combinedHash (hashes : List String) : String :=
  Digest.hex (Digest.sha256 (hashes.flatMap utf8))

/-- The leading 128 bits of a hexadecimal digest, in groups of 8, 4, 4, 4 and 12 digits. -/
def mvidOfHash (digest : String) : String :=
  let digits := (digest.toList ++ List.replicate 32 '0').take 32
  let group (start count : Nat) : String := String.ofList ((digits.drop start).take count)
  "-".intercalate [group 0 8, group 8 4, group 12 4, group 16 4, group 20 12]

end ModuleLinker

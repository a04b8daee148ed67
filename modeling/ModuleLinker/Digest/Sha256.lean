/-!
# SHA-256

The digest of FIPS 180-4 over lists of bytes. A message is padded to whole blocks of sixteen words;
each block is expanded to a schedule of sixty-four words, and the schedule is mixed into a state of
eight words.
-/

namespace ModuleLinker.Digest

/-- The eight words a digest is computed in. -/
structure State where
  a : UInt32
  b : UInt32
  c : UInt32
  d : UInt32
  e : UInt32
  f : UInt32
  g : UInt32
  h : UInt32
deriving DecidableEq

namespace State

/-- Fractional parts of the square roots of the first eight primes. -/
def initial : State :=
  ⟨0x6a09e667, 0xbb67ae85, 0x3c6ef372, 0xa54ff53a, 0x510e527f, 0x9b05688c, 0x1f83d9ab, 0x5be0cd19⟩

def words (s : State) : List UInt32 := [s.a, s.b, s.c, s.d, s.e, s.f, s.g, s.h]

/-- Add two states word by word. -/
def add (s t : State) : State :=
  ⟨s.a + t.a, s.b + t.b, s.c + t.c, s.d + t.d, s.e + t.e, s.f + t.f, s.g + t.g, s.h + t.h⟩

end State

/-- Fractional parts of the cube roots of the first sixty-four primes. -/
def roundConstants : List UInt32 := [
  0x428a2f98, 0x71374491, 0xb5c0fbcf, 0xe9b5dba5, 0x3956c25b, 0x59f111f1, 0x923f82a4, 0xab1c5ed5,
  0xd807aa98, 0x12835b01, 0x243185be, 0x550c7dc3, 0x72be5d74, 0x80deb1fe, 0x9bdc06a7, 0xc19bf174,
  0xe49b69c1, 0xefbe4786, 0x0fc19dc6, 0x240ca1cc, 0x2de92c6f, 0x4a7484aa, 0x5cb0a9dc, 0x76f988da,
  0x983e5152, 0xa831c66d, 0xb00327c8, 0xbf597fc7, 0xc6e00bf3, 0xd5a79147, 0x06ca6351, 0x14292967,
  0x27b70a85, 0x2e1b2138, 0x4d2c6dfc, 0x53380d13, 0x650a7354, 0x766a0abb, 0x81c2c92e, 0x92722c85,
  0xa2bfe8a1, 0xa81a664b, 0xc24b8b70, 0xc76c51a3, 0xd192e819, 0xd6990624, 0xf40e3585, 0x106aa070,
  0x19a4c116, 0x1e376c08, 0x2748774c, 0x34b0bcb5, 0x391c0cb3, 0x4ed8aa4a, 0x5b9cca4f, 0x682e6ff3,
  0x748f82ee, 0x78a5636f, 0x84c87814, 0x8cc70208, 0x90befffa, 0xa4506ceb, 0xbef9a3f7, 0xc67178f2]

private def rotateRight (x : UInt32) (n : UInt32) : UInt32 := (x >>> n) ||| (x <<< (32 - n))

/-! ## Padding -/

/-- A number as bytes, most significant first. -/
def bigEndian (count n : Nat) : List UInt8 :=
  (List.range count).reverse.map fun i ↦ UInt8.ofNat (n >>> (8 * i) % 256)

/-- Append a one bit, zero bits, and the message length in bits as sixty-four bits, so that the
length is a multiple of sixty-four bytes. -/
def pad (message : List UInt8) : List UInt8 :=
  let zeros := (119 - message.length % 64) % 64
  message ++ [0x80] ++ List.replicate zeros 0 ++ bigEndian 8 (message.length * 8)

/-- The words of a padded message; four bytes make one, most significant first. -/
def toWords : List UInt8 → List UInt32
  | b0 :: b1 :: b2 :: b3 :: rest =>
    (b0.toUInt32 <<< 24 ||| b1.toUInt32 <<< 16 ||| b2.toUInt32 <<< 8 ||| b3.toUInt32)
      :: toWords rest
  | _ => []

/-! ## Compression -/

/-- Extend a schedule, newest word first, by a number of words. -/
private def extendSchedule : Nat → List UInt32 → List UInt32
  | 0, newest => newest
  | n + 1, newest =>
    let old := newest.getD 14 0
    let recent := newest.getD 1 0
    let spread := rotateRight old 7 ^^^ rotateRight old 18 ^^^ (old >>> 3)
    let spread' := rotateRight recent 17 ^^^ rotateRight recent 19 ^^^ (recent >>> 10)
    extendSchedule n ((newest.getD 15 0 + spread + newest.getD 6 0 + spread') :: newest)

/-- The sixty-four words that one block mixes in. -/
def schedule (block : List UInt32) : List UInt32 := (extendSchedule 48 block.reverse).reverse

/-- Mix one word, with its round constant, into the state. -/
def mix (s : State) (word constant : UInt32) : State :=
  let spread := rotateRight s.e 6 ^^^ rotateRight s.e 11 ^^^ rotateRight s.e 25
  let choice := (s.e &&& s.f) ^^^ (~~~s.e &&& s.g)
  let t := s.h + spread + choice + constant + word
  let spread' := rotateRight s.a 2 ^^^ rotateRight s.a 13 ^^^ rotateRight s.a 22
  let majority := (s.a &&& s.b) ^^^ (s.a &&& s.c) ^^^ (s.b &&& s.c)
  ⟨t + (spread' + majority), s.a, s.b, s.c, s.d + t, s.e, s.f, s.g⟩

/-- Mix one block into the state. -/
def compress (s : State) (block : List UInt32) : State :=
  s.add (((schedule block).zip roundConstants).foldl (fun s (w, k) ↦ mix s w k) s)

/-- Mix the first `count` blocks of a list of words into the state. -/
private def compressBlocks : (count : Nat) → State → List UInt32 → State
  | 0, s, _ => s
  | n + 1, s, words => compressBlocks n (compress s (words.take 16)) (words.drop 16)

/-- The SHA-256 digest of a message, thirty-two bytes. -/
def sha256 (message : List UInt8) : List UInt8 :=
  let words := toWords (pad message)
  (compressBlocks (words.length / 16) .initial words).words.flatMap fun w ↦ bigEndian 4 w.toNat

/-! ## Text -/

private def hexDigit (n : Nat) : Char := "0123456789abcdef".toList.getD n '0'

/-- Two lower-case hexadecimal digits per byte. -/
def hex (bytes : List UInt8) : String :=
  String.ofList (bytes.flatMap fun b ↦ [hexDigit (b.toNat / 16), hexDigit (b.toNat % 16)])

/-! ## Lengths and digits -/

theorem length_bigEndian (count n : Nat) : (bigEndian count n).length = count := by
  simp [bigEndian]

theorem length_sha256 (message : List UInt8) : (sha256 message).length = 32 := by
  simp [sha256, State.words, length_bigEndian]

theorem length_hex (bytes : List UInt8) : (hex bytes).length = 2 * bytes.length := by
  induction bytes with
  | nil => rfl
  | cons b bytes ih =>
    rw [hex, String.length_ofList] at ih ⊢
    simp only [List.flatMap_cons, List.length_append, List.length_cons, List.length_nil, ih]
    omega

private theorem hexDigit_inj : ∀ i < 16, ∀ j < 16, hexDigit i = hexDigit j → i = j := by
  decide +kernel

theorem hex_injective {bytes bytes' : List UInt8} (h : hex bytes = hex bytes') :
    bytes = bytes' := by
  rw [hex, hex, String.ofList_inj] at h
  induction bytes generalizing bytes' with
  | nil =>
    cases bytes' with
    | nil => rfl
    | cons b' bytes' => simp at h
  | cons b bytes ih =>
    cases bytes' with
    | nil => simp at h
    | cons b' bytes' =>
      simp only [List.flatMap_cons, List.cons_append, List.nil_append, List.cons.injEq] at h
      obtain ⟨hhigh, hlow, hrest⟩ := h
      have hb := b.toNat_lt
      have hb' := b'.toNat_lt
      have hhigh := hexDigit_inj _ (by omega) _ (by omega) hhigh
      have hlow := hexDigit_inj _ (by omega) _ (by omega) hlow
      rw [UInt8.toNat_inj.mp (show b.toNat = b'.toNat by omega), ih hrest]

theorem take_hex (bytes : List UInt8) (count : Nat) :
    (hex bytes).toList.take (2 * count) = (hex (bytes.take count)).toList := by
  simp only [hex, String.toList_ofList]
  induction bytes generalizing count with
  | nil => simp
  | cons b bytes ih =>
    cases count with
    | zero => rfl
    | succ count =>
      simp only [List.flatMap_cons, List.cons_append, List.nil_append, List.take_succ_cons,
        Nat.mul_succ, ih]

private theorem hexDigit_ne : ∀ i < 16, hexDigit i ≠ '-' := by
  decide +kernel

theorem hyphen_notMem_hex (bytes : List UInt8) : '-' ∉ (hex bytes).toList := by
  intro h
  rw [hex, String.toList_ofList, List.mem_flatMap] at h
  obtain ⟨b, -, hdigit⟩ := h
  have hb := b.toNat_lt
  simp only [List.mem_cons, List.not_mem_nil, or_false] at hdigit
  rcases hdigit with hhigh | hlow
  · exact hexDigit_ne _ (by omega) hhigh.symm
  · exact hexDigit_ne _ (by omega) hlow.symm

end ModuleLinker.Digest

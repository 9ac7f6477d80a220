import Checklist.Text.Utf8

/-! # SHA-256

The digest of a message of octets: the padded message is cut into blocks of sixteen words, and each
block is mixed into a state of eight words in sixty-four rounds. Main statements: a padded message
is whole blocks (`length_pad`), and a digest has thirty-two octets (`length_digest`). -/

namespace Checklist.Sha256
set_option autoImplicit false

/-- The eight words that a message is mixed into. -/
structure State where
  a : UInt32
  b : UInt32
  c : UInt32
  d : UInt32
  e : UInt32
  f : UInt32
  g : UInt32
  h : UInt32
  deriving DecidableEq, Repr

/-- The start: fractions of the square roots of the first eight primes. -/
def start : State :=
  ⟨0x6a09e667, 0xbb67ae85, 0x3c6ef372, 0xa54ff53a, 0x510e527f, 0x9b05688c, 0x1f83d9ab, 0x5be0cd19⟩

/-- A word for each round: fractions of the cube roots of the first sixty-four primes. -/
def roundWords : List UInt32 :=
  [0x428a2f98, 0x71374491, 0xb5c0fbcf, 0xe9b5dba5, 0x3956c25b, 0x59f111f1, 0x923f82a4, 0xab1c5ed5,
   0xd807aa98, 0x12835b01, 0x243185be, 0x550c7dc3, 0x72be5d74, 0x80deb1fe, 0x9bdc06a7, 0xc19bf174,
   0xe49b69c1, 0xefbe4786, 0x0fc19dc6, 0x240ca1cc, 0x2de92c6f, 0x4a7484aa, 0x5cb0a9dc, 0x76f988da,
   0x983e5152, 0xa831c66d, 0xb00327c8, 0xbf597fc7, 0xc6e00bf3, 0xd5a79147, 0x06ca6351, 0x14292967,
   0x27b70a85, 0x2e1b2138, 0x4d2c6dfc, 0x53380d13, 0x650a7354, 0x766a0abb, 0x81c2c92e, 0x92722c85,
   0xa2bfe8a1, 0xa81a664b, 0xc24b8b70, 0xc76c51a3, 0xd192e819, 0xd6990624, 0xf40e3585, 0x106aa070,
   0x19a4c116, 0x1e376c08, 0x2748774c, 0x34b0bcb5, 0x391c0cb3, 0x4ed8aa4a, 0x5b9cca4f, 0x682e6ff3,
   0x748f82ee, 0x78a5636f, 0x84c87814, 0x8cc70208, 0x90befffa, 0xa4506ceb, 0xbef9a3f7, 0xc67178f2]

/-! ## Words -/

def turn (w : UInt32) (count : UInt32) : UInt32 :=
  (w >>> count) ||| (w <<< (32 - count))

/-- A word as four octets, the highest first. -/
def octetsOf (w : UInt32) : List UInt8 :=
  [(w >>> 24).toUInt8, (w >>> 16).toUInt8, (w >>> 8).toUInt8, w.toUInt8]

/-- The words that octets make up, four octets each. -/
def wordsOf : List UInt8 → List UInt32
  | a :: b :: c :: d :: rest =>
    ((a.toUInt32 <<< 24) ||| (b.toUInt32 <<< 16) ||| (c.toUInt32 <<< 8) ||| d.toUInt32) ::
      wordsOf rest
  | _ => []

/-! ## Blocks -/

/-- The length of a message in bits, as eight octets. -/
def lengthOctets (count : Nat) : List UInt8 :=
  octetsOf (UInt32.ofNat (8 * count / 4294967296)) ++ octetsOf (UInt32.ofNat (8 * count))

/-- A message with a set bit, zeros, and its length behind it. -/
def pad (message : List UInt8) : List UInt8 :=
  message ++
    0x80 :: (List.replicate ((119 - message.length % 64) % 64) 0 ++ lengthOctets message.length)

/-- Sixteen words each; a rest that is shorter is dropped. -/
def blocks (words : List UInt32) : List (List UInt32) :=
  match _h : words.drop 15 with
  | [] => []
  | _ :: rest => words.take 16 :: blocks rest
termination_by words.length
decreasing_by
  have hlength := congrArg List.length _h
  simp at hlength
  omega

/-- The word that follows sixteen others in a schedule. -/
def follow (window : List UInt32) : UInt32 :=
  let low := window.getD 1 0
  let high := window.getD 14 0
  (turn low 7 ^^^ turn low 18 ^^^ (low >>> 3)) + (turn high 17 ^^^ turn high 19 ^^^ (high >>> 10)) +
    window.getD 0 0 + window.getD 9 0

/-- As many words of a schedule as asked for, from the sixteen it begins with. -/
def schedule : Nat → List UInt32 → List UInt32
  | 0, _ => []
  | count + 1, window => window.getD 0 0 :: schedule count (window.tail ++ [follow window])

/-! ## Mixing -/

/-- A round with the sum of its word and the word of the schedule. -/
def round (s : State) (word : UInt32) : State :=
  let first :=
    s.h + (turn s.e 6 ^^^ turn s.e 11 ^^^ turn s.e 25) + ((s.e &&& s.f) ^^^ (~~~s.e &&& s.g)) + word
  let second := (turn s.a 2 ^^^ turn s.a 13 ^^^ turn s.a 22) +
    ((s.a &&& s.b) ^^^ (s.a &&& s.c) ^^^ (s.b &&& s.c))
  ⟨first + second, s.a, s.b, s.c, s.d + first, s.e, s.f, s.g⟩

def mix (s : State) (block : List UInt32) : State :=
  let t := (List.zipWith (· + ·) roundWords (schedule 64 block)).foldl round s
  ⟨s.a + t.a, s.b + t.b, s.c + t.c, s.d + t.d, s.e + t.e, s.f + t.f, s.g + t.g, s.h + t.h⟩

def State.words (s : State) : List UInt32 :=
  [s.a, s.b, s.c, s.d, s.e, s.f, s.g, s.h]

def digest (message : List UInt8) : List UInt8 :=
  ((blocks (wordsOf (pad message))).foldl mix start).words.flatMap octetsOf

def hexDigit (n : Nat) : Char :=
  Nat.digitChar (n % 16)

def hexDigest (message : List UInt8) : Text :=
  (digest message).flatMap fun octet => [hexDigit (octet.toNat / 16), hexDigit octet.toNat]

theorem length_pad (message : List UInt8) : (pad message).length % 64 = 0 := by
  simp [pad, lengthOctets, octetsOf]
  omega

theorem length_digest (message : List UInt8) : (digest message).length = 32 := by
  simp [digest, State.words, octetsOf]

theorem length_hexDigest (message : List UInt8) : (hexDigest message).length = 64 := by
  have h : ∀ octets : List UInt8,
      (octets.flatMap fun octet => [hexDigit (octet.toNat / 16), hexDigit octet.toNat]).length =
          2 * octets.length := by
    intro octets
    induction octets with
    | nil => rfl
    | cons octet octets ih => simp only [List.flatMap_cons, List.length_append, ih]; simp; omega
  rw [hexDigest, h, length_digest]

end Checklist.Sha256

/-!
SHA-256: a byte list is padded to whole blocks of 64 bytes, and each block is compressed into a
chaining value of eight 32-bit words.
-/

set_option autoImplicit false

namespace MaterialGraph

/-- A chaining value, and at the end the digest. -/
structure Digest where
  a : UInt32
  b : UInt32
  c : UInt32
  d : UInt32
  e : UInt32
  f : UInt32
  g : UInt32
  h : UInt32
deriving DecidableEq, Repr, Inhabited

namespace Digest

def words (digest : Digest) : List UInt32 :=
  [digest.a, digest.b, digest.c, digest.d, digest.e, digest.f, digest.g, digest.h]

/-- The bytes of a word, most significant first. -/
def bytesOfWord (word : UInt32) : List UInt8 :=
  [(word >>> 24).toUInt8, (word >>> 16).toUInt8, (word >>> 8).toUInt8, word.toUInt8]

def bytes (digest : Digest) : List UInt8 := digest.words.flatMap bytesOfWord

theorem bytes_length (digest : Digest) : digest.bytes.length = 32 := rfl

def hexDigit (value : Nat) : Char :=
  if value < 10 then Char.ofNat (48 + value) else Char.ofNat (87 + value)

def hex (digest : Digest) : String :=
  String.ofList (digest.bytes.flatMap fun byte =>
    [hexDigit (byte.toNat / 16), hexDigit (byte.toNat % 16)])

end Digest

namespace Sha256

def roundConstants : List UInt32 :=
  [0x428a2f98, 0x71374491, 0xb5c0fbcf, 0xe9b5dba5, 0x3956c25b, 0x59f111f1, 0x923f82a4, 0xab1c5ed5,
    0xd807aa98, 0x12835b01, 0x243185be, 0x550c7dc3, 0x72be5d74, 0x80deb1fe, 0x9bdc06a7, 0xc19bf174,
    0xe49b69c1, 0xefbe4786, 0x0fc19dc6, 0x240ca1cc, 0x2de92c6f, 0x4a7484aa, 0x5cb0a9dc, 0x76f988da,
    0x983e5152, 0xa831c66d, 0xb00327c8, 0xbf597fc7, 0xc6e00bf3, 0xd5a79147, 0x06ca6351, 0x14292967,
    0x27b70a85, 0x2e1b2138, 0x4d2c6dfc, 0x53380d13, 0x650a7354, 0x766a0abb, 0x81c2c92e, 0x92722c85,
    0xa2bfe8a1, 0xa81a664b, 0xc24b8b70, 0xc76c51a3, 0xd192e819, 0xd6990624, 0xf40e3585, 0x106aa070,
    0x19a4c116, 0x1e376c08, 0x2748774c, 0x34b0bcb5, 0x391c0cb3, 0x4ed8aa4a, 0x5b9cca4f, 0x682e6ff3,
    0x748f82ee, 0x78a5636f, 0x84c87814, 0x8cc70208, 0x90befffa, 0xa4506ceb, 0xbef9a3f7, 0xc67178f2]

def initial : Digest :=
  ⟨0x6a09e667, 0xbb67ae85, 0x3c6ef372, 0xa54ff53a, 0x510e527f, 0x9b05688c, 0x1f83d9ab, 0x5be0cd19⟩

def rotateRight (word : UInt32) (count : UInt32) : UInt32 :=
  (word >>> count) ||| (word <<< (32 - count))

/-- The message length in bits, as eight bytes, most significant first. -/
def lengthBytes (length : Nat) : List UInt8 :=
  (List.range 8).map fun position => UInt8.ofNat (8 * length / Nat.pow 256 (7 - position))

/-- The message, a one bit, zeros up to eight bytes short of a block, and the length. -/
def pad (message : List UInt8) : List UInt8 :=
  message ++ 0x80 :: (List.replicate ((119 - message.length % 64) % 64) 0 ++
    lengthBytes message.length)

/-- Words of a block, most significant byte first. -/
def blockWords : List UInt8 → List UInt32
  | a :: b :: c :: d :: rest =>
      ((a.toUInt32 <<< 24) ||| (b.toUInt32 <<< 16) ||| (c.toUInt32 <<< 8) ||| d.toUInt32) ::
        blockWords rest
  | _ => []

/-- Each later word of the message schedule is made of four of the sixteen before it. -/
def nextWord (window : List UInt32) : UInt32 :=
  match window with
  | [w0, w1, _, _, _, _, _, _, _, w9, _, _, _, _, w14, _] =>
      let s0 := rotateRight w1 7 ^^^ rotateRight w1 18 ^^^ (w1 >>> 3)
      let s1 := rotateRight w14 17 ^^^ rotateRight w14 19 ^^^ (w14 >>> 10)
      w0 + s0 + w9 + s1
  | _ => 0

def mix (state : Digest) (constant word : UInt32) : Digest :=
  let s1 := rotateRight state.e 6 ^^^ rotateRight state.e 11 ^^^ rotateRight state.e 25
  let choice := (state.e &&& state.f) ^^^ ((~~~ state.e) &&& state.g)
  let first := state.h + s1 + choice + constant + word
  let s0 := rotateRight state.a 2 ^^^ rotateRight state.a 13 ^^^ rotateRight state.a 22
  let majority := (state.a &&& state.b) ^^^ (state.a &&& state.c) ^^^ (state.b &&& state.c)
  ⟨first + (s0 + majority), state.a, state.b, state.c, state.d + first, state.e, state.f, state.g⟩

/-- The rounds of a block: the window holds the next sixteen words of the message schedule. -/
def rounds : List UInt32 → List UInt32 → Digest → Digest
  | [], _, state => state
  | constant :: constants, window, state =>
      match window with
      | [] => state
      | word :: rest =>
          rounds constants (rest ++ [nextWord window]) (mix state constant word)

def compress (state : Digest) (block : List UInt8) : Digest :=
  let mixed := rounds roundConstants (blockWords block) state
  ⟨state.a + mixed.a, state.b + mixed.b, state.c + mixed.c, state.d + mixed.d,
    state.e + mixed.e, state.f + mixed.f, state.g + mixed.g, state.h + mixed.h⟩

/-- Compresses a padded message block by block. -/
def compressAll (state : Digest) (message : List UInt8) : Digest :=
  if message.length < 64 then state
  else compressAll (compress state (message.take 64)) (message.drop 64)
termination_by message.length
decreasing_by simp; omega

def digest (message : List UInt8) : Digest := compressAll initial (pad message)

end Sha256

end MaterialGraph

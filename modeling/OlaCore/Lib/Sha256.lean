import Mathlib.Data.List.Basic
import OlaCore.Lib.Bytes

set_option relaxedAutoImplicit false
set_option autoImplicit false

/-!
# SHA-256 and HMAC-SHA256

An executable SHA-256 on byte strings, and the keyed hash HMAC built on it. Statements about
programs that hash take the hash function as a parameter; the functions here are the concrete
instances at which such statements are evaluated.

The message schedule is kept as a sliding window of sixteen words: word `t + 16` is computed
when word `t` is consumed.

## Main definitions

* `Sha256.digest` — the 32-byte digest of a message.
* `Sha256.hmac` — HMAC-SHA256 under a key.
-/

namespace Sha256

open ByteText

/-- A 256-bit digest. -/
abbrev Digest := Vector UInt8 32

/-- The round constants. -/
def roundConstants : List (BitVec 32) :=
  [0x428a2f98, 0x71374491, 0xb5c0fbcf, 0xe9b5dba5, 0x3956c25b, 0x59f111f1, 0x923f82a4, 0xab1c5ed5,
   0xd807aa98, 0x12835b01, 0x243185be, 0x550c7dc3, 0x72be5d74, 0x80deb1fe, 0x9bdc06a7, 0xc19bf174,
   0xe49b69c1, 0xefbe4786, 0x0fc19dc6, 0x240ca1cc, 0x2de92c6f, 0x4a7484aa, 0x5cb0a9dc, 0x76f988da,
   0x983e5152, 0xa831c66d, 0xb00327c8, 0xbf597fc7, 0xc6e00bf3, 0xd5a79147, 0x06ca6351, 0x14292967,
   0x27b70a85, 0x2e1b2138, 0x4d2c6dfc, 0x53380d13, 0x650a7354, 0x766a0abb, 0x81c2c92e, 0x92722c85,
   0xa2bfe8a1, 0xa81a664b, 0xc24b8b70, 0xc76c51a3, 0xd192e819, 0xd6990624, 0xf40e3585, 0x106aa070,
   0x19a4c116, 0x1e376c08, 0x2748774c, 0x34b0bcb5, 0x391c0cb3, 0x4ed8aa4a, 0x5b9cca4f, 0x682e6ff3,
   0x748f82ee, 0x78a5636f, 0x84c87814, 0x8cc70208, 0x90befffa, 0xa4506ceb, 0xbef9a3f7, 0xc67178f2]

/-- The eight working variables, also the chaining value between blocks. -/
structure State where
  a : BitVec 32
  b : BitVec 32
  c : BitVec 32
  d : BitVec 32
  e : BitVec 32
  f : BitVec 32
  g : BitVec 32
  h : BitVec 32

/-- The initial chaining value. -/
def State.initial : State :=
  ⟨0x6a09e667, 0xbb67ae85, 0x3c6ef372, 0xa54ff53a, 0x510e527f, 0x9b05688c, 0x1f83d9ab, 0x5be0cd19⟩

/-- Wordwise addition, which folds the working variables into the chaining value. -/
def State.add (s t : State) : State :=
  ⟨s.a + t.a, s.b + t.b, s.c + t.c, s.d + t.d, s.e + t.e, s.f + t.f, s.g + t.g, s.h + t.h⟩

/-- One round with constant `k` and schedule word `w`. -/
def State.round (s : State) (k w : BitVec 32) : State :=
  let bigSigma1 := s.e.rotateRight 6 ^^^ s.e.rotateRight 11 ^^^ s.e.rotateRight 25
  let choose := (s.e &&& s.f) ^^^ (~~~s.e &&& s.g)
  let t1 := s.h + bigSigma1 + choose + k + w
  let bigSigma0 := s.a.rotateRight 2 ^^^ s.a.rotateRight 13 ^^^ s.a.rotateRight 22
  let majority := (s.a &&& s.b) ^^^ (s.a &&& s.c) ^^^ (s.b &&& s.c)
  ⟨t1 + (bigSigma0 + majority), s.a, s.b, s.c, s.d + t1, s.e, s.f, s.g⟩

/-- The schedule word sixteen places after `w0`, from the window that starts at `w0`. -/
def nextWord (w0 w1 w9 w14 : BitVec 32) : BitVec 32 :=
  let sigma0 := w1.rotateRight 7 ^^^ w1.rotateRight 18 ^^^ (w1 >>> 3)
  let sigma1 := w14.rotateRight 17 ^^^ w14.rotateRight 19 ^^^ (w14 >>> 10)
  w0 + sigma0 + w9 + sigma1

/-- The rounds of one block: consume the window's first word, append the next schedule word. -/
def rounds : List (BitVec 32) → List (BitVec 32) → State → State
  | k :: ks, [w0, w1, w2, w3, w4, w5, w6, w7, w8, w9, w10, w11, w12, w13, w14, w15], s =>
    rounds ks
      [w1, w2, w3, w4, w5, w6, w7, w8, w9, w10, w11, w12, w13, w14, w15, nextWord w0 w1 w9 w14]
      (s.round k w0)
  | _, _, s => s

/-- Bytes read as big-endian words. -/
def words : Bytes → List (BitVec 32)
  | a :: b :: c :: d :: rest =>
    BitVec.ofNat 32 (((a.toNat * 256 + b.toNat) * 256 + c.toNat) * 256 + d.toNat) :: words rest
  | _ => []

/-- The `n` low bytes of `v`, most significant first. -/
def bigEndian : ℕ → ℕ → Bytes
  | 0, _ => []
  | n + 1, v => bigEndian n (v / 256) ++ [UInt8.ofNat v]

/-- Message padding: a one bit, zeros, and the length in bits, to a multiple of 64 bytes. -/
def pad (m : Bytes) : Bytes :=
  m ++ 0x80 :: List.replicate ((119 - m.length % 64) % 64) 0 ++ bigEndian 8 (8 * m.length)

/-- Absorb `n` blocks of sixteen words. -/
def absorb : ℕ → List (BitVec 32) → State → State
  | 0, _, s => s
  | n + 1, ws, s => absorb n (ws.drop 16) (s.add (rounds roundConstants (ws.take 16) s))

@[simp] theorem length_bigEndian (n v : ℕ) : (bigEndian n v).length = n := by
  induction n generalizing v with
  | zero => rfl
  | succ n ih => simp [bigEndian, ih]

/-- The bytes of a chaining value. -/
def State.toBytes (s : State) : Bytes :=
  [s.a, s.b, s.c, s.d, s.e, s.f, s.g, s.h].flatMap fun w => bigEndian 4 w.toNat

/-- A chaining value has 32 bytes. -/
theorem State.length_toBytes (s : State) : s.toBytes.length = 32 := by
  simp [State.toBytes]

/-- **SHA-256** of a message. -/
def digest (m : Bytes) : Digest :=
  let ws := words (pad m)
  let s := absorb (ws.length / 16) ws State.initial
  ⟨s.toBytes.toArray, by simp [State.length_toBytes]⟩

example : (digest (utf8 "abc")).toList =
    [0xba, 0x78, 0x16, 0xbf, 0x8f, 0x01, 0xcf, 0xea, 0x41, 0x41, 0x40, 0xde, 0x5d, 0xae, 0x22, 0x23,
     0xb0, 0x03, 0x61, 0xa3, 0x96, 0x17, 0x7a, 0x9c, 0xb4, 0x10, 0xff, 0x61, 0xf2, 0x00, 0x15,
      0xad] := by
  decide +kernel

/-- **HMAC-SHA256** of a message under a key. -/
def hmac (key m : Bytes) : Digest :=
  let key := if key.length ≤ 64 then key else (digest key).toList
  let block := key ++ List.replicate (64 - key.length) 0
  digest (block.map (· ^^^ 0x5c) ++ (digest (block.map (· ^^^ 0x36) ++ m)).toList)

end Sha256

/-!
Seals. The seal of a description is its digest in hexadecimal, taken together
with a fixed domain so that it is good for nothing but sealing.

The digest is SHA-256. A message is padded to whole blocks of sixteen words; each
block is mixed into a chaining state by sixty-four rounds, while a window of
sixteen words slides along the block's message schedule.
-/

namespace Clausal.Sha256

abbrev Word := UInt32

def rotate (word : Word) (amount : Word) : Word :=
  (word >>> amount) ||| (word <<< (32 - amount))

def bigSigma0 (word : Word) : Word := rotate word 2 ^^^ rotate word 13 ^^^ rotate word 22

def bigSigma1 (word : Word) : Word := rotate word 6 ^^^ rotate word 11 ^^^ rotate word 25

def smallSigma0 (word : Word) : Word := rotate word 7 ^^^ rotate word 18 ^^^ (word >>> 3)

def smallSigma1 (word : Word) : Word := rotate word 17 ^^^ rotate word 19 ^^^ (word >>> 10)

def choose (x y z : Word) : Word := (x &&& y) ^^^ (~~~x &&& z)

def majority (x y z : Word) : Word := (x &&& y) ^^^ (x &&& z) ^^^ (y &&& z)

structure State where
  a : Word
  b : Word
  c : Word
  d : Word
  e : Word
  f : Word
  g : Word
  h : Word
  deriving DecidableEq

def State.words (state : State) : List Word :=
  [state.a, state.b, state.c, state.d, state.e, state.f, state.g, state.h]

def State.add (first second : State) : State :=
  ⟨first.a + second.a, first.b + second.b, first.c + second.c, first.d + second.d,
    first.e + second.e, first.f + second.f, first.g + second.g, first.h + second.h⟩

def initial : State :=
  ⟨0x6a09e667, 0xbb67ae85, 0x3c6ef372, 0xa54ff53a, 0x510e527f, 0x9b05688c, 0x1f83d9ab, 0x5be0cd19⟩

/-- One constant for each round. -/
def constants : List Word :=
  [0x428a2f98, 0x71374491, 0xb5c0fbcf, 0xe9b5dba5, 0x3956c25b, 0x59f111f1, 0x923f82a4, 0xab1c5ed5,
   0xd807aa98, 0x12835b01, 0x243185be, 0x550c7dc3, 0x72be5d74, 0x80deb1fe, 0x9bdc06a7, 0xc19bf174,
   0xe49b69c1, 0xefbe4786, 0x0fc19dc6, 0x240ca1cc, 0x2de92c6f, 0x4a7484aa, 0x5cb0a9dc, 0x76f988da,
   0x983e5152, 0xa831c66d, 0xb00327c8, 0xbf597fc7, 0xc6e00bf3, 0xd5a79147, 0x06ca6351, 0x14292967,
   0x27b70a85, 0x2e1b2138, 0x4d2c6dfc, 0x53380d13, 0x650a7354, 0x766a0abb, 0x81c2c92e, 0x92722c85,
   0xa2bfe8a1, 0xa81a664b, 0xc24b8b70, 0xc76c51a3, 0xd192e819, 0xd6990624, 0xf40e3585, 0x106aa070,
   0x19a4c116, 0x1e376c08, 0x2748774c, 0x34b0bcb5, 0x391c0cb3, 0x4ed8aa4a, 0x5b9cca4f, 0x682e6ff3,
   0x748f82ee, 0x78a5636f, 0x84c87814, 0x8cc70208, 0x90befffa, 0xa4506ceb, 0xbef9a3f7, 0xc67178f2]

def round (state : State) (constant message : Word) : State :=
  let first := state.h + bigSigma1 state.e + choose state.e state.f state.g + constant + message
  let second := bigSigma0 state.a + majority state.a state.b state.c
  ⟨first + second, state.a, state.b, state.c, state.d + first, state.e, state.f, state.g⟩

/-- Moves the window on by one word of the message schedule. -/
def slide (window : List Word) : List Word :=
  let next := smallSigma1 (window.getD 14 0) + window.getD 9 0 +
    smallSigma0 (window.getD 1 0) + window.getD 0 0
  window.drop 1 ++ [next]

/-- Runs one round for each constant. -/
def rounds : List Word → State → List Word → State
  | [], state, _ => state
  | constant :: rest, state, window =>
      rounds rest (round state constant (window.getD 0 0)) (slide window)

def compress (state : State) (block : List Word) : State :=
  state.add (rounds constants state block)

/-- The bytes of a number with the most significant one first. -/
def bigEndian (width : Nat) (value : Nat) : List UInt8 :=
  (List.range width).reverse.map fun index => UInt8.ofNat (value / Nat.pow 256 index)

/-- A closing bit, zeros up to the end of a block, and the length in bits. -/
def pad (message : List UInt8) : List UInt8 :=
  let zeros := (119 - message.length % 64) % 64
  message ++ 0x80 :: (List.replicate zeros 0 ++ bigEndian 8 (8 * message.length))

def words : List UInt8 → List Word
  | a :: b :: c :: d :: rest =>
      ((a.toUInt32 <<< 24) ||| (b.toUInt32 <<< 16) ||| (c.toUInt32 <<< 8) ||| d.toUInt32) ::
        words rest
  | _ => []

/-- Cuts off so many blocks of sixteen words. -/
def blocks : Nat → List Word → List (List Word)
  | 0, _ => []
  | count + 1, words => words.take 16 :: blocks count (words.drop 16)

def digest (message : List UInt8) : List UInt8 :=
  let schedule := words (pad message)
  let final := (blocks (schedule.length / 16) schedule).foldl compress initial
  final.words.flatMap fun word => bigEndian 4 word.toNat

end Clausal.Sha256

namespace Clausal.Seal

def domain : String := "kalkulus-state-seal-v1|"

def hexByte (byte : UInt8) : List Char :=
  [(byte.toNat / 16).digitChar.toUpper, (byte.toNat % 16).digitChar.toUpper]

/-- The seal of a description. -/
def ofBasis (basis : String) : String :=
  String.ofList ((Sha256.digest (domain ++ basis).toUTF8.toList).flatMap hexByte)

end Clausal.Seal

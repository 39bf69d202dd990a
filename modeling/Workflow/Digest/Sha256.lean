import Workflow.Text.Hex
/-!
SHA-256. A message is a list of bytes, a block sixteen words, and the chaining state eight words.
-/

namespace Workflow.Sha256

structure Chain where
  a : UInt32
  b : UInt32
  c : UInt32
  d : UInt32
  e : UInt32
  f : UInt32
  g : UInt32
  h : UInt32
  deriving DecidableEq

def initial : Chain :=
  { a := 0x6a09e667
    b := 0xbb67ae85
    c := 0x3c6ef372
    d := 0xa54ff53a
    e := 0x510e527f
    f := 0x9b05688c
    g := 0x1f83d9ab
    h := 0x5be0cd19 }

def roundConstants : List UInt32 :=
  [0x428a2f98, 0x71374491, 0xb5c0fbcf, 0xe9b5dba5, 0x3956c25b, 0x59f111f1, 0x923f82a4, 0xab1c5ed5,
    0xd807aa98, 0x12835b01, 0x243185be, 0x550c7dc3, 0x72be5d74, 0x80deb1fe, 0x9bdc06a7, 0xc19bf174,
    0xe49b69c1, 0xefbe4786, 0x0fc19dc6, 0x240ca1cc, 0x2de92c6f, 0x4a7484aa, 0x5cb0a9dc, 0x76f988da,
    0x983e5152, 0xa831c66d, 0xb00327c8, 0xbf597fc7, 0xc6e00bf3, 0xd5a79147, 0x06ca6351, 0x14292967,
    0x27b70a85, 0x2e1b2138, 0x4d2c6dfc, 0x53380d13, 0x650a7354, 0x766a0abb, 0x81c2c92e, 0x92722c85,
    0xa2bfe8a1, 0xa81a664b, 0xc24b8b70, 0xc76c51a3, 0xd192e819, 0xd6990624, 0xf40e3585, 0x106aa070,
    0x19a4c116, 0x1e376c08, 0x2748774c, 0x34b0bcb5, 0x391c0cb3, 0x4ed8aa4a, 0x5b9cca4f, 0x682e6ff3,
    0x748f82ee, 0x78a5636f, 0x84c87814, 0x8cc70208, 0x90befffa, 0xa4506ceb, 0xbef9a3f7, 0xc67178f2]

def rotateRight (x n : UInt32) : UInt32 :=
  x >>> n ||| x <<< (32 - n)

/-- The word that follows sixteen words of the message schedule, the latest first. -/
def nextWord (latest : List UInt32) : UInt32 :=
  let w2 := latest.getD 1 0
  let w7 := latest.getD 6 0
  let w15 := latest.getD 14 0
  let w16 := latest.getD 15 0
  let s0 := rotateRight w15 7 ^^^ rotateRight w15 18 ^^^ w15 >>> 3
  let s1 := rotateRight w2 17 ^^^ rotateRight w2 19 ^^^ w2 >>> 10
  w16 + s0 + w7 + s1

/-- The schedule grown by a number of words. The latest word comes first. -/
def growSchedule : Nat → List UInt32 → List UInt32
  | 0, latest => latest
  | n + 1, latest => growSchedule n (nextWord latest :: latest)

def schedule (block : List UInt32) : List UInt32 :=
  (growSchedule 48 block.reverse).reverse

def round (x : Chain) (constant word : UInt32) : Chain :=
  let s1 := rotateRight x.e 6 ^^^ rotateRight x.e 11 ^^^ rotateRight x.e 25
  let choice := x.e &&& x.f ^^^ ~~~x.e &&& x.g
  let t1 := x.h + s1 + choice + constant + word
  let s0 := rotateRight x.a 2 ^^^ rotateRight x.a 13 ^^^ rotateRight x.a 22
  let majority := x.a &&& x.b ^^^ x.a &&& x.c ^^^ x.b &&& x.c
  { a := t1 + (s0 + majority)
    b := x.a
    c := x.b
    d := x.c
    e := x.d + t1
    f := x.e
    g := x.f
    h := x.g }

def compress (chain : Chain) (block : List UInt32) : Chain :=
  let last := (roundConstants.zip (schedule block)).foldl
    (fun x (constant, word) => round x constant word) chain
  { a := chain.a + last.a
    b := chain.b + last.b
    c := chain.c + last.c
    d := chain.d + last.d
    e := chain.e + last.e
    f := chain.f + last.f
    g := chain.g + last.g
    h := chain.h + last.h }

/-- The big-endian bytes of a number below `256 ^ count`. -/
def bytesOf : (count : Nat) → Nat → List UInt8
  | 0, _ => []
  | count + 1, n => bytesOf count (n / 256) ++ [(n % 256).toUInt8]

/-- The message with a one bit, zeros up to eight bytes short of a whole block, and its length. -/
def pad (message : List UInt8) : List UInt8 :=
  let zeros := (119 - message.length % 64) % 64
  message ++ 0x80 :: List.replicate zeros 0 ++ bytesOf 8 (8 * message.length)

/-- The big-endian words of a list of bytes. -/
def words : List UInt8 → List UInt32
  | a :: b :: c :: d :: rest =>
    (a.toUInt32 <<< 24 ||| b.toUInt32 <<< 16 ||| c.toUInt32 <<< 8 ||| d.toUInt32) :: words rest
  | _ => []

def compressBlocks : (count : Nat) → List UInt32 → Chain → Chain
  | 0, _, chain => chain
  | count + 1, words, chain => compressBlocks count (words.drop 16) (compress chain (words.take 16))

def digest (message : List UInt8) : List UInt32 :=
  let padded := words (pad message)
  let chain := compressBlocks (padded.length / 16) padded initial
  [chain.a, chain.b, chain.c, chain.d, chain.e, chain.f, chain.g, chain.h]

/-- The digest of a text's UTF-8 bytes as lower-case hexadecimal digits. -/
def hexDigest (text : String) : String :=
  String.ofList ((digest text.toUTF8.toList).flatMap fun word => Text.hexDigits 8 word.toNat)

end Workflow.Sha256

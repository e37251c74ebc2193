import CrashCore.Library.Blocks

/-! SHA-256 as the model loader computes it (`pe/ml/ml_sha256.hpp`, `src/ml/ml_sha256.cpp`). Of the buffer the part that
is in use is kept. A file is its bytes. -/

namespace CrashCore.Pe

/-- The eight words of `state_`. -/
structure HashState where
  a : UInt32 := 0x6a09e667
  b : UInt32 := 0xbb67ae85
  c : UInt32 := 0x3c6ef372
  d : UInt32 := 0xa54ff53a
  e : UInt32 := 0x510e527f
  f : UInt32 := 0x9b05688c
  g : UInt32 := 0x1f83d9ab
  h : UInt32 := 0x5be0cd19
deriving DecidableEq

namespace Sha256

def rotr (x n : UInt32) : UInt32 := (x >>> n) ||| (x <<< (32 - n))

def K : List UInt32 := [
  0x428a2f98, 0x71374491, 0xb5c0fbcf, 0xe9b5dba5, 0x3956c25b, 0x59f111f1, 0x923f82a4, 0xab1c5ed5,
  0xd807aa98, 0x12835b01, 0x243185be, 0x550c7dc3, 0x72be5d74, 0x80deb1fe, 0x9bdc06a7, 0xc19bf174,
  0xe49b69c1, 0xefbe4786, 0x0fc19dc6, 0x240ca1cc, 0x2de92c6f, 0x4a7484aa, 0x5cb0a9dc, 0x76f988da,
  0x983e5152, 0xa831c66d, 0xb00327c8, 0xbf597fc7, 0xc6e00bf3, 0xd5a79147, 0x06ca6351, 0x14292967,
  0x27b70a85, 0x2e1b2138, 0x4d2c6dfc, 0x53380d13, 0x650a7354, 0x766a0abb, 0x81c2c92e, 0x92722c85,
  0xa2bfe8a1, 0xa81a664b, 0xc24b8b70, 0xc76c51a3, 0xd192e819, 0xd6990624, 0xf40e3585, 0x106aa070,
  0x19a4c116, 0x1e376c08, 0x2748774c, 0x34b0bcb5, 0x391c0cb3, 0x4ed8aa4a, 0x5b9cca4f, 0x682e6ff3,
  0x748f82ee, 0x78a5636f, 0x84c87814, 0x8cc70208, 0x90befffa, 0xa4506ceb, 0xbef9a3f7, 0xc67178f2]

/-! ### One block -/

/-- The words of a block, the most significant byte first. -/
def words : List UInt8 → List UInt32
  | b₀ :: b₁ :: b₂ :: b₃ :: bytes =>
    ((b₀.toUInt32 <<< 24) ||| (b₁.toUInt32 <<< 16) ||| (b₂.toUInt32 <<< 8) ||| b₃.toUInt32) :: words bytes
  | _ => []

/-- The loop from `w[16]` on: `n` more words. -/
def schedule (w : List UInt32) : Nat → List UInt32
  | 0 => w
  | n + 1 =>
    let w := schedule w n
    let i := w.length
    let back k := w.getD (i - k) 0
    let s0 := rotr (back 15) 7 ^^^ rotr (back 15) 18 ^^^ (back 15 >>> 3)
    let s1 := rotr (back 2) 17 ^^^ rotr (back 2) 19 ^^^ (back 2 >>> 10)
    w ++ [back 16 + s0 + back 7 + s1]

/-- One round, with the constant and the word of the round. -/
def round (s : HashState) (kw : UInt32 × UInt32) : HashState :=
  let S1 := rotr s.e 6 ^^^ rotr s.e 11 ^^^ rotr s.e 25
  let ch := (s.e &&& s.f) ^^^ (~~~s.e &&& s.g)
  let t1 := s.h + S1 + ch + kw.1 + kw.2
  let S0 := rotr s.a 2 ^^^ rotr s.a 13 ^^^ rotr s.a 22
  let maj := (s.a &&& s.b) ^^^ (s.a &&& s.c) ^^^ (s.b &&& s.c)
  let t2 := S0 + maj
  { h := s.g, g := s.f, f := s.e, e := s.d + t1, d := s.c, c := s.b, b := s.a, a := t1 + t2 }

def transform (s : HashState) (chunk : List UInt8) : HashState :=
  let r := (K.zip (schedule (words chunk) 48)).foldl round s
  { a := s.a + r.a, b := s.b + r.b, c := s.c + r.c, d := s.d + r.d,
    e := s.e + r.e, f := s.f + r.f, g := s.g + r.g, h := s.h + r.h }

end Sha256

/-! ### The stream -/

structure Sha256 where
  bitlen : UInt64 := 0
  state : HashState := {}
  /-- The first `buflen_` bytes of `buffer_`. -/
  buffer : List UInt8 := []

namespace Sha256

def update (s : Sha256) (data : List UInt8) : Sha256 :=
  let bitlen := s.bitlen + UInt64.ofNat data.length * 8
  let need := 64 - s.buffer.length
  let take := if data.length < need then data.length else need
  -- the part of the data that completes the buffer
  let filled : HashState × List UInt8 × List UInt8 :=
    if 0 < s.buffer.length then
      let buffer := s.buffer ++ data.take take
      if buffer.length = 64 then (transform s.state buffer, [], data.drop take) else (s.state, buffer, data.drop take)
    else (s.state, s.buffer, data)
  let (state, buffer, data) := filled
  let (state, rest) := Blocks.consume transform 64 data.length state data
  { bitlen, state, buffer := if rest ≠ [] then rest else buffer }

/-- The eight bytes of the length, the most significant one first. -/
def lengthBytes (bitlen : UInt64) : List UInt8 :=
  [7, 6, 5, 4, 3, 2, 1, 0].map fun i : UInt64 => ((bitlen >>> (i * 8)) &&& 0xff).toUInt8

/-- The loop that pads with zeros, in an array with room for `room` more bytes. It returns nothing if it writes behind
    the array. -/
def padZeros (buflen : Nat) : Nat → List UInt8 → Option (List UInt8)
  | 0, pad => if (buflen + pad.length) % 64 ≠ 56 then none else some pad
  | room + 1, pad => if (buflen + pad.length) % 64 ≠ 56 then padZeros buflen room (pad ++ [0]) else some pad

/-- The array `pad` has 128 bytes. -/
def padding (s : Sha256) : Option (List UInt8) := do
  let pad ← padZeros s.buffer.length 127 [0x80]
  let pad := pad ++ lengthBytes s.bitlen
  if pad.length ≤ 128 then some pad else none

def wordBytes (w : UInt32) : List UInt8 :=
  [((w >>> 24) &&& 0xff).toUInt8, ((w >>> 16) &&& 0xff).toUInt8, ((w >>> 8) &&& 0xff).toUInt8, (w &&& 0xff).toUInt8]

def stateBytes (s : HashState) : List UInt8 := [s.a, s.b, s.c, s.d, s.e, s.f, s.g, s.h].flatMap wordBytes

def digest (s : Sha256) : Option (List UInt8) := s.padding.map fun pad => stateBytes (s.update pad).state

def hexd : List Char := ['0', '1', '2', '3', '4', '5', '6', '7', '8', '9', 'a', 'b', 'c', 'd', 'e', 'f']

def hexText (bytes : List UInt8) : String :=
  .ofList (bytes.flatMap fun b : UInt8 => [hexd.getD (b >>> 4).toNat '0', hexd.getD (b &&& 0xf).toNat '0'])

def hex (s : Sha256) : Option String := s.digest.map hexText

end Sha256

def sha256Hex (data : List UInt8) : Option String := (if data ≠ [] then Sha256.update {} data else {}).hex

/-- The reads of at most 4096 bytes, up to the one that finds the end of the file. -/
def readChunks : Nat → List UInt8 → List (List UInt8)
  | 0, _ => []
  | fuel + 1, bytes => bytes.take 4096 :: if 4096 ≤ bytes.length then readChunks fuel (bytes.drop 4096) else []

/-- A file that cannot be opened is `none`, and its hash is the empty text. -/
def sha256File (file : Option (List UInt8)) : Option String :=
  match file with
  | none => some ""
  | some bytes =>
    let chunks := readChunks (bytes.length + 1) bytes
    (chunks.foldl (fun s chunk => if chunk ≠ [] then s.update chunk else s) ({} : Sha256)).hex

example : sha256Hex [0x61, 0x62, 0x63] =
    some "ba7816bf8f01cfea414140de5dae2223b00361a396177a9cb410ff61f20015ad" := by decide +kernel

end CrashCore.Pe

import ArtPi.Lib.Bytes

set_option autoImplicit false

/-! # The compression functions of MD5, SHA-1 and SHA-256 (`engine/utils/pi_hash.cpp`)

`transform` of each takes a block of 64 bytes into a state. The loops over a message schedule are folds over its
indices. -/

namespace ArtPi.Hash

def rotL (x n : UInt32) : UInt32 := (x <<< n) ||| (x >>> (32 - n))

def rotR (x n : UInt32) : UInt32 := (x >>> n) ||| (x <<< (32 - n))

/-- Byte `j` of a block, as `static_cast<uint32_t>(block[j])`. -/
def byteAt (block : List UInt8) (j : Nat) : UInt32 := (block.getD j 0).toUInt32

def littleWord (block : List UInt8) (j : Nat) : UInt32 :=
  byteAt block j ||| (byteAt block (j + 1) <<< 8) ||| (byteAt block (j + 2) <<< 16) ||| (byteAt block (j + 3) <<< 24)

def bigWord (block : List UInt8) (j : Nat) : UInt32 :=
  (byteAt block j <<< 24) ||| (byteAt block (j + 1) <<< 16) ||| (byteAt block (j + 2) <<< 8) ||| byteAt block (j + 3)

/-! ## `md5_impl` -/

namespace Md5

structure State where
  a : UInt32
  b : UInt32
  c : UInt32
  d : UInt32
  deriving DecidableEq

def State.words (s : State) : List UInt32 := [s.a, s.b, s.c, s.d]

def F (x y z : UInt32) : UInt32 := (x &&& y) ||| (~~~ x &&& z)

def G (x y z : UInt32) : UInt32 := (x &&& z) ||| (y &&& ~~~ z)

def H (x y z : UInt32) : UInt32 := x ^^^ y ^^^ z

def I (x y z : UInt32) : UInt32 := y ^^^ (x ||| ~~~ z)

/-- `FF`, `GG`, `HH` and `II`: one word changes. The calls name the words in turn, so that the next one begins with the
last word of this one. -/
def op (f : UInt32 → UInt32 → UInt32 → UInt32) (x : Nat → UInt32) (s : State) (row : Nat × UInt32 × UInt32) :
    State where
  a := s.d
  b := rotL (s.a + f s.b s.c s.d + x row.1 + row.2.2) row.2.1 + s.b
  c := s.b
  d := s.c

/-- The word, the rotation and the constant of each call. -/
def rowsFF : List (Nat × UInt32 × UInt32) := [
    (0, 7, 0xd76aa478), (1, 12, 0xe8c7b756), (2, 17, 0x242070db), (3, 22, 0xc1bdceee),
    (4, 7, 0xf57c0faf), (5, 12, 0x4787c62a), (6, 17, 0xa8304613), (7, 22, 0xfd469501),
    (8, 7, 0x698098d8), (9, 12, 0x8b44f7af), (10, 17, 0xffff5bb1), (11, 22, 0x895cd7be),
    (12, 7, 0x6b901122), (13, 12, 0xfd987193), (14, 17, 0xa679438e), (15, 22, 0x49b40821)]

def rowsGG : List (Nat × UInt32 × UInt32) := [
    (1, 5, 0xf61e2562), (6, 9, 0xc040b340), (11, 14, 0x265e5a51), (0, 20, 0xe9b6c7aa),
    (5, 5, 0xd62f105d), (10, 9, 0x02441453), (15, 14, 0xd8a1e681), (4, 20, 0xe7d3fbc8),
    (9, 5, 0x21e1cde6), (14, 9, 0xc33707d6), (3, 14, 0xf4d50d87), (8, 20, 0x455a14ed),
    (13, 5, 0xa9e3e905), (2, 9, 0xfcefa3f8), (7, 14, 0x676f02d9), (12, 20, 0x8d2a4c8a)]

def rowsHH : List (Nat × UInt32 × UInt32) := [
    (5, 4, 0xfffa3942), (8, 11, 0x8771f681), (11, 16, 0x6d9d6122), (14, 23, 0xfde5380c),
    (1, 4, 0xa4beea44), (4, 11, 0x4bdecfa9), (7, 16, 0xf6bb4b60), (10, 23, 0xbebfbc70),
    (13, 4, 0x289b7ec6), (0, 11, 0xeaa127fa), (3, 16, 0xd4ef3085), (6, 23, 0x04881d05),
    (9, 4, 0xd9d4d039), (12, 11, 0xe6db99e5), (15, 16, 0x1fa27cf8), (2, 23, 0xc4ac5665)]

def rowsII : List (Nat × UInt32 × UInt32) := [
    (0, 6, 0xf4292244), (7, 10, 0x432aff97), (14, 15, 0xab9423a7), (5, 21, 0xfc93a039),
    (12, 6, 0x655b59c3), (3, 10, 0x8f0ccc92), (10, 15, 0xffeff47d), (1, 21, 0x85845dd1),
    (8, 6, 0x6fa87e4f), (15, 10, 0xfe2ce6e0), (6, 15, 0xa3014314), (13, 21, 0x4e0811a1),
    (4, 6, 0xf7537e82), (11, 10, 0xbd3af235), (2, 15, 0x2ad7d2bb), (9, 21, 0xeb86d391)]

def rounds (x : Nat → UInt32) (s : State) : State :=
  rowsII.foldl (op I x) (rowsHH.foldl (op H x) (rowsGG.foldl (op G x) (rowsFF.foldl (op F x) s)))

def transform (s : State) (block : List UInt8) : State :=
  let r := rounds (fun i => littleWord block (4 * i)) s
  ⟨s.a + r.a, s.b + r.b, s.c + r.c, s.d + r.d⟩

def initial : State := ⟨0x67452301, 0xefcdab89, 0x98badcfe, 0x10325476⟩

end Md5

/-! ## `sha1_impl` -/

namespace Sha1

structure State where
  a : UInt32
  b : UInt32
  c : UInt32
  d : UInt32
  e : UInt32
  deriving DecidableEq

def State.words (s : State) : List UInt32 := [s.a, s.b, s.c, s.d, s.e]

/-- `w[80]` -/
def schedule (block : List UInt8) : List UInt32 :=
  (List.range' 16 64).foldl
    (fun w t => w ++ [rotL (w.getD (t - 3) 0 ^^^ w.getD (t - 8) 0 ^^^ w.getD (t - 14) 0 ^^^ w.getD (t - 16) 0) 1])
    ((List.range 16).map (fun t => bigWord block (4 * t)))

/-- The body of the four loops, which differ in the function and the constant. -/
def round (f : UInt32 → UInt32 → UInt32 → UInt32) (k : UInt32) (w : List UInt32) (s : State) (t : Nat) :
    State where
  a := rotL s.a 5 + f s.b s.c s.d + s.e + w.getD t 0 + k
  b := s.a
  c := rotL s.b 30
  d := s.c
  e := s.d

def rounds (w : List UInt32) (s : State) : State :=
  let s := (List.range' 0 20).foldl (round (fun b c d => (b &&& c) ||| (~~~ b &&& d)) 0x5A827999 w) s
  let s := (List.range' 20 20).foldl (round (fun b c d => b ^^^ c ^^^ d) 0x6ED9EBA1 w) s
  let s := (List.range' 40 20).foldl
    (round (fun b c d => (b &&& c) ||| (b &&& d) ||| (c &&& d)) 0x8F1BBCDC w) s
  (List.range' 60 20).foldl (round (fun b c d => b ^^^ c ^^^ d) 0xCA62C1D6 w) s

def transform (s : State) (block : List UInt8) : State :=
  let r := rounds (schedule block) s
  ⟨s.a + r.a, s.b + r.b, s.c + r.c, s.d + r.d, s.e + r.e⟩

def initial : State := ⟨0x67452301, 0xEFCDAB89, 0x98BADCFE, 0x10325476, 0xC3D2E1F0⟩

end Sha1

/-! ## `sha256_impl` -/

namespace Sha256

structure State where
  a : UInt32
  b : UInt32
  c : UInt32
  d : UInt32
  e : UInt32
  f : UInt32
  g : UInt32
  h : UInt32
  deriving DecidableEq

def State.words (s : State) : List UInt32 := [s.a, s.b, s.c, s.d, s.e, s.f, s.g, s.h]

def Ch (x y z : UInt32) : UInt32 := (x &&& y) ^^^ (~~~ x &&& z)

def Maj (x y z : UInt32) : UInt32 := (x &&& y) ^^^ (x &&& z) ^^^ (y &&& z)

def Sigma0 (x : UInt32) : UInt32 := rotR x 2 ^^^ rotR x 13 ^^^ rotR x 22

def Sigma1 (x : UInt32) : UInt32 := rotR x 6 ^^^ rotR x 11 ^^^ rotR x 25

def Gamma0 (x : UInt32) : UInt32 := rotR x 7 ^^^ rotR x 18 ^^^ (x >>> 3)

def Gamma1 (x : UInt32) : UInt32 := rotR x 17 ^^^ rotR x 19 ^^^ (x >>> 10)

def K : List UInt32 := [
    0x428a2f98, 0x71374491, 0xb5c0fbcf, 0xe9b5dba5, 0x3956c25b, 0x59f111f1, 0x923f82a4, 0xab1c5ed5,
    0xd807aa98, 0x12835b01, 0x243185be, 0x550c7dc3, 0x72be5d74, 0x80deb1fe, 0x9bdc06a7, 0xc19bf174,
    0xe49b69c1, 0xefbe4786, 0x0fc19dc6, 0x240ca1cc, 0x2de92c6f, 0x4a7484aa, 0x5cb0a9dc, 0x76f988da,
    0x983e5152, 0xa831c66d, 0xb00327c8, 0xbf597fc7, 0xc6e00bf3, 0xd5a79147, 0x06ca6351, 0x14292967,
    0x27b70a85, 0x2e1b2138, 0x4d2c6dfc, 0x53380d13, 0x650a7354, 0x766a0abb, 0x81c2c92e, 0x92722c85,
    0xa2bfe8a1, 0xa81a664b, 0xc24b8b70, 0xc76c51a3, 0xd192e819, 0xd6990624, 0xf40e3585, 0x106aa070,
    0x19a4c116, 0x1e376c08, 0x2748774c, 0x34b0bcb5, 0x391c0cb3, 0x4ed8aa4a, 0x5b9cca4f, 0x682e6ff3,
    0x748f82ee, 0x78a5636f, 0x84c87814, 0x8cc70208, 0x90befffa, 0xa4506ceb, 0xbef9a3f7, 0xc67178f2]

/-- `w[64]` -/
def schedule (block : List UInt8) : List UInt32 :=
  (List.range' 16 48).foldl
    (fun w i => w ++ [Gamma1 (w.getD (i - 2) 0) + w.getD (i - 7) 0 + Gamma0 (w.getD (i - 15) 0) + w.getD (i - 16) 0])
    ((List.range 16).map (fun i => bigWord block (4 * i)))

def round (w : List UInt32) (s : State) (i : Nat) : State :=
  let t1 := s.h + Sigma1 s.e + Ch s.e s.f s.g + K.getD i 0 + w.getD i 0
  let t2 := Sigma0 s.a + Maj s.a s.b s.c
  ⟨t1 + t2, s.a, s.b, s.c, s.d + t1, s.e, s.f, s.g⟩

def rounds (w : List UInt32) (s : State) : State := (List.range 64).foldl (round w) s

def transform (s : State) (block : List UInt8) : State :=
  let r := rounds (schedule block) s
  ⟨s.a + r.a, s.b + r.b, s.c + r.c, s.d + r.d, s.e + r.e, s.f + r.f, s.g + r.g, s.h + r.h⟩

def initial : State :=
  ⟨0x6a09e667, 0xbb67ae85, 0x3c6ef372, 0xa54ff53a, 0x510e527f, 0x9b05688c, 0x1f83d9ab, 0x5be0cd19⟩

end Sha256

end ArtPi.Hash

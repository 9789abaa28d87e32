import Forge.Python.Text

/-! # SHA-256

`hashlib.sha256(data).hexdigest()`: the padded message is cut into blocks of sixteen words, each
block is expanded to sixty-four words and compressed into the eight chaining words.
-/
namespace Forge.Python
set_option autoImplicit false

abbrev Bytes := List UInt8

namespace Sha256

def roundConstants : List UInt32 :=
  [0x428a2f98, 0x71374491, 0xb5c0fbcf, 0xe9b5dba5, 0x3956c25b, 0x59f111f1, 0x923f82a4, 0xab1c5ed5,
    0xd807aa98, 0x12835b01, 0x243185be, 0x550c7dc3, 0x72be5d74, 0x80deb1fe, 0x9bdc06a7, 0xc19bf174,
    0xe49b69c1, 0xefbe4786, 0x0fc19dc6, 0x240ca1cc, 0x2de92c6f, 0x4a7484aa, 0x5cb0a9dc, 0x76f988da,
    0x983e5152, 0xa831c66d, 0xb00327c8, 0xbf597fc7, 0xc6e00bf3, 0xd5a79147, 0x06ca6351, 0x14292967,
    0x27b70a85, 0x2e1b2138, 0x4d2c6dfc, 0x53380d13, 0x650a7354, 0x766a0abb, 0x81c2c92e, 0x92722c85,
    0xa2bfe8a1, 0xa81a664b, 0xc24b8b70, 0xc76c51a3, 0xd192e819, 0xd6990624, 0xf40e3585, 0x106aa070,
    0x19a4c116, 0x1e376c08, 0x2748774c, 0x34b0bcb5, 0x391c0cb3, 0x4ed8aa4a, 0x5b9cca4f, 0x682e6ff3,
    0x748f82ee, 0x78a5636f, 0x84c87814, 0x8cc70208, 0x90befffa, 0xa4506ceb, 0xbef9a3f7, 0xc67178f2]

structure Words where
  a : UInt32
  b : UInt32
  c : UInt32
  d : UInt32
  e : UInt32
  f : UInt32
  g : UInt32
  h : UInt32

def Words.toList (w : Words) : List UInt32 := [w.a, w.b, w.c, w.d, w.e, w.f, w.g, w.h]

def initial : Words :=
  ⟨0x6a09e667, 0xbb67ae85, 0x3c6ef372, 0xa54ff53a, 0x510e527f, 0x9b05688c, 0x1f83d9ab, 0x5be0cd19⟩

def rotr (x n : UInt32) : UInt32 := (x >>> n) ||| (x <<< (32 - n))

def round (w : Words) (k : UInt32) (word : UInt32) : Words :=
  let s1 := rotr w.e 6 ^^^ rotr w.e 11 ^^^ rotr w.e 25
  let ch := (w.e &&& w.f) ^^^ (~~~ w.e &&& w.g)
  let t1 := w.h + s1 + ch + k + word
  let s0 := rotr w.a 2 ^^^ rotr w.a 13 ^^^ rotr w.a 22
  let maj := (w.a &&& w.b) ^^^ (w.a &&& w.c) ^^^ (w.b &&& w.c)
  ⟨t1 + (s0 + maj), w.a, w.b, w.c, w.d + t1, w.e, w.f, w.g⟩

/-- `n` more words of the schedule, which is kept with its last word first. -/
def extend : Nat → List UInt32 → List UInt32
  | 0, schedule => schedule
  | n + 1, schedule =>
    let w15 := schedule.getD 14 0
    let w2 := schedule.getD 1 0
    let s0 := rotr w15 7 ^^^ rotr w15 18 ^^^ (w15 >>> 3)
    let s1 := rotr w2 17 ^^^ rotr w2 19 ^^^ (w2 >>> 10)
    extend n ((schedule.getD 15 0 + s0 + schedule.getD 6 0 + s1) :: schedule)

def rounds : List UInt32 → List UInt32 → Words → Words
  | k :: ks, word :: words, w => rounds ks words (round w k word)
  | _, _, w => w

def compress (w : Words) (block : List UInt32) : Words :=
  let w' := rounds roundConstants (extend 48 block.reverse).reverse w
  ⟨w.a + w'.a, w.b + w'.b, w.c + w'.c, w.d + w'.d, w.e + w'.e, w.f + w'.f, w.g + w'.g, w.h + w'.h⟩

/-- The length of the message in bits, as eight bytes. -/
def lengthBytes (n : Nat) : Bytes :=
  [56, 48, 40, 32, 24, 16, 8, 0].map fun shift => UInt8.ofNat (8 * n / 2 ^ shift)

def pad (message : Bytes) : Bytes :=
  message ++ 0x80 :: List.replicate ((119 - message.length % 64) % 64) 0 ++ lengthBytes message.length

def words : Bytes → List UInt32
  | b₀ :: b₁ :: b₂ :: b₃ :: rest =>
    (b₀.toUInt32 <<< 24 ||| b₁.toUInt32 <<< 16 ||| b₂.toUInt32 <<< 8 ||| b₃.toUInt32) :: words rest
  | _ => []

def blocks : Nat → List UInt32 → List (List UInt32)
  | 0, _ => []
  | n + 1, ws => ws.take 16 :: blocks n (ws.drop 16)

def digest (message : Bytes) : Words :=
  let ws := words (pad message)
  (blocks (ws.length / 16) ws).foldl compress initial

def hexDigits : List Char :=
  ['0', '1', '2', '3', '4', '5', '6', '7', '8', '9', 'a', 'b', 'c', 'd', 'e', 'f']

def hexWord (w : UInt32) : List Char :=
  [28, 24, 20, 16, 12, 8, 4, 0].map fun shift => hexDigits.getD (w.toNat / 2 ^ shift % 16) '0'

end Sha256

open Sha256 in
@[irreducible] def sha256 (data : Bytes) : String :=
  String.ofList ((digest data).toList.flatMap hexWord)

example : sha256 [0x61, 0x62, 0x63] =
    "ba7816bf8f01cfea414140de5dae2223b00361a396177a9cb410ff61f20015ad" := by decide +kernel

theorem mem_hexDigits_of_mem_sha256 {data : Bytes} {c : Char} (h : c ∈ (sha256 data).toList) :
    c ∈ Sha256.hexDigits := by
  rw [sha256, String.toList_ofList, List.mem_flatMap] at h
  obtain ⟨word, -, hc⟩ := h
  obtain ⟨shift, -, rfl⟩ := List.mem_map.mp hc
  have hLt : word.toNat / 2 ^ shift % 16 < Sha256.hexDigits.length := Nat.mod_lt _ (by decide)
  rw [List.getD, List.getElem?_eq_getElem hLt]
  exact List.getElem_mem hLt

end Forge.Python

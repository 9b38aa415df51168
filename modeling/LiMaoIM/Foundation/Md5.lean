import LiMaoIM.Foundation.Bytes

namespace LiMaoIM.Md5

open Bytes

def constants : List UInt32 :=
  [ 0xD76AA478,0xE8C7B756,0x242070DB,0xC1BDCEEE,0xF57C0FAF,0x4787C62A,0xA8304613,0xFD469501,
    0x698098D8,0x8B44F7AF,0xFFFF5BB1,0x895CD7BE,0x6B901122,0xFD987193,0xA679438E,0x49B40821,
    0xF61E2562,0xC040B340,0x265E5A51,0xE9B6C7AA,0xD62F105D,0x02441453,0xD8A1E681,0xE7D3FBC8,
    0x21E1CDE6,0xC33707D6,0xF4D50D87,0x455A14ED,0xA9E3E905,0xFCEFA3F8,0x676F02D9,0x8D2A4C8A,
    0xFFFA3942,0x8771F681,0x6D9D6122,0xFDE5380C,0xA4BEEA44,0x4BDECFA9,0xF6BB4B60,0xBEBFBC70,
    0x289B7EC6,0xEAA127FA,0xD4EF3085,0x04881D05,0xD9D4D039,0xE6DB99E5,0x1FA27CF8,0xC4AC5665,
    0xF4292244,0x432AFF97,0xAB9423A7,0xFC93A039,0x655B59C3,0x8F0CCC92,0xFFEFF47D,0x85845DD1,
    0x6FA87E4F,0xFE2CE6E0,0xA3014314,0x4E0811A1,0xF7537E82,0xBD3AF235,0x2AD7D2BB,0xEB86D391 ]

def rotations : List (List UInt32) := [[7,12,17,22],[5,9,14,20],[4,11,16,23],[6,10,15,21]]

structure Digest where
  a : UInt32
  b : UInt32
  c : UInt32
  d : UInt32

def rotateLeft (x n : UInt32) : UInt32 := (x <<< n) ||| (x >>> (32 - n))

def mix (i : Nat) (s : Digest) : UInt32 × Nat :=
  match i / 16 with
  | 0 => ((s.b &&& s.c) ||| (~~~ s.b &&& s.d),i)
  | 1 => ((s.d &&& s.b) ||| (~~~ s.d &&& s.c),(5 * i + 1) % 16)
  | 2 => (s.b ^^^ s.c ^^^ s.d,(3 * i + 5) % 16)
  | _ => (s.c ^^^ (s.b ||| ~~~ s.d),7 * i % 16)

def operation (words : List UInt32) (s : Digest) (i : Nat) : Digest :=
  let (f,g) := mix i s
  let sum := f + s.a + constants.getD i 0 + words.getD g 0
  ⟨s.d,s.b + rotateLeft sum ((rotations.getD (i / 16) []).getD (i % 4) 0),s.b,s.c⟩

def littleEndian : Nat → Nat → Bytes
  | 0, _ => []
  | w + 1, n => UInt8.ofNat (n % 256) :: littleEndian w (n / 256)

def word (bs : Bytes) : UInt32 := UInt32.ofNat (Bytes.uint bs.reverse)

def block (s : Digest) (bs : Bytes) : Digest :=
  let words := (List.range 16).map fun i => word ((bs.drop (4 * i)).take 4)
  let r := (List.range 64).foldl (operation words) s
  ⟨s.a + r.a,s.b + r.b,s.c + r.c,s.d + r.d⟩

def padded (bs : Bytes) : Bytes :=
  bs ++ 0x80 :: (List.replicate ((119 - bs.length % 64) % 64) 0 ++ littleEndian 8 (8 * bs.length))

def sum (bs : Bytes) : Bytes :=
  let p := padded bs
  let r := (List.range (p.length / 64)).foldl (fun s i => block s ((p.drop (64 * i)).take 64))
    ⟨0x67452301,0xEFCDAB89,0x98BADCFE,0x10325476⟩
  [r.a,r.b,r.c,r.d].flatMap fun w => littleEndian 4 w.toNat

def hexString (bs : Bytes) : Bytes :=
  bs.flatMap fun b => [hexDigit (b.toNat / 16),hexDigit (b.toNat % 16)]

theorem length_littleEndian (w n : Nat) : (littleEndian w n).length = w := by
  induction w generalizing n with
  | zero => rfl
  | succ w ih => rw [littleEndian, List.length_cons, ih]

theorem length_sum (bs : Bytes) : (sum bs).length = 16 := by
  simp only [sum, List.flatMap_cons, List.flatMap_nil, List.length_append, length_littleEndian,
    List.length_nil]

theorem length_hexString (bs : Bytes) : (hexString bs).length = 2 * bs.length := by
  induction bs with
  | nil => rfl
  | cons b bs ih =>
    rw [hexString] at ih
    rw [hexString, List.flatMap_cons, List.length_append, ih]
    simp only [List.length_cons, List.length_nil]
    omega

example : hexString (sum (Bytes.ofString "abc")) =
    Bytes.ofString "900150983cd24fb0d6963f7d28e17f72" := by decide +kernel

end LiMaoIM.Md5

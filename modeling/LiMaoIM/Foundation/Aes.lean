import LiMaoIM.Foundation.Bytes

namespace LiMaoIM.Aes

def blockSize : Nat := 16

def xtime (b : UInt8) : UInt8 := if b < 0x80 then b <<< 1 else (b <<< 1) ^^^ 0x1B

def mulLoop : Nat → UInt8 → UInt8 → UInt8 → UInt8
  | 0, _, _, acc => acc
  | n + 1, a, b, acc => mulLoop n (xtime a) (b >>> 1) (if b % 2 = 0 then acc else acc ^^^ a)

def mul (a b : UInt8) : UInt8 := mulLoop 8 a b 0

def inverseLoop : Nat → UInt8 → UInt8 → UInt8
  | 0, _, acc => acc
  | n + 1, a, acc => inverseLoop n (mul a a) (mul acc (mul a a))

-- the inverse of b is b to the 254th, the product of its seven squares
def inverse (b : UInt8) : UInt8 := inverseLoop 7 b 1

def rotateLeft (b n : UInt8) : UInt8 := (b <<< n) ||| (b >>> (8 - n))

def subByte (b : UInt8) : UInt8 :=
  let i := inverse b
  i ^^^ rotateLeft i 1 ^^^ rotateLeft i 2 ^^^ rotateLeft i 3 ^^^ rotateLeft i 4 ^^^ 0x63

def invSubByte (b : UInt8) : UInt8 :=
  inverse (rotateLeft b 1 ^^^ rotateLeft b 3 ^^^ rotateLeft b 6 ^^^ 0x05)

example : subByte 0x53 = 0xED ∧ invSubByte 0xED = 0x53 := by decide +kernel

def byte (bs : Bytes) (i : Nat) : UInt8 := bs.getD i 0

def block (f : Nat → UInt8) : Bytes := (List.range blockSize).map f

def xorBlock (a b : Bytes) : Bytes := block fun i => byte a i ^^^ byte b i

def shiftRows (s : Bytes) : Bytes := block fun i => byte s ((i + 4 * (i % 4)) % 16)

def invShiftRows (s : Bytes) : Bytes := block fun i => byte s ((i + 12 * (i % 4)) % 16)

def mix (coefficients : List UInt8) (s : Bytes) : Bytes := block fun i =>
  (List.range 4).foldl (fun acc j =>
    acc ^^^ mul (byte coefficients ((j + 4 - i % 4) % 4)) (byte s (i / 4 * 4 + j))) 0

def mixColumns : Bytes → Bytes := mix [2,3,1,1]

def invMixColumns : Bytes → Bytes := mix [14,11,13,9]

example : (mixColumns ([0xDB,0x13,0x53,0x45] ++ List.replicate 12 0)).take 4 =
    [0x8E,0x4D,0xA1,0xBC] := by decide +kernel

def rcon : Nat → UInt8
  | 0 => 1
  | n + 1 => xtime (rcon n)

def scheduleWord (nk i : Nat) (previous : Bytes) : Bytes :=
  if i % nk = 0 then
    (((previous.drop 1) ++ previous.take 1).map subByte).zipWith (· ^^^ ·) [rcon (i / nk - 1),0,0,0]
  else if 6 < nk ∧ i % nk = 4 then previous.map subByte
  else previous

def expandLoop (nk : Nat) : Nat → List Bytes → List Bytes
  | 0, words => words
  | n + 1, words =>
      let word := (words.getD (words.length - nk) []).zipWith (· ^^^ ·)
        (scheduleWord nk words.length (words.getD (words.length - 1) []))
      expandLoop nk n (words ++ [word])

def rounds (key : Bytes) : Nat := key.length / 4 + 6

def keyExpansion (key : Bytes) : List Bytes :=
  let nk := key.length / 4
  expandLoop nk (4 * (rounds key + 1) - nk)
    ((List.range nk).map fun i => (key.drop (4 * i)).take 4)

def roundKey (words : List Bytes) (r : Nat) : Bytes :=
  block fun i => byte (words.getD (4 * r + i / 4) []) (i % 4)

def encryptRounds (words : List Bytes) : Nat → Nat → Bytes → Bytes
  | 0, _, s => s
  | n + 1, r, s =>
      encryptRounds words n (r + 1)
        (xorBlock (mixColumns (shiftRows (s.map subByte))) (roundKey words r))

def encryptBlock (key s : Bytes) : Bytes :=
  let words := keyExpansion key
  let s := encryptRounds words (rounds key - 1) 1 (xorBlock s (roundKey words 0))
  xorBlock (shiftRows (s.map subByte)) (roundKey words (rounds key))

def decryptRounds (words : List Bytes) : Nat → Bytes → Bytes
  | 0, s => s
  | r + 1, s =>
      decryptRounds words r
        (invMixColumns (xorBlock ((invShiftRows s).map invSubByte) (roundKey words (r + 1))))

def decryptBlock (key s : Bytes) : Bytes :=
  let words := keyExpansion key
  let s := decryptRounds words (rounds key - 1) (xorBlock s (roundKey words (rounds key)))
  xorBlock ((invShiftRows s).map invSubByte) (roundKey words 0)

def encryptLoop (key : Bytes) : Nat → Bytes → Bytes → Bytes
  | 0, _, _ => []
  | n + 1, iv, bs =>
      let crypted := encryptBlock key (xorBlock (bs.take blockSize) iv)
      crypted ++ encryptLoop key n crypted (bs.drop blockSize)

def decryptLoop (key : Bytes) : Nat → Bytes → Bytes → Bytes
  | 0, _, _ => []
  | n + 1, iv, bs =>
      xorBlock (decryptBlock key (bs.take blockSize)) iv ++
        decryptLoop key n (bs.take blockSize) (bs.drop blockSize)

structure BlockMode where
  encrypt : Bytes → Bytes → Bytes → Bytes
  decrypt : Bytes → Bytes → Bytes → Bytes
  length_encrypt : ∀ key iv bs, bs.length % blockSize = 0 → (encrypt key iv bs).length = bs.length
  length_decrypt : ∀ key iv bs, bs.length % blockSize = 0 → (decrypt key iv bs).length = bs.length

@[simp] theorem length_block (f : Nat → UInt8) : (block f).length = blockSize := by
  rw [block, List.length_map, List.length_range]

theorem length_encryptLoop (key : Bytes) (n : Nat) (iv bs : Bytes) :
    (encryptLoop key n iv bs).length = blockSize * n := by
  induction n generalizing iv bs with
  | zero => rfl
  | succ n ih =>
    rw [encryptLoop, List.length_append, ih, encryptBlock, xorBlock, length_block, Nat.mul_succ,
      Nat.add_comm]

theorem length_decryptLoop (key : Bytes) (n : Nat) (iv bs : Bytes) :
    (decryptLoop key n iv bs).length = blockSize * n := by
  induction n generalizing iv bs with
  | zero => rfl
  | succ n ih =>
    rw [decryptLoop, List.length_append, ih, xorBlock, length_block, Nat.mul_succ, Nat.add_comm]

def cbc : BlockMode where
  encrypt key iv bs := encryptLoop key (bs.length / blockSize) iv bs
  decrypt key iv bs := decryptLoop key (bs.length / blockSize) iv bs
  length_encrypt key iv bs h := by
    rw [length_encryptLoop]
    exact Nat.mul_div_cancel' (Nat.dvd_of_mod_eq_zero h)
  length_decrypt key iv bs h := by
    rw [length_decryptLoop]
    exact Nat.mul_div_cancel' (Nat.dvd_of_mod_eq_zero h)

end LiMaoIM.Aes

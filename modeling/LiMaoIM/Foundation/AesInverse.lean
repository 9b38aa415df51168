import Mathlib.Data.List.GetD
import LiMaoIM.Foundation.Aes

namespace LiMaoIM.Aes

theorem forall_byte {P : UInt8 → Prop} (h : ∀ n < 256, P (UInt8.ofNat n)) (b : UInt8) : P b := by
  have hb := h b.toNat b.toNat_lt
  rwa [UInt8.ofNat_toNat] at hb

section Additive

def xorAll (bs : Bytes) : UInt8 := bs.foldr (· ^^^ ·) 0

def unit (m : Nat) : UInt8 := 1 <<< UInt8.ofNat m

def units (b : UInt8) : Bytes := ((List.range 8).filter b.toNat.testBit).map unit

theorem xorAll_units : ∀ b, xorAll (units b) = b :=
  forall_byte (by decide +kernel)

def Additive (f : UInt8 → UInt8) : Prop := ∀ a b, f (a ^^^ b) = f a ^^^ f b

variable {f g : UInt8 → UInt8}

theorem Additive.zero (hf : Additive f) : f 0 = 0 := by
  have h := hf 0 0
  rwa [UInt8.xor_self,UInt8.xor_self] at h

theorem Additive.xorAll (hf : Additive f) (bs : Bytes) : f (xorAll bs) = Aes.xorAll (bs.map f) := by
  induction bs with
  | nil => exact hf.zero
  | cons b bs ih =>
    rw [List.map_cons,Aes.xorAll,Aes.xorAll,List.foldr_cons,List.foldr_cons,hf]
    exact congrArg (f b ^^^ ·) ih

theorem Additive.ext (hf : Additive f) (hg : Additive g) (h : ∀ m < 8, f (unit m) = g (unit m)) :
    f = g := by
  funext b
  rw [← xorAll_units b,hf.xorAll,hg.xorAll]
  refine congrArg Aes.xorAll (List.map_congr_left ?_)
  intro x hx
  obtain ⟨m,hm,rfl⟩ := List.mem_map.mp hx
  exact h m (List.mem_range.mp (List.mem_filter.mp hm).1)

theorem Additive.id : Additive fun b => b := fun _ _ => rfl

theorem Additive.comp (hf : Additive f) (hg : Additive g) : Additive fun b => f (g b) := by
  intro a b
  calc f (g (a ^^^ b)) = f (g a ^^^ g b) := congrArg f (hg a b)
    _ = f (g a) ^^^ f (g b) := hf (g a) (g b)

theorem xor_right_comm (a b c : UInt8) : a ^^^ b ^^^ c = a ^^^ c ^^^ b := by
  rw [UInt8.xor_assoc,UInt8.xor_comm b,UInt8.xor_assoc]

theorem xor_xor_xor_comm (a b c d : UInt8) : a ^^^ b ^^^ (c ^^^ d) = a ^^^ c ^^^ (b ^^^ d) := by
  rw [UInt8.xor_assoc,UInt8.xor_assoc,← UInt8.xor_assoc b,← UInt8.xor_assoc c,UInt8.xor_comm b]

theorem Additive.xor (hf : Additive f) (hg : Additive g) : Additive fun b => f b ^^^ g b := by
  intro a b
  calc f (a ^^^ b) ^^^ g (a ^^^ b) = f a ^^^ f b ^^^ (g a ^^^ g b) := by rw [hf,hg]
    _ = f a ^^^ g a ^^^ (f b ^^^ g b) := xor_xor_xor_comm _ _ _ _

end Additive

section Field

theorem mod_two_xor (a b : UInt8) : (a ^^^ b) % 2 = (a % 2) ^^^ (b % 2) := by
  apply UInt8.toNat_inj.mp
  simp only [UInt8.toNat_xor,UInt8.toNat_mod]
  exact Nat.xor_mod_two_pow (n := 1)

theorem mod_two_cases (b : UInt8) : b % 2 = 0 ∨ b % 2 = 1 := by
  have h : b.toNat % 2 = 0 ∨ b.toNat % 2 = 1 := Nat.mod_two_eq_zero_or_one _
  exact h.imp (fun h => UInt8.toNat_inj.mp h) fun h => UInt8.toNat_inj.mp h

theorem mulLoop_xor (n : Nat) (a b c p q : UInt8) :
    mulLoop n a (b ^^^ c) (p ^^^ q) = mulLoop n a b p ^^^ mulLoop n a c q := by
  induction n generalizing a b c p q with
  | zero => rfl
  | succ n ih =>
    have hbit : (if (b ^^^ c) % 2 = 0 then p ^^^ q else p ^^^ q ^^^ a) =
        (if b % 2 = 0 then p else p ^^^ a) ^^^ (if c % 2 = 0 then q else q ^^^ a) := by
      rw [mod_two_xor]
      rcases mod_two_cases b with hb | hb <;> rcases mod_two_cases c with hc | hc <;> rw [hb,hc]
      · rfl
      · exact UInt8.xor_assoc _ _ _
      · exact xor_right_comm _ _ _
      · have h := xor_xor_xor_comm p a q a
        rw [UInt8.xor_self,UInt8.xor_zero] at h
        exact h.symm
    rw [mulLoop,UInt8.shiftRight_xor,hbit,ih,← mulLoop,← mulLoop]

theorem additive_mul (a : UInt8) : Additive (mul a) := fun b c => by
  have h := mulLoop_xor 8 a b c 0 0
  rwa [UInt8.xor_self] at h

theorem additive_shiftLeft (n : UInt8) : Additive (· <<< n) := fun _ _ => UInt8.shiftLeft_xor

theorem additive_shiftRight (n : UInt8) : Additive (· >>> n) := fun _ _ => UInt8.shiftRight_xor

theorem xtime_eq : ∀ b : UInt8, b <<< 1 ^^^ (b >>> 7 ^^^ (b >>> 7) <<< 1 ^^^
    ((b >>> 7) <<< 3 ^^^ (b >>> 7) <<< 4)) = xtime b :=
  forall_byte (by decide +kernel)

theorem additive_xtime : Additive xtime := by
  have hr := additive_shiftRight 7
  have h := (additive_shiftLeft 1).xor
    ((hr.xor ((additive_shiftLeft 1).comp hr)).xor
      (((additive_shiftLeft 3).comp hr).xor ((additive_shiftLeft 4).comp hr)))
  intro a b
  rw [← xtime_eq,← xtime_eq a,← xtime_eq b]
  exact h a b

theorem mulLoop_xor_left (n : Nat) (a b c p q : UInt8) :
    mulLoop n (a ^^^ b) c (p ^^^ q) = mulLoop n a c p ^^^ mulLoop n b c q := by
  induction n generalizing a b c p q with
  | zero => rfl
  | succ n ih =>
    have hbit : (if c % 2 = 0 then p ^^^ q else p ^^^ q ^^^ (a ^^^ b)) =
        (if c % 2 = 0 then p else p ^^^ a) ^^^ (if c % 2 = 0 then q else q ^^^ b) := by
      split
      · rfl
      · exact xor_xor_xor_comm _ _ _ _
    rw [mulLoop,additive_xtime,hbit,ih,← mulLoop,← mulLoop]

theorem additive_mul_left (b : UInt8) : Additive (mul · b) := fun a c => by
  have h := mulLoop_xor_left 8 a c b 0 0
  rwa [UInt8.xor_self] at h

theorem mul_xor (a b c : UInt8) : mul a (b ^^^ c) = mul a b ^^^ mul a c := additive_mul a b c

theorem xor_mul (a b c : UInt8) : mul (a ^^^ b) c = mul a c ^^^ mul b c := additive_mul_left c a b

theorem mul_comm (a b : UInt8) : mul a b = mul b a := by
  have hunits : ∀ i < 8, ∀ j < 8, mul (unit i) (unit j) = mul (unit j) (unit i) := by
    decide +kernel
  have hleft : ∀ j < 8, (mul · (unit j)) = mul (unit j) := fun j hj =>
    (additive_mul_left _).ext (additive_mul _) fun i hi => hunits i hi j hj
  exact congrFun ((additive_mul a).ext (additive_mul_left a) fun j hj => congrFun (hleft j hj) a) b

theorem mul_xtime (a b : UInt8) : mul a (xtime b) = xtime (mul a b) := by
  have hunits : ∀ i < 8, ∀ j < 8,
      mul (unit i) (xtime (unit j)) = xtime (mul (unit i) (unit j)) := by
    decide +kernel
  have hleft : ∀ j < 8, (mul · (xtime (unit j))) = fun a => xtime (mul a (unit j)) := fun j hj =>
    (additive_mul_left _).ext (additive_xtime.comp (additive_mul_left _)) fun i hi =>
      hunits i hi j hj
  exact congrFun (((additive_mul a).comp additive_xtime).ext (additive_xtime.comp (additive_mul a))
    fun j hj => congrFun (hleft j hj) a) b

theorem mul_unit {j : Nat} (hj : j < 8) (a : UInt8) : mul a (unit j) = xtime^[j] a := by
  have hiterate : Additive (xtime^[j]) := by
    clear hj
    induction j with
    | zero => exact Additive.id
    | succ j ih => exact ih.comp additive_xtime
  have hunits : ∀ j < 8, ∀ i < 8, mul (unit i) (unit j) = xtime^[j] (unit i) := by decide +kernel
  exact congrFun ((additive_mul_left _).ext hiterate (hunits j hj)) a

theorem mul_iterate_xtime (a b : UInt8) (j : Nat) : mul a (xtime^[j] b) = xtime^[j] (mul a b) := by
  induction j generalizing b with
  | zero => rfl
  | succ j ih => rw [Function.iterate_succ_apply,ih,mul_xtime,← Function.iterate_succ_apply]

theorem mul_assoc (a b c : UInt8) : mul (mul a b) c = mul a (mul b c) := by
  refine congrFun ((additive_mul _).ext ((additive_mul a).comp (additive_mul b)) ?_) c
  intro j hj
  calc mul (mul a b) (unit j) = xtime^[j] (mul a b) := mul_unit hj _
    _ = mul a (xtime^[j] b) := (mul_iterate_xtime a b j).symm
    _ = mul a (mul b (unit j)) := by rw [mul_unit hj]

theorem mul_one (a : UInt8) : mul a 1 = a := mul_unit (j := 0) (by decide) a

end Field

section Power

def power (b : UInt8) : Nat → UInt8
  | 0 => 1
  | n + 1 => mul (power b n) b

theorem power_add (b : UInt8) (m n : Nat) : power b (m + n) = mul (power b m) (power b n) := by
  induction n with
  | zero => rw [power,mul_one,Nat.add_zero]
  | succ n ih => rw [← Nat.add_assoc,power,ih,power,mul_assoc]

theorem power_mul (b : UInt8) (m n : Nat) : power b (m * n) = power (power b m) n := by
  induction n with
  | zero => rfl
  | succ n ih => rw [Nat.mul_succ,power_add,ih,power]

theorem power_two (b : UInt8) : power b 2 = mul b b := by
  rw [power,power,power,mul_comm 1,mul_one]

def square (b : UInt8) : UInt8 := mul b b

theorem additive_square : Additive square := by
  intro a b
  calc mul (a ^^^ b) (a ^^^ b) = mul a a ^^^ mul b a ^^^ (mul a b ^^^ mul b b) := by
        rw [mul_xor,xor_mul,xor_mul]
    _ = mul a a ^^^ mul b b := by
        rw [mul_comm b a,xor_xor_xor_comm,UInt8.xor_comm (mul a b) (mul b b),xor_xor_xor_comm,
          UInt8.xor_self,UInt8.xor_zero]

theorem power_two_pow (b : UInt8) (n : Nat) : power b (2 ^ n) = square^[n] b := by
  induction n with
  | zero => rw [Nat.pow_zero,power,power,mul_comm,mul_one,Function.iterate_zero,id]
  | succ n ih => rw [Nat.pow_succ,power_mul,power_two,ih,Function.iterate_succ_apply',square]

-- raising to the 256th is additive and fixes the eight units
theorem power_256 (b : UInt8) : power b 256 = b := by
  have hiterate : ∀ n, Additive (square^[n]) := by
    intro n
    induction n with
    | zero => exact Additive.id
    | succ n ih => exact ih.comp additive_square
  have hunits : ∀ m < 8, square^[8] (unit m) = unit m := by decide +kernel
  exact (power_two_pow b 8).trans (congrFun ((hiterate 8).ext Additive.id hunits) b)

theorem inverseLoop_eq (n : Nat) (a acc : UInt8) :
    inverseLoop n a acc = mul acc (power a (2 ^ (n + 1) - 2)) := by
  induction n generalizing a acc with
  | zero => exact (mul_one acc).symm
  | succ n ih =>
    have htwo : 2 ^ (n + 2) - 2 = 2 + 2 * (2 ^ (n + 1) - 2) := by
      have hpos : 0 < 2 ^ n := Nat.two_pow_pos n
      rw [Nat.pow_succ,Nat.pow_succ]
      omega
    rw [inverseLoop,ih,htwo,power_add,power_mul,power_two,mul_assoc]

theorem inverse_eq (b : UInt8) : inverse b = power b 254 := by
  rw [inverse,inverseLoop_eq,mul_comm]
  exact mul_one _

theorem inverse_inverse (b : UInt8) : inverse (inverse b) = b := by
  calc inverse (inverse b) = power b (256 * 252 + 4) := by rw [inverse_eq,inverse_eq,← power_mul]
    _ = mul (power b 252) (power b 4) := by rw [power_add,power_mul,power_256]
    _ = power b 256 := (power_add b 252 4).symm
    _ = b := power_256 b

end Power

section Bytes

theorem affine_inverse : ∀ i : UInt8,
    (fun b => rotateLeft b 1 ^^^ rotateLeft b 3 ^^^ rotateLeft b 6 ^^^ 0x05)
      (i ^^^ rotateLeft i 1 ^^^ rotateLeft i 2 ^^^ rotateLeft i 3 ^^^ rotateLeft i 4 ^^^ 0x63) =
        i :=
  forall_byte (by decide +kernel)

theorem invSubByte_subByte (b : UInt8) : invSubByte (subByte b) = b :=
  (congrArg inverse (affine_inverse (inverse b))).trans (inverse_inverse b)

def xorSum (f : Nat → UInt8) : UInt8 := (List.range 4).foldl (fun acc j => acc ^^^ f j) 0

theorem xorSum_eq (f : Nat → UInt8) : xorSum f = f 0 ^^^ f 1 ^^^ f 2 ^^^ f 3 := by
  change 0 ^^^ f 0 ^^^ f 1 ^^^ f 2 ^^^ f 3 = _
  rw [UInt8.zero_xor]

theorem xorSum_congr {f g : Nat → UInt8} (h : ∀ j < 4, f j = g j) : xorSum f = xorSum g := by
  rw [xorSum_eq,xorSum_eq,h 0 (by decide),h 1 (by decide),h 2 (by decide),h 3 (by decide)]

theorem mul_xorSum (a : UInt8) (f : Nat → UInt8) :
    mul a (xorSum f) = xorSum fun j => mul a (f j) := by
  rw [xorSum_eq,xorSum_eq,mul_xor,mul_xor,mul_xor]

theorem xorSum_mul (f : Nat → UInt8) (b : UInt8) :
    mul (xorSum f) b = xorSum fun j => mul (f j) b := by
  rw [xorSum_eq,xorSum_eq,xor_mul,xor_mul,xor_mul]

theorem xorSum_xor (f g : Nat → UInt8) :
    (xorSum fun j => f j ^^^ g j) = xorSum f ^^^ xorSum g := by
  rw [xorSum_eq,xorSum_eq,xorSum_eq,xor_xor_xor_comm (f 0),xor_xor_xor_comm (f 0 ^^^ f 1),
    xor_xor_xor_comm (f 0 ^^^ f 1 ^^^ f 2)]

theorem xorSum_comm (f : Nat → Nat → UInt8) :
    (xorSum fun j => xorSum (f j)) = xorSum fun k => xorSum fun j => f j k := by
  have h : (fun j => xorSum (f j)) = fun j => f j 0 ^^^ f j 1 ^^^ f j 2 ^^^ f j 3 :=
    funext fun j => xorSum_eq _
  rw [h,xorSum_xor,xorSum_xor,xorSum_xor,xorSum_eq fun k => xorSum fun j => f j k]

theorem one_mul (b : UInt8) : mul 1 b = b := by rw [mul_comm,mul_one]

theorem zero_mul (b : UInt8) : mul 0 b = 0 := (additive_mul_left b).zero

theorem xorSum_single {i : Nat} (hi : i < 4) (f : Nat → UInt8) :
    (xorSum fun k => mul (if k = i then 1 else 0) (f k)) = f i := by
  have hterm : (fun k => mul (if k = i then 1 else 0) (f k)) =
      fun k => if k = i then f k else 0 := by
    funext k
    split
    · exact one_mul _
    · exact zero_mul _
  rw [hterm,xorSum_eq]
  obtain rfl | rfl | rfl | rfl : i = 0 ∨ i = 1 ∨ i = 2 ∨ i = 3 := by omega
  · simp
  · simp
  · simp
  · simp

end Bytes

section Block

theorem byte_block (f : Nat → UInt8) {i : Nat} (hi : i < blockSize) : byte (block f) i = f i := by
  rw [byte,block,List.getD_eq_getElem _ _ (by rwa [List.length_map,List.length_range]),
    List.getElem_map,List.getElem_range]

theorem block_congr {f g : Nat → UInt8} (h : ∀ i < blockSize, f i = g i) : block f = block g :=
  List.map_congr_left fun i hi => h i (List.mem_range.mp hi)

theorem block_byte {s : Bytes} (hs : s.length = blockSize) : block (byte s) = s := by
  apply List.ext_getElem (by rw [length_block,hs])
  intro i h h'
  rw [length_block] at h
  have hb := byte_block (byte s) h
  rwa [byte,byte,List.getD_eq_getElem,List.getD_eq_getElem] at hb

theorem length_xorBlock (a b : Bytes) : (xorBlock a b).length = blockSize := length_block _

theorem length_mixColumns (s : Bytes) : (mixColumns s).length = blockSize := length_block _

variable {s k : Bytes}

theorem xorBlock_xorBlock (hs : s.length = blockSize) : xorBlock (xorBlock s k) k = s := by
  refine Eq.trans (block_congr fun i hi => ?_) (block_byte hs)
  rw [xorBlock,byte_block _ hi,UInt8.xor_assoc,UInt8.xor_self,UInt8.xor_zero]

theorem invShiftRows_shiftRows (hs : s.length = blockSize) : invShiftRows (shiftRows s) = s := by
  refine Eq.trans (block_congr fun i hi => ?_) (block_byte hs)
  have hindex : ∀ i < blockSize, (i + 12 * (i % 4)) % 16 < blockSize ∧
      ((i + 12 * (i % 4)) % 16 + 4 * ((i + 12 * (i % 4)) % 16 % 4)) % 16 = i := by decide
  obtain ⟨hlt,heq⟩ := hindex i hi
  rw [shiftRows,byte_block _ hlt,heq]

theorem invSubBytes_subBytes (s : Bytes) : (s.map subByte).map invSubByte = s := by
  rw [List.map_map]
  exact (List.map_congr_left fun b _ => invSubByte_subByte b).trans (List.map_id s)

theorem byte_mix (coefficients : List UInt8) (s : Bytes) {i : Nat} (hi : i < blockSize) :
    byte (mix coefficients s) i = xorSum fun j =>
      mul (byte coefficients ((j + 4 - i % 4) % 4)) (byte s (i / 4 * 4 + j)) :=
  byte_block _ hi

theorem mix_mix {coefficients row : List UInt8} (hs : s.length = blockSize)
    (h : ∀ i < 4, ∀ k < 4, (xorSum fun j => mul (byte row ((j + 4 - i) % 4))
      (byte coefficients ((k + 4 - j) % 4))) = if k = i then 1 else 0) :
    mix row (mix coefficients s) = s := by
  refine Eq.trans (block_congr fun i hi => ?_) (block_byte hs)
  have hr : i % 4 < 4 := Nat.mod_lt _ (by decide)
  have hcell : ∀ j < 4, byte (mix coefficients s) (i / 4 * 4 + j) = xorSum fun k =>
      mul (byte coefficients ((k + 4 - j) % 4)) (byte s (i / 4 * 4 + k)) := by
    intro j hj
    have hdiv : (i / 4 * 4 + j) / 4 = i / 4 := by omega
    have hmod : (i / 4 * 4 + j) % 4 = j := by omega
    rw [byte_mix,hdiv,hmod]
    simp only [blockSize] at hi ⊢
    omega
  calc xorSum (fun j => mul (byte row ((j + 4 - i % 4) % 4))
        (byte (mix coefficients s) (i / 4 * 4 + j)))
      = xorSum fun j => xorSum fun k => mul (mul (byte row ((j + 4 - i % 4) % 4))
          (byte coefficients ((k + 4 - j) % 4))) (byte s (i / 4 * 4 + k)) := by
        refine xorSum_congr fun j hj => ?_
        rw [hcell j hj,mul_xorSum]
        exact xorSum_congr fun k _ => (mul_assoc _ _ _).symm
    _ = xorSum fun k => mul (if k = i % 4 then 1 else 0) (byte s (i / 4 * 4 + k)) := by
        rw [xorSum_comm]
        refine xorSum_congr fun k hk => ?_
        rw [← xorSum_mul,h (i % 4) hr k hk]
    _ = byte s (i / 4 * 4 + i % 4) := xorSum_single hr _
    _ = byte s i := by rw [Nat.div_add_mod']

theorem invMixColumns_mixColumns (hs : s.length = blockSize) :
    invMixColumns (mixColumns s) = s := mix_mix hs (by decide +kernel)

end Block

section Rounds

def subShift (s : Bytes) : Bytes := shiftRows (s.map subByte)

theorem length_subShift (s : Bytes) : (subShift s).length = blockSize := length_block _

def invSubShift (s : Bytes) : Bytes := (invShiftRows s).map invSubByte

variable {s k : Bytes} {words : List Bytes}

theorem invSubShift_subShift (hs : s.length = blockSize) : invSubShift (subShift s) = s := by
  rw [invSubShift,subShift,invShiftRows_shiftRows (by rwa [List.length_map]),invSubBytes_subBytes]

theorem length_encryptRounds (n r : Nat) (hs : s.length = blockSize) :
    (encryptRounds words n r s).length = blockSize := by
  induction n generalizing r s with
  | zero => exact hs
  | succ n ih => exact ih (r + 1) (length_block _)

theorem encryptRounds_succ (n r : Nat) (s : Bytes) : encryptRounds words (n + 1) r s =
    xorBlock (mixColumns (subShift (encryptRounds words n r s))) (roundKey words (r + n)) := by
  induction n generalizing r s with
  | zero => rfl
  | succ n ih =>
    rw [encryptRounds,ih,encryptRounds,Nat.add_right_comm,Nat.add_assoc]

-- the last round taken off the encryption is the first round of the decryption
theorem decryptRounds_encryptRounds (n : Nat) (hs : s.length = blockSize) :
    decryptRounds words n (subShift (encryptRounds words n 1 s)) = subShift s := by
  induction n with
  | zero => rfl
  | succ n ih =>
    have hround : invMixColumns (xorBlock (invSubShift (subShift (encryptRounds words (n + 1) 1 s)))
        (roundKey words (n + 1))) = subShift (encryptRounds words n 1 s) := by
      rw [invSubShift_subShift (length_encryptRounds _ _ hs),encryptRounds_succ,Nat.add_comm 1 n,
        xorBlock_xorBlock (length_mixColumns _),invMixColumns_mixColumns (length_subShift _)]
    rw [decryptRounds]
    exact (congrArg (decryptRounds words n) hround).trans ih

theorem length_encryptBlock (key s : Bytes) : (encryptBlock key s).length = blockSize :=
  length_block _

theorem decryptBlock_encryptBlock (key : Bytes) (hs : s.length = blockSize) :
    decryptBlock key (encryptBlock key s) = s := by
  have hrounds : decryptRounds (keyExpansion key) (rounds key - 1) (subShift (encryptRounds
      (keyExpansion key) (rounds key - 1) 1 (xorBlock s (roundKey (keyExpansion key) 0)))) =
        subShift (xorBlock s (roundKey (keyExpansion key) 0)) :=
    decryptRounds_encryptRounds (rounds key - 1)
      (length_xorBlock s (roundKey (keyExpansion key) 0))
  have hcrypt : xorBlock (encryptBlock key s) (roundKey (keyExpansion key) (rounds key)) =
      subShift (encryptRounds (keyExpansion key) (rounds key - 1) 1
        (xorBlock s (roundKey (keyExpansion key) 0))) := xorBlock_xorBlock (length_block _)
  calc decryptBlock key (encryptBlock key s)
      = xorBlock (invSubShift (decryptRounds (keyExpansion key) (rounds key - 1)
          (xorBlock (encryptBlock key s) (roundKey (keyExpansion key) (rounds key)))))
          (roundKey (keyExpansion key) 0) := rfl
    _ = xorBlock (invSubShift (subShift (xorBlock s (roundKey (keyExpansion key) 0))))
          (roundKey (keyExpansion key) 0) := by
        rw [hcrypt]
        exact congrArg (fun t => xorBlock (invSubShift t) _) hrounds
    _ = s := by rw [invSubShift_subShift (length_xorBlock _ _),xorBlock_xorBlock hs]

end Rounds

section Chaining

theorem take_append_block {a : Bytes} (ha : a.length = blockSize) (b : Bytes) :
    (a ++ b).take blockSize = a ∧ (a ++ b).drop blockSize = b := by
  rw [← ha]
  exact ⟨List.take_left,List.drop_left⟩

theorem decryptLoop_encryptLoop (key : Bytes) {n : Nat} {iv bs : Bytes}
    (hbs : bs.length = blockSize * n) (hiv : iv.length = blockSize) :
    decryptLoop key n iv (encryptLoop key n iv bs) = bs := by
  induction n generalizing iv bs with
  | zero => exact (List.eq_nil_of_length_eq_zero hbs).symm
  | succ n ih =>
    rw [Nat.mul_succ] at hbs
    have hblock : (bs.take blockSize).length = blockSize := by
      rw [List.length_take,hbs,Nat.min_eq_left (Nat.le_add_left _ _)]
    have hrest : (bs.drop blockSize).length = blockSize * n := by
      rw [List.length_drop,hbs,Nat.add_sub_cancel]
    obtain ⟨htake,hdrop⟩ := take_append_block
      (length_encryptBlock key (xorBlock (bs.take blockSize) iv))
      (encryptLoop key n (encryptBlock key (xorBlock (bs.take blockSize) iv)) (bs.drop blockSize))
    rw [encryptLoop,decryptLoop,htake,hdrop,decryptBlock_encryptBlock key (length_xorBlock _ _),
      xorBlock_xorBlock hblock,ih hrest (length_encryptBlock _ _),List.take_append_drop]

theorem cbc_decrypt_encrypt (key : Bytes) {iv bs : Bytes} (hbs : bs.length % blockSize = 0)
    (hiv : iv.length = blockSize) : cbc.decrypt key iv (cbc.encrypt key iv bs) = bs := by
  have hlen : (cbc.encrypt key iv bs).length = bs.length := cbc.length_encrypt key iv bs hbs
  have hn : bs.length = blockSize * (bs.length / blockSize) :=
    (Nat.mul_div_cancel' (Nat.dvd_of_mod_eq_zero hbs)).symm
  calc cbc.decrypt key iv (cbc.encrypt key iv bs)
      = decryptLoop key ((cbc.encrypt key iv bs).length / blockSize) iv
          (encryptLoop key (bs.length / blockSize) iv bs) := rfl
    _ = bs := by rw [hlen,decryptLoop_encryptLoop key hn hiv]

end Chaining

end LiMaoIM.Aes

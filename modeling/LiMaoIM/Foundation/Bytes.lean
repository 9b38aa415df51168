import LiMaoIM.Foundation.Outcome

namespace LiMaoIM

abbrev Bytes := List UInt8

namespace Bytes

instance : LawfulBEq Bytes := inferInstance

def ofString (s : String) : Bytes := s.toUTF8.data.toList

def hexDigit (n : Nat) : UInt8 := if n < 10 then UInt8.ofNat (48 + n) else UInt8.ofNat (87 + n)

def putUint : Nat → Nat → Bytes
  | 0, _ => []
  | w + 1, n => putUint w (n / 256) ++ [UInt8.ofNat (n % 256)]

def uint (bs : Bytes) : Nat := bs.foldl (fun n b => n * 256 + b.toNat) 0

@[simp] theorem length_putUint (w n : Nat) : (putUint w n).length = w := by
  induction w generalizing n with
  | zero => rfl
  | succ w ih => simp [putUint, ih]

theorem uint_append_singleton (bs : Bytes) (b : UInt8) :
    uint (bs ++ [b]) = uint bs * 256 + b.toNat := by
  simp [uint]

theorem uint_putUint (w n : Nat) : uint (putUint w n) = n % 256 ^ w := by
  induction w generalizing n with
  | zero => simp [putUint, uint, Nat.mod_one]
  | succ w ih =>
    have h : n % 256 % 2 ^ 8 = n % 256 := Nat.mod_eq_of_lt (Nat.mod_lt _ (by norm_num))
    rw [putUint, uint_append_singleton, ih, UInt8.toNat_ofNat', h, pow_succ', Nat.mod_mul]
    omega

theorem putUint_mod (w n : Nat) : putUint w (n % 256 ^ w) = putUint w n := by
  induction w generalizing n with
  | zero => rfl
  | succ w ih =>
    have hlow : n % 256 ^ (w + 1) % 256 = n % 256 :=
      Nat.mod_mod_of_dvd n (Dvd.intro_left (256 ^ w) (pow_succ 256 w).symm)
    have hhigh : n % 256 ^ (w + 1) / 256 = n / 256 % 256 ^ w := by
      rw [pow_succ', Nat.mod_mul_right_div_self]
    rw [putUint, putUint, hlow, hhigh, ih]

theorem uint_putUint_of_lt {w n : Nat} (h : n < 256 ^ w) : uint (putUint w n) = n := by
  rw [uint_putUint, Nat.mod_eq_of_lt h]

theorem putUint_uint (bs : Bytes) : putUint bs.length (uint bs) = bs := by
  induction bs using List.reverseRecOn with
  | nil => rfl
  | append_singleton bs b ih =>
    have hb : b.toNat < 256 := b.toNat_lt
    have hdiv : (uint bs * 256 + b.toNat) / 256 = uint bs := by omega
    have hmod : (uint bs * 256 + b.toNat) % 256 = b.toNat := by omega
    rw [List.length_append, List.length_singleton, putUint, uint_append_singleton, hdiv,
      hmod, ih, UInt8.ofNat_toNat]

theorem uint_lt (bs : Bytes) : uint bs < 256 ^ bs.length := by
  induction bs using List.reverseRecOn with
  | nil => simp [uint]
  | append_singleton bs b ih =>
    rw [uint_append_singleton, List.length_append, List.length_singleton, pow_succ]
    have hb : b.toNat < 256 := b.toNat_lt
    omega

end Bytes
end LiMaoIM

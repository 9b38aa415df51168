import LiMaoIM.Foundation.Bytes

namespace LiMaoIM.Base64

def alphabet : Bytes :=
  Bytes.ofString "ABCDEFGHIJKLMNOPQRSTUVWXYZabcdefghijklmnopqrstuvwxyz0123456789+/"

def pad : UInt8 := 0x3D

def digit (n : Nat) : UInt8 := alphabet.getD (n % 64) pad

def value (b : UInt8) : Option Nat := alphabet.idxOf? b

def encodeToString : Bytes → Bytes
  | [] => []
  | [a] => [digit (a.toNat / 4),digit (a.toNat % 4 * 16),pad,pad]
  | [a,b] =>
      [digit (a.toNat / 4),digit (a.toNat % 4 * 16 + b.toNat / 16),digit (b.toNat % 16 * 4),pad]
  | a :: b :: c :: rest =>
      digit (a.toNat / 4) :: digit (a.toNat % 4 * 16 + b.toNat / 16) ::
        digit (b.toNat % 16 * 4 + c.toNat / 64) :: digit c.toNat :: encodeToString rest

def decodeQuanta : Bytes → Option Bytes
  | [] => some []
  | [a,b,0x3D,0x3D] => do
      let w ← value a
      let x ← value b
      pure [UInt8.ofNat (w * 4 + x / 16)]
  | [a,b,c,0x3D] => do
      let w ← value a
      let x ← value b
      let y ← value c
      pure [UInt8.ofNat (w * 4 + x / 16),UInt8.ofNat (x % 16 * 16 + y / 4)]
  | a :: b :: c :: d :: rest => do
      let w ← value a
      let x ← value b
      let y ← value c
      let z ← value d
      let out ← decodeQuanta rest
      pure (UInt8.ofNat (w * 4 + x / 16) :: UInt8.ofNat (x % 16 * 16 + y / 4) ::
        UInt8.ofNat (y % 4 * 64 + z) :: out)
  | _ => none

def decodeString (s : Bytes) : Option Bytes :=
  decodeQuanta (s.filter fun b => ¬ (b = 0x0A ∨ b = 0x0D))

def decodedLen (n : Nat) : Nat := n / 4 * 3

example : decodeString (encodeToString (Bytes.ofString "Man 12")) =
    some (Bytes.ofString "Man 12") :=
  by decide +kernel

def Digit (c : UInt8) (n : Nat) : Prop :=
  value c = some n ∧ c ≠ pad ∧ c ≠ 0x0A ∧ c ≠ 0x0D

theorem digit_digit {n : Nat} (hn : n < 64) : Digit (digit n) n := by
  have h : ∀ n < 64,
      value (digit n) = some n ∧ digit n ≠ pad ∧ digit n ≠ 0x0A ∧ digit n ≠ 0x0D := by
    decide +kernel
  exact h n hn

theorem decodeQuanta_full {c₁ c₂ c₃ c₄ : UInt8} {w x y z : Nat} (h₁ : Digit c₁ w)
    (h₂ : Digit c₂ x) (h₃ : Digit c₃ y) (h₄ : Digit c₄ z) (rest : Bytes) :
    decodeQuanta (c₁ :: c₂ :: c₃ :: c₄ :: rest) = (decodeQuanta rest).map fun out =>
      UInt8.ofNat (w * 4 + x / 16) :: UInt8.ofNat (x % 16 * 16 + y / 4) ::
        UInt8.ofNat (y % 4 * 64 + z) :: out := by
  have hpad : c₄ ≠ 0x3D := h₄.2.1
  rw [decodeQuanta,h₁.1,h₂.1,h₃.1,h₄.1]
  · cases decodeQuanta rest <;> rfl
  · exact fun _ h _ => hpad h
  · exact fun h _ => hpad h

theorem decodeQuanta_pad {c₁ c₂ c₃ : UInt8} {w x y : Nat} (h₁ : Digit c₁ w) (h₂ : Digit c₂ x)
    (h₃ : Digit c₃ y) : decodeQuanta [c₁,c₂,c₃,pad] =
      some [UInt8.ofNat (w * 4 + x / 16),UInt8.ofNat (x % 16 * 16 + y / 4)] := by
  have hpad : c₃ ≠ 0x3D := h₃.2.1
  rw [pad,decodeQuanta,h₁.1,h₂.1,h₃.1]
  · rfl
  · exact hpad

theorem decodeQuanta_pad_pad {c₁ c₂ : UInt8} {w x : Nat} (h₁ : Digit c₁ w) (h₂ : Digit c₂ x) :
    decodeQuanta [c₁,c₂,pad,pad] = some [UInt8.ofNat (w * 4 + x / 16)] := by
  rw [pad,decodeQuanta,h₁.1,h₂.1]
  rfl

theorem ofNat_eq {b : UInt8} {n : Nat} (h : n = b.toNat) : UInt8.ofNat n = b := by
  rw [h,UInt8.ofNat_toNat]

theorem decodeQuanta_encodeToString (bs : Bytes) :
    decodeQuanta (encodeToString bs) = some bs := by
  fun_induction encodeToString bs with
  | case1 => rfl
  | case2 a =>
    have ha := a.toNat_lt
    rw [decodeQuanta_pad_pad (digit_digit (by omega)) (digit_digit (by omega)),
      ofNat_eq (b := a) (by omega)]
  | case3 a b =>
    have ha := a.toNat_lt
    have hb := b.toNat_lt
    rw [decodeQuanta_pad (digit_digit (by omega)) (digit_digit (by omega)) (digit_digit (by omega)),
      ofNat_eq (b := a) (by omega),ofNat_eq (b := b) (by omega)]
  | case4 a b c rest ih =>
    have ha := a.toNat_lt
    have hb := b.toNat_lt
    have hc := c.toNat_lt
    have hlast : digit c.toNat = digit (c.toNat % 64) := by rw [digit,digit,Nat.mod_mod]
    rw [hlast,decodeQuanta_full (digit_digit (by omega)) (digit_digit (by omega))
      (digit_digit (by omega)) (digit_digit (by omega)),ih,Option.map_some,
      ofNat_eq (b := a) (by omega),ofNat_eq (b := b) (by omega),ofNat_eq (b := c) (by omega)]

theorem digit_not_newline (n : Nat) : ¬ (digit n = 0x0A ∨ digit n = 0x0D) := by
  have h := digit_digit (Nat.mod_lt n (by decide : 0 < 64))
  rw [digit,Nat.mod_mod] at h
  exact not_or.mpr h.2.2

theorem encodeToString_not_newline (bs : Bytes) :
    ∀ c ∈ encodeToString bs, ¬ (c = 0x0A ∨ c = 0x0D) := by
  have hpad : ¬ (pad = 0x0A ∨ pad = 0x0D) := by decide
  have hnil : ∀ c ∈ ([] : Bytes), ¬ (c = 0x0A ∨ c = 0x0D) := fun _ h => absurd h List.not_mem_nil
  fun_induction encodeToString bs with
  | case1 => exact hnil
  | case2 a =>
    simp only [List.forall_mem_cons]
    exact ⟨digit_not_newline _,digit_not_newline _,hpad,hpad,hnil⟩
  | case3 a b =>
    simp only [List.forall_mem_cons]
    exact ⟨digit_not_newline _,digit_not_newline _,digit_not_newline _,hpad,hnil⟩
  | case4 a b c rest ih =>
    simp only [List.forall_mem_cons]
    exact ⟨digit_not_newline _,digit_not_newline _,digit_not_newline _,digit_not_newline _,ih⟩

theorem decodeString_encodeToString (bs : Bytes) : decodeString (encodeToString bs) = some bs := by
  rw [decodeString,List.filter_eq_self.mpr]
  · exact decodeQuanta_encodeToString bs
  · exact fun c hc => decide_eq_true (encodeToString_not_newline bs c hc)

theorem length_encodeToString (bs : Bytes) :
    (encodeToString bs).length = (bs.length + 2) / 3 * 4 := by
  fun_induction encodeToString bs with
  | case1 => rfl
  | case2 a => simp
  | case3 a b => simp
  | case4 a b c rest ih =>
    simp only [List.length_cons,ih]
    omega

end LiMaoIM.Base64

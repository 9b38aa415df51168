import LiMaoIM.Foundation.Bytes

namespace LiMaoIM

namespace Bytes

def decimal (n : Nat) : Bytes := (Nat.toDigits 10 n).map fun c => UInt8.ofNat c.toNat

theorem digit_bounds {c : Char} {n : Nat} (h : c ∈ Nat.toDigits 10 n) :
    48 ≤ c.toNat ∧ c.toNat ≤ 57 := by
  have hd := Nat.isDigit_of_mem_toDigits (by omega) (by omega) h
  simp only [Char.isDigit, Bool.and_eq_true, decide_eq_true_eq, ge_iff_le,
    UInt32.le_iff_toNat_le] at hd
  exact hd

theorem toNat_digit {c : Char} {n : Nat} (h : c ∈ Nat.toDigits 10 n) :
    (UInt8.ofNat c.toNat).toNat = c.toNat := by
  have hb := digit_bounds h
  rw [UInt8.toNat_ofNat', Nat.mod_eq_of_lt (by omega)]

theorem mem_decimal {b : UInt8} {n : Nat} (h : b ∈ decimal n) : 48 ≤ b.toNat ∧ b.toNat ≤ 57 := by
  obtain ⟨c,hc,rfl⟩ := List.mem_map.mp h
  rw [toNat_digit hc]
  exact digit_bounds hc

def chars (bs : Bytes) : List Char := bs.map fun b => Char.ofNat b.toNat

theorem chars_decimal (n : Nat) : chars (decimal n) = Nat.toDigits 10 n := by
  have hid : ∀ c ∈ Nat.toDigits 10 n, Char.ofNat (UInt8.ofNat c.toNat).toNat = c := by
    intro c hc
    rw [toNat_digit hc, Char.ofNat_toNat]
  rw [chars, decimal, List.map_map]
  exact (List.map_congr_left hid).trans (List.map_id' _)

theorem decimal_injective : Function.Injective decimal := by
  intro m n h
  have hd : Nat.toDigits 10 m = Nat.toDigits 10 n := by rw [← chars_decimal, ← chars_decimal, h]
  rw [← Nat.ofDigitChars_ten_toDigits (n := m), hd, Nat.ofDigitChars_ten_toDigits]

def minus : UInt8 := 0x2d

def signed (i : Int) : Bytes :=
  if i < 0 then minus :: decimal i.natAbs else decimal i.natAbs

theorem mem_signed {b : UInt8} {i : Int} (h : b ∈ signed i) :
    b = minus ∨ 48 ≤ b.toNat ∧ b.toNat ≤ 57 := by
  rw [signed] at h
  split at h
  · rcases List.mem_cons.mp h with rfl | h
    · exact Or.inl rfl
    · exact Or.inr (mem_decimal h)
  · exact Or.inr (mem_decimal h)

theorem minus_not_mem_decimal (n : Nat) : minus ∉ decimal n := by
  intro h
  have hb := (mem_decimal h).1
  exact absurd hb (by decide)

theorem signed_injective : Function.Injective signed := by
  intro i j h
  rw [signed, signed] at h
  split at h
  · split at h
    · have habs := decimal_injective (List.cons.inj h).2
      omega
    · exact absurd (h ▸ List.mem_cons_self) (minus_not_mem_decimal j.natAbs)
  · split at h
    · exact absurd (h ▸ List.mem_cons_self) (minus_not_mem_decimal i.natAbs)
    · have habs := decimal_injective h
      omega

theorem length_decimal_pos (n : Nat) : 0 < (decimal n).length := by
  rw [decimal, List.length_map]
  exact Nat.length_toDigits_pos

def parseUintLoop : Nat → Bytes → Nat
  | n, [] => n
  | n, b :: bs =>
      if 48 ≤ b.toNat ∧ b.toNat ≤ 57 then
        if 2 ^ 64 ≤ 10 * n + (b.toNat - 48) then 2 ^ 64 - 1
        else parseUintLoop (10 * n + (b.toNat - 48)) bs
      else 0

def parseUint (bs : Bytes) : Nat := parseUintLoop 0 bs

theorem parseUintLoop_digits (n k : Nat) {cs : List Char} (hcs : ∀ c ∈ cs, c ∈ Nat.toDigits 10 k)
    (h : Nat.ofDigitChars 10 cs n < 2 ^ 64) :
    parseUintLoop n (cs.map fun c => UInt8.ofNat c.toNat) = Nat.ofDigitChars 10 cs n := by
  induction cs generalizing n with
  | nil => rfl
  | cons c cs ih =>
    have hc := hcs c List.mem_cons_self
    have hb := digit_bounds hc
    rw [Nat.ofDigitChars_cons] at h ⊢
    have hle : 10 * n + (c.toNat - 48) ≤ Nat.ofDigitChars 10 cs (10 * n + (c.toNat - '0'.toNat)) := by
      rw [Nat.ofDigitChars_eq_ofDigitChars_zero]
      have hpow := Nat.one_le_pow cs.length 10 (by omega)
      have hmul := Nat.le_mul_of_pos_left (10 * n + (c.toNat - '0'.toNat)) hpow
      exact hmul.trans (Nat.le_add_right _ _)
    rw [List.map_cons, parseUintLoop, toNat_digit hc, if_pos hb, if_neg (by omega)]
    exact ih _ (fun x hx => hcs x (List.mem_cons_of_mem _ hx)) h

theorem parseUint_decimal {n : Nat} (h : n < 2 ^ 64) : parseUint (decimal n) = n := by
  have hval : Nat.ofDigitChars 10 (Nat.toDigits 10 n) 0 = n := Nat.ofDigitChars_ten_toDigits
  rw [parseUint, decimal, parseUintLoop_digits 0 n (fun c hc => hc) (by rw [hval]; exact h), hval]

theorem last_separator {a a' d d' : Bytes} {sep : UInt8} (hd : sep ∉ d) (hd' : sep ∉ d')
    (h : a ++ sep :: d = a' ++ sep :: d') : a = a' ∧ d = d' := by
  rcases List.append_eq_append_iff.mp h with ⟨x,rfl,hx⟩ | ⟨x,rfl,hx⟩
  · cases x with
    | nil => simpa using hx
    | cons y ys =>
      have hmem : sep ∈ d := by
        obtain ⟨-,rfl⟩ : _ ∧ d = ys ++ sep :: d' := by simpa using hx
        simp
      exact absurd hmem hd
  · cases x with
    | nil => simpa [eq_comm] using hx
    | cons y ys =>
      have hmem : sep ∈ d' := by
        obtain ⟨-,rfl⟩ : _ ∧ d' = ys ++ sep :: d := by simpa using hx
        simp
      exact absurd hmem hd'

end Bytes
end LiMaoIM

import LiMaoIM.Foundation.Decimal

namespace LiMaoIM.Bytes

def padded (w n : Nat) : Bytes := List.replicate (w - (decimal n).length) 48 ++ decimal n

def digitValue (bs : Bytes) : Nat := bs.foldl (fun n b => 10 * n + (b.toNat - 48)) 0

def IsDigits (bs : Bytes) : Prop := ∀ b ∈ bs, 48 ≤ b.toNat ∧ b.toNat ≤ 57

theorem foldl_digits (bs : Bytes) (n : Nat) :
    bs.foldl (fun n b => 10 * n + (b.toNat - 48)) n = 10 ^ bs.length * n + digitValue bs := by
  induction bs generalizing n with
  | nil => simp [digitValue]
  | cons b bs ih =>
    rw [digitValue, List.foldl_cons, List.foldl_cons, ih, ih (10 * 0 + (b.toNat - 48)),
      List.length_cons, pow_succ]
    ring

theorem digitValue_cons (b : UInt8) (bs : Bytes) :
    digitValue (b :: bs) = 10 ^ bs.length * (b.toNat - 48) + digitValue bs := by
  rw [digitValue, List.foldl_cons, foldl_digits]
  simp

theorem digitValue_lt {bs : Bytes} (h : IsDigits bs) : digitValue bs < 10 ^ bs.length := by
  induction bs with
  | nil => simp [digitValue]
  | cons b bs ih =>
    have hb := h b List.mem_cons_self
    have hrest := ih fun c hc => h c (List.mem_cons_of_mem _ hc)
    have hmul : 10 ^ bs.length * (b.toNat - 48) ≤ 10 ^ bs.length * 9 :=
      Nat.mul_le_mul_left _ (by omega)
    rw [digitValue_cons, List.length_cons, pow_succ]
    omega

theorem append_lt_append {as bs : Bytes} (ha : IsDigits as) (hb : IsDigits bs)
    (hlen : as.length = bs.length) (h : digitValue as < digitValue bs) (suffix : Bytes) :
    as ++ suffix < bs ++ suffix := by
  induction as generalizing bs with
  | nil =>
    obtain rfl := List.length_eq_zero_iff.mp hlen.symm
    exact absurd h (Nat.lt_irrefl _)
  | cons a as ih =>
    cases bs with
    | nil => cases hlen
    | cons b bs =>
      have hlen' : as.length = bs.length := Nat.succ.inj hlen
      have hda := ha a List.mem_cons_self
      have hdb := hb b List.mem_cons_self
      have hta : IsDigits as := fun c hc => ha c (List.mem_cons_of_mem _ hc)
      have htb : IsDigits bs := fun c hc => hb c (List.mem_cons_of_mem _ hc)
      have hla := digitValue_lt hta
      have hlb := digitValue_lt htb
      rw [digitValue_cons, digitValue_cons, hlen'] at h
      rw [List.cons_append, List.cons_append, List.cons_lt_cons_iff]
      rcases Nat.lt_trichotomy a.toNat b.toNat with hlt | heq | hgt
      · exact Or.inl (UInt8.lt_iff_toNat_lt.mpr hlt)
      · refine Or.inr ⟨UInt8.toNat_inj.mp heq,ih hta htb hlen' ?_⟩
        rw [heq] at h
        omega
      · have hstep : 10 ^ bs.length * (b.toNat - 48 + 1) ≤ 10 ^ bs.length * (a.toNat - 48) :=
          Nat.mul_le_mul_left _ (by omega)
        rw [Nat.mul_add, Nat.mul_one] at hstep
        rw [hlen'] at hla
        omega

theorem isDigits_padded (w n : Nat) : IsDigits (padded w n) := by
  intro b hb
  rcases List.mem_append.mp hb with hb | hb
  · rw [(List.mem_replicate.mp hb).2]
    decide
  · exact mem_decimal hb

theorem length_padded {w n : Nat} (hw : 0 < w) (h : n < 10 ^ w) : (padded w n).length = w := by
  have hle := (Nat.length_toDigits_le_iff (b := 10) (by omega) hw).mpr h
  rw [padded, List.length_append, List.length_replicate, decimal, List.length_map]
  omega

theorem chars_padded (w n : Nat) :
    chars (padded w n) = List.replicate (w - (decimal n).length) '0' ++ Nat.toDigits 10 n := by
  have hzero : Char.ofNat (48 : UInt8).toNat = '0' := rfl
  rw [padded, ← chars_decimal]
  simp only [chars, List.map_append, List.map_replicate, hzero]

theorem ofDigitChars_zeros (k : Nat) (cs : List Char) :
    Nat.ofDigitChars 10 (List.replicate k '0' ++ cs) 0 = Nat.ofDigitChars 10 cs 0 := by
  induction k with
  | zero => rfl
  | succ k ih =>
    rw [List.replicate_succ, List.cons_append, Nat.ofDigitChars_cons]
    exact ih

theorem ofDigitChars_padded (w n : Nat) : Nat.ofDigitChars 10 (chars (padded w n)) 0 = n := by
  rw [chars_padded, ofDigitChars_zeros, Nat.ofDigitChars_ten_toDigits]

theorem ofDigitChars_chars {bs : Bytes} (h : IsDigits bs) (n : Nat) :
    Nat.ofDigitChars 10 (chars bs) n = bs.foldl (fun n b => 10 * n + (b.toNat - 48)) n := by
  induction bs generalizing n with
  | nil => rfl
  | cons b bs ih =>
    have hb := h b List.mem_cons_self
    have hvalid : (Char.ofNat b.toNat).toNat = b.toNat := by
      have hv : b.toNat.isValidChar := Or.inl (by omega)
      rw [Char.ofNat, dif_pos hv]
      rfl
    rw [chars, List.map_cons, Nat.ofDigitChars_cons, List.foldl_cons, hvalid]
    exact ih (fun c hc => h c (List.mem_cons_of_mem _ hc)) _

theorem digitValue_padded (w n : Nat) : digitValue (padded w n) = n := by
  rw [digitValue, ← ofDigitChars_chars (isDigits_padded w n), ofDigitChars_padded]

theorem padded_lt_padded {w a b : Nat} (hw : 0 < w) (hb : b < 10 ^ w) (h : a < b)
    (suffix : Bytes) : padded w a ++ suffix < padded w b ++ suffix := by
  refine append_lt_append (isDigits_padded w a) (isDigits_padded w b) ?_ ?_ suffix
  · rw [length_padded hw (h.trans hb), length_padded hw hb]
  · rwa [digitValue_padded, digitValue_padded]

end LiMaoIM.Bytes

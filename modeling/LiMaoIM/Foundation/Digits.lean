import LiMaoIM.Foundation.Decimal

namespace LiMaoIM.Bytes

def isDigit (b : UInt8) : Bool := 48 ≤ b.toNat ∧ b.toNat ≤ 57

def digit (n : Nat) : UInt8 := UInt8.ofNat (48 + n)

def digits (bs : Bytes) : Nat := bs.countP isDigit

def DigitFree (bs : Bytes) : Prop := ∀ b ∈ bs, isDigit b = false

instance (bs : Bytes) : Decidable (DigitFree bs) :=
  List.decidableBAll (fun b => isDigit b = false) bs

theorem digitFree_iff {bs : Bytes} : DigitFree bs ↔ digits bs = 0 := by
  rw [DigitFree, digits, List.countP_eq_zero]
  simp only [Bool.not_eq_true]

theorem digits_append (a b : Bytes) : digits (a ++ b) = digits a + digits b := List.countP_append

theorem isDigit_of_mem_decimal {b : UInt8} {n : Nat} (h : b ∈ decimal n) : isDigit b = true :=
  decide_eq_true (mem_decimal h)

theorem digits_decimal (n : Nat) : digits (decimal n) = (decimal n).length :=
  List.countP_eq_length.mpr fun _ => isDigit_of_mem_decimal

theorem decimal_of_lt {n : Nat} (h : n < 10) : decimal n = [digit n] := by
  rw [decimal, Nat.toDigits_of_lt_base h, List.map_singleton, digit]
  interval_cases n <;> rfl

theorem decimal_of_le {n : Nat} (h : 10 ≤ n) :
    decimal n = decimal (n / 10) ++ [digit (n % 10)] := by
  have hlast := decimal_of_lt (Nat.mod_lt n (show 0 < 10 by omega))
  rw [decimal, Nat.toDigits_of_lt_base (Nat.mod_lt n (by omega))] at hlast
  rw [decimal, Nat.toDigits_of_base_le (by omega) h, List.map_append, hlast, decimal]

theorem one_le_digits_decimal (n : Nat) : 1 ≤ digits (decimal n) := by
  rw [digits_decimal]
  exact length_decimal_pos n

theorem digits_decimal_eq_one_iff {n : Nat} : digits (decimal n) = 1 ↔ n < 10 := by
  rw [digits_decimal]
  constructor
  · intro h
    by_contra hle
    rw [decimal_of_le (by omega), List.length_append, List.length_singleton] at h
    have hpos := length_decimal_pos (n / 10)
    omega
  · intro h
    rw [decimal_of_lt h, List.length_singleton]

theorem isDigit_digit {n : Nat} (h : n < 10) : isDigit (digit n) = true :=
  isDigit_of_mem_decimal (n := n) (by rw [decimal_of_lt h]; exact List.mem_singleton_self _)

theorem exists_digit {b : UInt8} (h : isDigit b = true) : ∃ n < 10, digit n = b := by
  have hb := of_decide_eq_true h
  refine ⟨b.toNat - 48,by omega,?_⟩
  rw [digit, Nat.add_sub_cancel' hb.1, UInt8.ofNat_toNat]

theorem digit_injective {m n : Nat} (hm : m < 10) (hn : n < 10) (h : digit m = digit n) :
    m = n := by
  apply decimal_injective
  rw [decimal_of_lt hm, decimal_of_lt hn, h]

theorem first_digit {a a' r r' : Bytes} {d d' : UInt8} (ha : DigitFree a) (ha' : DigitFree a')
    (hd : isDigit d = true) (hd' : isDigit d' = true) (h : a ++ d :: r = a' ++ d' :: r') :
    a = a' ∧ d = d' ∧ r = r' := by
  induction a generalizing a' with
  | nil =>
    cases a' with
    | nil =>
      obtain ⟨hhead,htail⟩ := List.cons.inj h
      exact ⟨rfl,hhead,htail⟩
    | cons b a' =>
      rw [← (List.cons.inj h).1] at ha'
      rw [ha' d List.mem_cons_self] at hd
      cases hd
  | cons b a ih =>
    cases a' with
    | nil =>
      rw [(List.cons.inj h).1] at ha
      rw [ha d' List.mem_cons_self] at hd'
      cases hd'
    | cons b' a' =>
      obtain ⟨rfl,htail⟩ := List.cons.inj h
      obtain ⟨rfl,rfl,rfl⟩ := ih (fun x hx => ha x (List.mem_cons_of_mem b hx))
        (fun x hx => ha' x (List.mem_cons_of_mem b hx)) htail
      exact ⟨rfl,rfl,rfl⟩

def render (s : Bytes) : List (Nat × Bytes) → Bytes
  | [] => s
  | (n,t) :: rest => s ++ (decimal n ++ render t rest)

structure Plain (s : Bytes) (fields : List (Nat × Bytes)) : Prop where
  head : DigitFree s
  fields : ∀ e ∈ fields, e.1 < 10 ∧ DigitFree e.2

theorem plain_cons {s : Bytes} {n : Nat} {t : Bytes} {rest : List (Nat × Bytes)} :
    Plain s ((n,t) :: rest) ↔ DigitFree s ∧ n < 10 ∧ Plain t rest := by
  constructor
  · rintro ⟨hs,hrest⟩
    obtain ⟨hn,ht⟩ := hrest _ List.mem_cons_self
    exact ⟨hs,hn,ht,fun e he => hrest e (List.mem_cons_of_mem _ he)⟩
  · rintro ⟨hs,hn,ht,hrest⟩
    refine ⟨hs,fun e he => ?_⟩
    rcases List.mem_cons.mp he with rfl | he
    · exact ⟨hn,ht⟩
    · exact hrest e he

theorem plain_iff {s : Bytes} {fields : List (Nat × Bytes)} :
    fields.length ≤ digits (render s fields) ∧
      (Plain s fields ↔ digits (render s fields) = fields.length) := by
  induction fields generalizing s with
  | nil =>
    refine ⟨Nat.zero_le _,?_⟩
    rw [render, List.length_nil, ← digitFree_iff]
    exact ⟨Plain.head,fun h => ⟨h,fun e he => absurd he List.not_mem_nil⟩⟩
  | cons e rest ih =>
    obtain ⟨n,t⟩ := e
    obtain ⟨hle,hplain⟩ := ih (s := t)
    have hone := one_le_digits_decimal n
    rw [render, digits_append, digits_append, List.length_cons, plain_cons, hplain, digitFree_iff,
      ← digits_decimal_eq_one_iff]
    omega

theorem Plain.injective {s s' : Bytes} {fields fields' : List (Nat × Bytes)} (h : Plain s fields)
    (h' : Plain s' fields') (hl : fields'.length = fields.length)
    (heq : render s fields = render s' fields') : s = s' ∧ fields = fields' := by
  induction fields generalizing s s' fields' with
  | nil =>
    obtain rfl := List.length_eq_zero_iff.mp hl
    exact ⟨heq,rfl⟩
  | cons e rest ih =>
    obtain ⟨n,t⟩ := e
    cases fields' with
    | nil => cases hl
    | cons e' rest' =>
      obtain ⟨n',t'⟩ := e'
      obtain ⟨hs,hn,hrest⟩ := plain_cons.mp h
      obtain ⟨hs',hn',hrest'⟩ := plain_cons.mp h'
      rw [render, render, decimal_of_lt hn, decimal_of_lt hn'] at heq
      obtain ⟨rfl,hdigit,htail⟩ :=
        first_digit hs hs' (isDigit_digit hn) (isDigit_digit hn') heq
      obtain rfl := digit_injective hn hn' hdigit
      obtain ⟨rfl,rfl⟩ := ih hrest hrest' (Nat.succ.inj hl) htail
      exact ⟨rfl,rfl⟩

theorem Plain.unique {s s' : Bytes} {fields fields' : List (Nat × Bytes)} (h : Plain s fields)
    (hl : fields'.length = fields.length) (heq : render s fields = render s' fields') :
    s = s' ∧ fields = fields' := by
  have h' : Plain s' fields' := by
    rw [plain_iff.2, ← heq, plain_iff.2.mp h, hl]
  exact h.injective h' hl heq

theorem exists_digit_of_not_digitFree {bs : Bytes} (h : ¬ DigitFree bs) :
    ∃ a n b, n < 10 ∧ bs = a ++ digit n :: b ∧ bs ≠ a ∧ bs ≠ b := by
  rw [DigitFree] at h
  push Not at h
  obtain ⟨d,hmem,hd⟩ := h
  obtain ⟨n,hn,rfl⟩ := exists_digit (Bool.eq_true_of_not_eq_false hd)
  obtain ⟨a,b,rfl⟩ := List.append_of_mem hmem
  refine ⟨a,n,b,hn,rfl,fun ha => ?_,fun hb => ?_⟩
  · exact List.cons_ne_nil _ _ (List.append_right_eq_self.mp ha)
  · have hlength := congrArg List.length hb
    rw [List.length_append, List.length_cons] at hlength
    omega

def sign (i : Int) : Bytes := if i < 0 then [minus] else []

theorem signed_eq (i : Int) : signed i = sign i ++ decimal i.natAbs := by
  rw [signed, sign]
  split <;> rfl

theorem signed_natCast (n : Nat) : signed (n : Int) = decimal n := by
  rw [signed, if_neg (by omega), Int.natAbs_natCast]

theorem digitFree_sign (i : Int) : DigitFree (sign i) := by
  rw [sign]
  split
  · decide
  · decide

theorem sign_tdiv {i : Int} (h : 10 ≤ i.natAbs) : sign (i.tdiv 10) = sign i := by
  obtain ⟨n,rfl | rfl⟩ := i.eq_nat_or_neg
  · have hdiv : (n : Int).tdiv 10 = (n / 10 : Nat) := rfl
    rw [hdiv, sign, sign, if_neg (by omega), if_neg (by omega)]
  · have hdiv : (-(n : Int)).tdiv 10 = -(n / 10 : Nat) := Int.neg_tdiv _ _
    rw [hdiv, sign, sign, if_pos (by omega), if_pos (by omega)]

theorem signed_of_le {i : Int} (h : 10 ≤ i.natAbs) :
    signed i = signed (i.tdiv 10) ++ [digit (i.natAbs % 10)] := by
  rw [signed_eq, signed_eq, sign_tdiv h, Int.natAbs_tdiv, decimal_of_le h, List.append_assoc]
  rfl

end LiMaoIM.Bytes

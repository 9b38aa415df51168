import LiMaoIM.Proto.Protocol

namespace LiMaoIM.Proto

open Outcome

def Terminated : Bytes → Prop
  | [] => False
  | digit :: ds => if digit &&& 128 = 0 then ds = [] else Terminated ds

def accumulate : List Nat → Bytes → Nat → Nat
  | [], _, rLength => rLength
  | _ :: _, [], rLength => rLength
  | multiplier :: ms, digit :: ds, rLength =>
      accumulate ms ds (rLength ||| ((digit &&& 127).toNat <<< multiplier))

theorem Terminated.length_pos {ds : Bytes} (h : Terminated ds) : 0 < ds.length := by
  cases ds with
  | nil => exact h.elim
  | cons d ds => simp

theorem Terminated.not_continues {ds : Bytes} (h : Terminated ds) :
    ¬ ∀ d ∈ ds, d &&& 128 ≠ 0 := by
  induction ds with
  | nil => exact h.elim
  | cons d ds ih =>
    intro hc
    have hd := hc d List.mem_cons_self
    rw [Terminated, if_neg hd] at h
    exact ih h fun x hx => hc x (List.mem_cons_of_mem _ hx)

theorem Terminated.append_continues {ds es xs ys : Bytes} (h : Terminated ds)
    (heq : ds ++ xs = es ++ ys) (hle : ds.length ≤ es.length) : ¬ ∀ d ∈ es, d &&& 128 ≠ 0 := by
  obtain ⟨zs,rfl⟩ : ds <+: es := List.prefix_of_prefix_length_le ⟨xs,rfl⟩ ⟨ys,heq.symm⟩ hle
  intro hc
  exact h.not_continues fun d hd => hc d (List.mem_append_left _ hd)

theorem terminated_induction {motive : List Nat → Bytes → Prop}
    (last : ∀ m ms digit, digit &&& 128 = 0 → motive (m :: ms) [digit])
    (more : ∀ m ms digit ds, ¬ digit &&& 128 = 0 → motive ms ds → motive (m :: ms) (digit :: ds))
    {ms : List Nat} {ds : Bytes} (ht : Terminated ds) (hl : ds.length ≤ ms.length) :
    motive ms ds := by
  induction ds generalizing ms with
  | nil => exact ht.elim
  | cons digit ds ih =>
    cases ms with
    | nil => simp at hl
    | cons m ms =>
      by_cases hd : digit &&& 128 = 0
      · rw [Terminated, if_pos hd] at ht
        rw [ht]
        exact last m ms digit hd
      · rw [Terminated, if_neg hd] at ht
        exact more m ms digit ds hd (ih ht (Nat.le_of_succ_le_succ hl))

@[simp] theorem accumulate_nil (ms : List Nat) (r : Nat) : accumulate ms [] r = r := by
  cases ms <;> rfl

theorem decodeLengthLoop_terminated {ms : List Nat} {ds rest : Bytes} {r offset : Nat}
    (ht : Terminated ds) (hl : ds.length ≤ ms.length) :
    decodeLengthLoop ms (ds ++ rest) r offset = .ok (accumulate ms ds r,offset + ds.length) := by
  refine terminated_induction (motive := fun ms ds => ∀ r offset,
    decodeLengthLoop ms (ds ++ rest) r offset = .ok (accumulate ms ds r,offset + ds.length))
    (fun m ms digit hd r offset => ?_) (fun m ms digit ds hd ih r offset => ?_) ht hl r offset
  · simp [decodeLengthLoop, accumulate, hd]
  · rw [List.cons_append, decodeLengthLoop, if_neg hd, ih, accumulate, List.length_cons]
    congr 2
    omega

theorem decodeLengthWithConnLoop_cons (m : Nat) (ms : List Nat) (b digit : UInt8) (r : Nat)
    (conn : Bytes) : decodeLengthWithConnLoop (m :: ms) b r (digit :: conn) =
      if digit &&& 128 = 0 then (r ||| ((digit &&& 127).toNat <<< m),conn)
      else decodeLengthWithConnLoop ms digit (r ||| ((digit &&& 127).toNat <<< m)) conn := rfl

theorem decodeLengthWithConnLoop_terminated {ms : List Nat} {ds rest : Bytes} {r : Nat} {b : UInt8}
    (ht : Terminated ds) (hl : ds.length ≤ ms.length) :
    decodeLengthWithConnLoop ms b r (ds ++ rest) = (accumulate ms ds r,rest) := by
  refine terminated_induction (motive := fun ms ds => ∀ b r,
    decodeLengthWithConnLoop ms b r (ds ++ rest) = (accumulate ms ds r,rest))
    (fun m ms digit hd b r => ?_) (fun m ms digit ds hd ih b r => ?_) ht hl b r
  · rw [List.cons_append, decodeLengthWithConnLoop_cons, if_pos hd, accumulate, accumulate_nil]
    rfl
  · rw [List.cons_append, decodeLengthWithConnLoop_cons, if_neg hd, ih, accumulate]

theorem last_digit (k : Nat) (h : k < 128) :
    UInt8.ofNat k &&& 128 = 0 ∧ (UInt8.ofNat k &&& 127).toNat = k := by
  have hall : ∀ k < 128, UInt8.ofNat k &&& 128 = 0 ∧ (UInt8.ofNat k &&& 127).toNat = k := by
    decide
  exact hall k h

theorem more_digit (k : Nat) (h : k < 128) :
    ¬ (UInt8.ofNat k ||| 128) &&& 128 = 0 ∧ ((UInt8.ofNat k ||| 128) &&& 127).toNat = k := by
  have hall : ∀ k < 128, ¬ (UInt8.ofNat k ||| 128) &&& 128 = 0 ∧
      ((UInt8.ofNat k ||| 128) &&& 127).toNat = k := by decide
  exact hall k h

theorem or_shiftLeft {a b i : Nat} (h : a < 2 ^ i) : a ||| (b <<< i) = a + b * 2 ^ i := by
  rw [Nat.or_comm, ← Nat.shiftLeft_add_eq_or_of_lt h, Nat.shiftLeft_eq, Nat.add_comm]

theorem encodeVariable_more {n fuel : Nat} (h : 128 ≤ n) :
    encodeVariableLoop (fuel + 1) n =
      (UInt8.ofNat (n % 128) ||| 128) :: encodeVariableLoop fuel (n / 128) := by
  have h0 : n ≠ 0 := by omega
  have hq : 0 < n / 128 := by omega
  rw [encodeVariableLoop, if_neg h0]
  simp only [if_pos hq]

theorem encodeVariableLoop_spec {fuel k n r : Nat} {ms : List Nat} (h0 : 0 < n)
    (h : n < 128 ^ fuel) (hms : ms = (List.range' k fuel).map (7 * ·)) (hr : r < 2 ^ (7 * k)) :
    Terminated (encodeVariableLoop fuel n) ∧ (encodeVariableLoop fuel n).length ≤ fuel ∧
      accumulate ms (encodeVariableLoop fuel n) r = r + n * 2 ^ (7 * k) := by
  induction fuel generalizing k n r ms with
  | zero => simp at h; omega
  | succ fuel ih =>
    rw [List.range'_succ, List.map_cons] at hms
    subst hms
    have hdig : n % 128 < 128 := Nat.mod_lt _ (by norm_num)
    have hpow : 2 ^ (7 * (k + 1)) = 128 * 2 ^ (7 * k) := by rw [Nat.mul_succ, pow_add]; omega
    by_cases hq : n / 128 = 0
    · have hn : n < 128 := by omega
      obtain ⟨hz,hv⟩ := last_digit n hn
      have he : encodeVariableLoop (fuel + 1) n = [UInt8.ofNat n] := by
        cases fuel <;> simp [encodeVariableLoop, Nat.pos_iff_ne_zero.mp h0, hq, Nat.mod_eq_of_lt hn]
      rw [he]
      refine ⟨by simp [Terminated, hz],by simp,?_⟩
      rw [accumulate, accumulate_nil, hv, or_shiftLeft hr]
    · obtain ⟨hz,hv⟩ := more_digit (n % 128) hdig
      rw [encodeVariable_more (by omega)]
      have hr' : r + n % 128 * 2 ^ (7 * k) < 2 ^ (7 * (k + 1)) := by
        rw [hpow]
        nlinarith [Nat.two_pow_pos (7 * k)]
      obtain ⟨ht,hl,ha⟩ := ih (k := k + 1) (n := n / 128) (Nat.pos_of_ne_zero hq)
        (by rw [pow_succ] at h; omega) rfl hr'
      refine ⟨by simpa [Terminated, hz] using ht,by simpa using hl,?_⟩
      rw [accumulate, hv, or_shiftLeft hr, ha, hpow]
      have hn := Nat.div_add_mod n 128
      nlinarith

theorem encodeVariableLoop_fuel {fuel n : Nat} (h : n < 128 ^ fuel) :
    encodeVariableLoop (fuel + 1) n = encodeVariableLoop fuel n := by
  induction fuel generalizing n with
  | zero =>
    have hn : n = 0 := by simpa using h
    simp [encodeVariableLoop, hn]
  | succ fuel ih =>
    have hq : n / 128 < 128 ^ fuel := by rw [pow_succ] at h; omega
    conv_lhs => rw [encodeVariableLoop, ih hq]
    rw [encodeVariableLoop]

structure LengthField (ds : Bytes) (n : Nat) : Prop where
  terminated : Terminated ds
  length_le : ds.length ≤ multipliers.length
  value : accumulate multipliers ds 0 = n

theorem encodeVariable_lengthField {n : Nat} (h0 : 0 < n) (h : n < 2 ^ 28) :
    LengthField (encodeVariable n) n := by
  have hp : n < 128 ^ 4 := by omega
  have hs := encodeVariableLoop_spec (k := 0) (r := 0) h0 hp (rfl : multipliers = _) (by simp)
  rw [encodeVariable, encodeVariableLoop_fuel hp]
  exact ⟨hs.1,hs.2.1,by simpa using hs.2.2⟩

theorem accumulate_lt {ms : List Nat} {ds : Bytes} {r : Nat} (hm : ∀ m ∈ ms, m ≤ 21)
    (hr : r < 2 ^ 28) : accumulate ms ds r < 2 ^ 28 := by
  induction ms generalizing ds r with
  | nil => exact hr
  | cons m ms ih =>
    cases ds with
    | nil => exact hr
    | cons digit ds =>
      apply ih fun m' hm' => hm m' (List.mem_cons_of_mem _ hm')
      apply Nat.or_lt_two_pow hr
      have hd : (digit &&& 127).toNat < 2 ^ 7 := by
        have hle : (digit &&& 127).toNat ≤ 127 := by
          rw [UInt8.toNat_and]
          exact Nat.and_le_right
        omega
      calc (digit &&& 127).toNat <<< m = (digit &&& 127).toNat * 2 ^ m := Nat.shiftLeft_eq _ _
        _ < 2 ^ 7 * 2 ^ m := Nat.mul_lt_mul_of_pos_right hd (Nat.two_pow_pos m)
        _ ≤ 2 ^ 7 * 2 ^ 21 := Nat.mul_le_mul_left _
          (Nat.pow_le_pow_right (by norm_num) (hm m List.mem_cons_self))
        _ = 2 ^ 28 := by norm_num

theorem accumulate_multipliers_lt (ds : Bytes) : accumulate multipliers ds 0 < 2 ^ 28 :=
  accumulate_lt (by decide) (by norm_num)

def Framer.withLength (f : Framer) (n : Nat) : Framer := { f with remainingLength := UInt32.ofNat n }

theorem not_ping_of_not_isPingPong {t : PacketType} (h : t.isPingPong = false) :
    t ≠ .ping ∧ t ≠ .pong := by
  simpa [PacketType.isPingPong] using h

theorem toNat_withLength {n : Nat} (f : Framer) (h : n < 2 ^ 28) :
    (f.withLength n).remainingLength.toNat = n := by
  rw [Framer.withLength, UInt32.toNat_ofNat', Nat.mod_eq_of_lt (by omega)]

theorem decodePacketWith_of_framer (decodeMap : PacketType → Option PacketDecodeFunc)
    {data : Bytes} {version : UInt8} {f : Framer} {n k : Nat} (hn : n < 2 ^ 28)
    (hf : f.packetType.isPingPong = false) (h : decodeFramer data = .ok (f.withLength n,k)) :
    decodePacketWith decodeMap data version =
      if maxRemaingLength.toNat < n then
        .error ("消息超出最大限制[" ++ toString maxRemaingLength.toNat ++ "]！")
      else if data.length < n + 1 + k then .ok (none,0)
      else decodeBody decodeMap (f.withLength n) ((data.take (n + 1 + k)).drop (1 + k)) version >>=
        fun frame => pure (some frame,1 + k + n) := by
  obtain ⟨hping,hpong⟩ := not_ping_of_not_isPingPong hf
  have ht : (f.withLength n).packetType = f.packetType := rfl
  simp only [decodePacketWith, h, ok_bind, ht, hping, hpong, if_false, UInt32.lt_iff_toNat_lt,
    toNat_withLength f hn, Outcome.pure_eq]

theorem decodeFramer_lengthField {b : UInt8} {ds rest : Bytes} {n : Nat}
    (hb : (framerFromUint8 b).packetType.isPingPong = false) (h : LengthField ds n) :
    decodeFramer (b :: (ds ++ rest)) = .ok ((framerFromUint8 b).withLength n,ds.length) := by
  simp [decodeFramer, hb, Proto.decodeLength, decodeLengthLoop_terminated h.terminated h.length_le,
    Framer.withLength, h.value]

theorem take_drop_body (b : UInt8) (ds body rest : Bytes) :
    ((b :: (ds ++ (body ++ rest))).take (body.length + 1 + ds.length)).drop (1 + ds.length) =
      body := by
  have e1 : body.length + 1 + ds.length = (ds.length + body.length) + 1 := by omega
  have e2 : 1 + ds.length = ds.length + 1 := by omega
  rw [e1, e2, List.take_succ_cons, List.drop_succ_cons, ← List.append_assoc,
    ← List.length_append, List.take_left, List.drop_left]

theorem decodePacketWith_lengthField (decodeMap : PacketType → Option PacketDecodeFunc)
    {b : UInt8} {ds body rest : Bytes} {version : UInt8}
    (hb : (framerFromUint8 b).packetType.isPingPong = false) (h : LengthField ds body.length)
    (hm : body.length ≤ maxRemaingLength.toNat) :
    decodePacketWith decodeMap (b :: (ds ++ (body ++ rest))) version =
      decodeBody decodeMap ((framerFromUint8 b).withLength body.length) body version >>=
        fun frame => pure (some frame,1 + ds.length + body.length) := by
  have hlen : ¬ (b :: (ds ++ (body ++ rest))).length < body.length + 1 + ds.length := by
    simp only [List.length_cons, List.length_append]
    omega
  have hn : body.length < 2 ^ 28 := h.value ▸ accumulate_multipliers_lt ds
  rw [decodePacketWith_of_framer decodeMap hn hb (decodeFramer_lengthField hb h),
    if_neg (by omega), if_neg hlen, take_drop_body]

end LiMaoIM.Proto

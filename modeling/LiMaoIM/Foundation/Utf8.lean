import LiMaoIM.Foundation.Bytes

namespace LiMaoIM.Utf8

def replacement : Bytes := [0xEF,0xBF,0xBD]

def isContinuation (b : UInt8) : Bool := 0x80 ≤ b ∧ b ≤ 0xBF

structure Lead where
  size : Nat
  low : UInt8
  high : UInt8

def lead (b : UInt8) : Option Lead :=
  if b < 0xC2 then none
  else if b < 0xE0 then some ⟨2,0x80,0xBF⟩
  else if b = 0xE0 then some ⟨3,0xA0,0xBF⟩
  else if b = 0xED then some ⟨3,0x80,0x9F⟩
  else if b < 0xF0 then some ⟨3,0x80,0xBF⟩
  else if b = 0xF0 then some ⟨4,0x90,0xBF⟩
  else if b < 0xF4 then some ⟨4,0x80,0xBF⟩
  else if b = 0xF4 then some ⟨4,0x80,0x8F⟩
  else none

def Follows (l : Lead) : Bytes → Prop
  | [] => False
  | b :: bs => l.low ≤ b ∧ b ≤ l.high ∧ l.size - 2 ≤ bs.length ∧
      (bs.take (l.size - 2)).all isContinuation

instance (l : Lead) : (bs : Bytes) → Decidable (Follows l bs)
  | [] => inferInstanceAs (Decidable False)
  | _ :: _ => inferInstanceAs (Decidable (_ ∧ _ ∧ _ ∧ _))

def runeLen (b : UInt8) (bs : Bytes) : Nat :=
  if b < 0x80 then 1
  else match lead b with
    | none => 0
    | some l => if Follows l bs then l.size else 0

def replaceLoop : Nat → Bytes → Bytes
  | _, [] => []
  | n + 1, b :: bs => b :: replaceLoop n bs
  | 0, b :: bs =>
      match runeLen b bs with
      | 0 => replacement ++ replaceLoop 0 bs
      | n + 1 => b :: replaceLoop n bs

def toValid (bs : Bytes) : Bytes := replaceLoop 0 bs

theorem lead_size {b : UInt8} {l : Lead} (h : lead b = some l) : 2 ≤ l.size := by
  simp only [lead] at h
  split_ifs at h <;> cases h <;> decide

theorem follows_congr {l : Lead} {bs bs' : Bytes} (h : Follows l bs) (hl : 2 ≤ l.size)
    (ht : bs'.take (l.size - 1) = bs.take (l.size - 1)) : Follows l bs' := by
  obtain ⟨n,hn⟩ : ∃ n, l.size = n + 2 := ⟨l.size - 2,by omega⟩
  cases bs with
  | nil => exact h.elim
  | cons b bs =>
    obtain ⟨hlow,hhigh,hlen,hall⟩ := h
    simp only [hn, Nat.add_sub_cancel] at hlen hall
    simp only [hn, Nat.add_succ_sub_one, List.take_succ_cons] at ht
    cases bs' with
    | nil => cases ht
    | cons b' bs' =>
      rw [List.take_succ_cons] at ht
      obtain ⟨rfl,htail⟩ := List.cons.inj ht
      refine ⟨hlow,hhigh,?_,?_⟩
      · have hlen' := congrArg List.length htail
        rw [List.length_take, List.length_take, Nat.min_eq_left hlen] at hlen'
        rw [hn, Nat.add_sub_cancel]
        omega
      · rwa [hn, Nat.add_sub_cancel, htail]

theorem runeLen_congr {b : UInt8} {bs bs' : Bytes} {n : Nat} (h : runeLen b bs = n + 1)
    (ht : bs'.take n = bs.take n) : runeLen b bs' = n + 1 := by
  rw [runeLen] at h ⊢
  split at h
  · rename_i hascii
    rw [if_pos hascii]
    exact h
  · rename_i hascii
    rw [if_neg hascii]
    cases hlead : lead b with
    | none =>
      rw [hlead] at h
      cases h
    | some l =>
      simp only [hlead] at h ⊢
      split at h
      · rename_i hfollows
        have hsize : l.size - 1 = n := by omega
        rw [if_pos (follows_congr hfollows (lead_size hlead) (by rw [hsize, ht]))]
        exact h
      · cases h

theorem replaceLoop_succ (n : Nat) (b : UInt8) (bs : Bytes) :
    replaceLoop (n + 1) (b :: bs) = b :: replaceLoop n bs := rfl

theorem replaceLoop_invalid {b : UInt8} {bs : Bytes} (h : runeLen b bs = 0) :
    replaceLoop 0 (b :: bs) = replacement ++ replaceLoop 0 bs := by
  simp only [replaceLoop, h]

theorem replaceLoop_valid {b : UInt8} {bs : Bytes} {n : Nat} (h : runeLen b bs = n + 1) :
    replaceLoop 0 (b :: bs) = b :: replaceLoop n bs := by
  simp only [replaceLoop, h]

theorem take_replaceLoop (n : Nat) (bs : Bytes) : (replaceLoop n bs).take n = bs.take n := by
  induction bs generalizing n with
  | nil => cases n <;> rfl
  | cons b bs ih =>
    cases n with
    | zero => rfl
    | succ n => rw [replaceLoop_succ, List.take_succ_cons, List.take_succ_cons, ih n]

theorem runeLen_replacement (bs : Bytes) : runeLen 0xEF (0xBF :: 0xBD :: bs) = 3 := by
  have hlead : lead 0xEF = some ⟨3,0x80,0xBF⟩ := rfl
  have hfollows : Follows ⟨3,0x80,0xBF⟩ (0xBF :: 0xBD :: bs) :=
    ⟨by decide,by decide,Nat.succ_le_succ (Nat.zero_le _),by simp [isContinuation]⟩
  simp only [runeLen, hlead, if_pos hfollows]
  rfl

theorem replaceLoop_replaceLoop (n : Nat) (bs : Bytes) :
    replaceLoop n (replaceLoop n bs) = replaceLoop n bs := by
  induction bs generalizing n with
  | nil => cases n <;> rfl
  | cons b bs ih =>
    cases n with
    | succ n => rw [replaceLoop_succ, replaceLoop_succ, ih n]
    | zero =>
      cases h : runeLen b bs with
      | zero =>
        rw [replaceLoop_invalid h]
        simp only [replacement, List.cons_append, List.nil_append]
        rw [replaceLoop_valid (runeLen_replacement _), replaceLoop_succ, replaceLoop_succ, ih 0]
      | succ n =>
        rw [replaceLoop_valid h, replaceLoop_valid (runeLen_congr h (take_replaceLoop n bs)), ih n]

@[simp] theorem toValid_toValid (bs : Bytes) : toValid (toValid bs) = toValid bs :=
  replaceLoop_replaceLoop 0 bs

example : toValid [0x61,0xFF] = [0x61,0xEF,0xBF,0xBD] := by decide

end LiMaoIM.Utf8

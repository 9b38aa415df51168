import LiMaoIM.Util.Bitmap

namespace LiMaoIM.Util

open Outcome BitSet

namespace SlotBitMap

def cleanByte (slots : Bytes) (len i : Nat) (b : UInt8) : UInt8 :=
  let aligned : Int := slots.length - (len - i)
  if 0 ≤ aligned then b &&& ~~~slots.getD aligned.toNat 0 else b

def cleanLoop (slots : Bytes) : Nat → Bytes → Bytes
  | 0, bits => bits
  | i + 1, bits => cleanLoop slots i (bits.set i (cleanByte slots bits.length i (bits.getD i 0)))

def cleanSlots (s : SlotBitMap) (slots : Bytes) : SlotBitMap :=
  if slots.length = 0 then s else { s with bits := cleanLoop slots s.bits.length s.bits }

end SlotBitMap

def containsByte (b1 s1 : UInt8) : Bool :=
  (List.range 8).all fun j => !(SlotBitMap.vaild s1 j && b1 >>> UInt8.ofNat j &&& 1 = 0)

def slotsContainsLoop : Bytes → Bytes → Outcome Bool
  | [], _ => .ok true
  | _ :: _, [] => .panic "runtime error: index out of range"
  | b1 :: b, s1 :: subslice =>
      if containsByte b1 s1 then slotsContainsLoop b subslice else .ok false

def slotsContains (b subslice : Bytes) : Outcome Bool :=
  if b.length < subslice.length then .ok false else slotsContainsLoop b subslice

namespace SlotBitMap

def FromTheEnd (len : Nat) (slots : Bytes) (n : Nat) : Prop :=
  8 * len ≤ n + 8 * slots.length ∧ member slots (n + 8 * slots.length - 8 * len) = true

theorem fromTheEnd_of_length_eq {len : Nat} {slots : Bytes} (h : slots.length = len) (n : Nat) :
    FromTheEnd len slots n ↔ member slots n = true := by
  rw [FromTheEnd, h, Nat.add_sub_cancel]
  exact and_iff_right (Nat.le_add_left _ _)

theorem bit_cleanByte {len i j : Nat} (slots : Bytes) (b : UInt8) (hj : j < 8) :
    bit (cleanByte slots len i b) j = true ↔
      bit b j = true ∧ ¬FromTheEnd len slots (8 * i + j) := by
  rw [cleanByte, FromTheEnd]
  split
  · rename_i hle
    have hlen : 8 * len ≤ 8 * i + j + 8 * slots.length := by omega
    have hat : 8 * i + j + 8 * slots.length - 8 * len =
        8 * ((slots.length : Int) - (len - i)).toNat + j := by omega
    rw [bit_and, bit_complement hj, hat, member_at _ hj, Bool.and_eq_true, Bool.not_eq_true']
    simp only [hlen, true_and, Bool.not_eq_true]
  · rename_i hlt
    have hlen : ¬8 * len ≤ 8 * i + j + 8 * slots.length := by omega
    simp only [hlen, false_and, not_false_eq_true, and_true]

theorem cleanLoop_spec (slots : Bytes) {i : Nat} (bits : Bytes) (hi : i ≤ bits.length) :
    (cleanLoop slots i bits).length = bits.length ∧
      ∀ n, member (cleanLoop slots i bits) n = true ↔
        member bits n = true ∧ ¬(n < 8 * i ∧ FromTheEnd bits.length slots n) := by
  induction i generalizing bits with
  | zero => exact ⟨rfl,fun n => by simp [cleanLoop]⟩
  | succ i ih =>
      obtain ⟨hl,hm⟩ := ih (bits.set i (cleanByte slots bits.length i (bits.getD i 0)))
        (by rw [List.length_set]; omega)
      rw [List.length_set] at hl hm
      refine ⟨hl,fun n => ?_⟩
      rw [cleanLoop, hm, member_set _ hi]
      by_cases hn : n / 8 = i
      · rw [if_pos hn, bit_cleanByte slots _ (Nat.mod_lt n (by omega)), member, hn,
          show 8 * i + n % 8 = n by omega]
        have hlt : n < 8 * (i + 1) := by omega
        have hge : ¬n < 8 * i := by omega
        simp only [hlt, hge, true_and, false_and, not_false_eq_true, and_true]
      · rw [if_neg hn]
        have hiff : n < 8 * (i + 1) ↔ n < 8 * i := by omega
        rw [hiff]

theorem cleanSlots_spec (s : SlotBitMap) (slots : Bytes) :
    (s.cleanSlots slots).slotNum = s.slotNum ∧
      (s.cleanSlots slots).bits.length = s.bits.length ∧
      ∀ n, member (s.cleanSlots slots).bits n = true ↔
        member s.bits n = true ∧ ¬FromTheEnd s.bits.length slots n := by
  rw [cleanSlots]
  split
  · rename_i hnil
    refine ⟨rfl,rfl,fun n => (and_iff_left_of_imp fun hn hend => ?_).symm⟩
    have hlt := lt_of_member hn
    have hle := hend.1
    omega
  · obtain ⟨hl,hm⟩ := cleanLoop_spec slots s.bits le_rfl
    refine ⟨rfl,hl,fun n => ?_⟩
    rw [hm]
    refine and_congr_right fun hn => not_congr ⟨And.right,fun hend => ⟨lt_of_member hn,hend⟩⟩

end SlotBitMap

def Subslots (subslice b : Bytes) : Prop :=
  ∀ n, member subslice n = true → member b n = true

theorem containsByte_iff {b1 s1 : UInt8} :
    containsByte b1 s1 = true ↔ ∀ j < 8, bit s1 j = true → bit b1 j = true := by
  rw [containsByte, List.all_eq_true]
  simp only [List.mem_range]
  refine forall₂_congr fun j hj => ?_
  rw [SlotBitMap.vaild_eq_bit s1 hj, Bool.not_eq_true', Bool.and_eq_false_iff,
    decide_eq_false_iff_not, shiftRight_and_zero b1 hj, not_not]
  cases bit s1 j with
  | true | false => simp

theorem subslots_nil (b : Bytes) : Subslots [] b := by
  intro n hn
  rw [member_of_le (Nat.zero_le n)] at hn
  cases hn

theorem subslots_cons {b1 s1 : UInt8} {b subslice : Bytes} :
    Subslots (s1 :: subslice) (b1 :: b) ↔
      containsByte b1 s1 = true ∧ Subslots subslice b := by
  rw [containsByte_iff, Subslots, Subslots]
  simp only [member_cons]
  constructor
  · intro h
    refine ⟨fun j hj hs => ?_,fun n hn => ?_⟩
    · have hb := h j
      rw [if_pos hj, if_pos hj] at hb
      exact hb hs
    · have hb := h (n + 8)
      rw [if_neg (by omega), if_neg (by omega), Nat.add_sub_cancel] at hb
      exact hb hn
  · rintro ⟨hbyte,htail⟩ n hn
    by_cases hlt : n < 8
    · rw [if_pos hlt] at hn ⊢
      exact hbyte n hlt hn
    · rw [if_neg hlt] at hn ⊢
      exact htail (n - 8) hn

theorem slotsContainsLoop_of_not {b subslice : Bytes} (hl : subslice.length ≤ b.length)
    (h : ¬Subslots subslice b) : slotsContainsLoop b subslice = .ok false := by
  induction b generalizing subslice with
  | nil =>
      rw [List.length_eq_zero_iff.mp (Nat.le_zero.mp hl)] at h
      exact absurd (subslots_nil []) h
  | cons b1 b ih =>
      cases subslice with
      | nil => exact absurd (subslots_nil (b1 :: b)) h
      | cons s1 subslice =>
          rw [slotsContainsLoop]
          by_cases hbyte : containsByte b1 s1 = true
          · rw [if_pos hbyte]
            exact ih (Nat.le_of_succ_le_succ hl) fun htail => h (subslots_cons.mpr ⟨hbyte,htail⟩)
          · rw [if_neg hbyte]

theorem slotsContainsLoop_of_subslots {b subslice : Bytes} (hl : subslice.length ≤ b.length)
    (h : Subslots subslice b) :
    slotsContainsLoop b subslice =
      if b.length = subslice.length then .ok true
      else .panic "runtime error: index out of range" := by
  induction b generalizing subslice with
  | nil =>
      rw [List.length_eq_zero_iff.mp (Nat.le_zero.mp hl)]
      rfl
  | cons b1 b ih =>
      cases subslice with
      | nil => rfl
      | cons s1 subslice =>
          obtain ⟨hbyte,htail⟩ := subslots_cons.mp h
          rw [slotsContainsLoop, if_pos hbyte, ih (Nat.le_of_succ_le_succ hl) htail]
          simp only [List.length_cons, Nat.add_right_cancel_iff]

theorem slotsContains_correct_iff (b subslice : Bytes) :
    (∃ r, slotsContains b subslice = .ok r ∧ (r = true ↔ Subslots subslice b)) ↔
      b.length = subslice.length ∨ ¬Subslots subslice b := by
  rw [slotsContains]
  by_cases hsub : Subslots subslice b
  · simp only [hsub, iff_true, not_true_eq_false, or_false]
    split
    · rename_i hlt
      simp only [Outcome.ok.injEq, exists_eq_right, Bool.false_eq_true, false_iff]
      omega
    · rename_i hle
      rw [slotsContainsLoop_of_subslots (Nat.le_of_not_lt hle) hsub]
      split
      · rename_i heq
        exact ⟨fun _ => heq,fun _ => ⟨true,rfl,rfl⟩⟩
      · rename_i hne
        simp [hne]
  · simp only [hsub, iff_false, not_false_eq_true, or_true, iff_true]
    refine ⟨false,?_,Bool.false_ne_true⟩
    split
    · rfl
    · rename_i hle
      exact slotsContainsLoop_of_not (Nat.le_of_not_lt hle) hsub

structure SlotOperations (b s : Bytes) : Prop where
  clean : ∀ slotNum, ((SlotBitMap.mk b slotNum).cleanSlots s).bits.length = b.length ∧
    ∀ n, member ((SlotBitMap.mk b slotNum).cleanSlots s).bits n = true ↔
      member b n = true ∧ ¬member s n = true
  merge : ∀ slotNum, ((SlotBitMap.mk b slotNum).mergeSlots [s]).bits.length = b.length ∧
    ∀ n, member ((SlotBitMap.mk b slotNum).mergeSlots [s]).bits n = true ↔
      member b n = true ∨ member s n = true ∧ n < 8 * b.length
  contains : ∃ r, slotsContains b s = .ok r ∧ (r = true ↔ Subslots s b)

theorem slotOperations_iff (b s : Bytes) :
    SlotOperations b s ↔
      (∀ n, member b n = true → (member s n = true ↔ SlotBitMap.FromTheEnd b.length s n)) ∧
        (b.length = s.length ∨ ∃ n, member s n = true ∧ ¬member b n = true) := by
  have hsub : ¬Subslots s b ↔ ∃ n, member s n = true ∧ ¬member b n = true := by
    simp only [Subslots, not_forall, exists_prop]
  rw [← hsub, ← slotsContains_correct_iff]
  constructor
  · intro h
    refine ⟨fun n hn => ?_,h.contains⟩
    have hspec := ((SlotBitMap.mk b 0).cleanSlots_spec s).2.2 n
    have hclean := (h.clean 0).2 n
    rw [hspec] at hclean
    simp only [hn, true_and] at hclean
    exact (not_iff_not.mp hclean).symm
  · rintro ⟨halign,hcontains⟩
    refine ⟨fun slotNum => ?_,fun slotNum => ?_,hcontains⟩
    · obtain ⟨-,hl,hm⟩ := (SlotBitMap.mk b slotNum).cleanSlots_spec s
      refine ⟨hl,fun n => ?_⟩
      rw [hm]
      exact and_congr_right fun hn => not_congr (halign n hn).symm
    · obtain ⟨-,hl,hm⟩ := (SlotBitMap.mk b slotNum).mergeSlots_spec [s]
      refine ⟨hl,fun n => ?_⟩
      rw [hm]
      simp only [List.mem_singleton, exists_eq_left]

theorem slotOperations_of_length_eq {b s : Bytes} (h : b.length = s.length) : SlotOperations b s :=
  (slotOperations_iff b s).mpr
    ⟨fun n _ => (SlotBitMap.fromTheEnd_of_length_eq h.symm n).symm,.inl h⟩

example : ((SlotBitMap.newSlotBitMapWithBits [1,0]).cleanSlots [1]).bits = [1,0] := by decide

theorem not_slotOperations_one_byte_of_two : ¬SlotOperations [1,0] [1] := by
  intro h
  obtain ⟨r,hr,-⟩ := h.contains
  rw [show slotsContains [1,0] [1] = .panic "runtime error: index out of range" from rfl] at hr
  cases hr

end LiMaoIM.Util

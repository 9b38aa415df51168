import LiMaoIM.Foundation.Bytes
import Mathlib.Data.List.GetD
import Mathlib.Data.Nat.Count

namespace LiMaoIM

namespace BitSet

def bit (b : UInt8) (j : Nat) : Bool := b.toNat.testBit j

theorem bit_eq_getLsbD (b : UInt8) (j : Nat) : bit b j = b.toBitVec.getLsbD j := by
  rw [bit, ← UInt8.toNat_toBitVec, BitVec.testBit_toNat]

theorem bit_of_le {b : UInt8} {j : Nat} (h : 8 ≤ j) : bit b j = false := by
  rw [bit_eq_getLsbD]
  exact BitVec.getLsbD_of_ge _ _ h

theorem bit_ext {a b : UInt8} (h : ∀ j < 8, bit a j = bit b j) : a = b := by
  apply UInt8.toBitVec_inj.mp
  apply BitVec.eq_of_getLsbD_eq
  intro j hj
  rw [← bit_eq_getLsbD, ← bit_eq_getLsbD]
  exact h j hj

theorem toNat_ofNat_of_lt {j : Nat} (h : j < 8) : (UInt8.ofNat j).toNat = j := by
  simp only [UInt8.toNat_ofNat']
  omega

theorem shiftRight_and_one (b : UInt8) {j : Nat} (h : j < 8) :
    b >>> UInt8.ofNat j &&& 1 = 1 ↔ bit b j = true := by
  rw [← UInt8.toNat_inj]
  simp only [UInt8.toNat_and, UInt8.toNat_shiftRight, toNat_ofNat_of_lt h, Nat.mod_eq_of_lt h,
    UInt8.reduceToNat, Nat.and_one_is_mod, bit, Nat.testBit_eq_decide_div_mod_eq,
    Nat.shiftRight_eq_div_pow, decide_eq_true_eq]

theorem shiftRight_and_zero (b : UInt8) {j : Nat} (h : j < 8) :
    b >>> UInt8.ofNat j &&& 1 = 0 ↔ ¬bit b j = true := by
  rw [← shiftRight_and_one b h, ← UInt8.toNat_inj, ← UInt8.toNat_inj]
  simp only [UInt8.toNat_and, UInt8.reduceToNat, Nat.and_one_is_mod]
  omega

theorem bit_and (a b : UInt8) (j : Nat) : bit (a &&& b) j = (bit a j && bit b j) := by
  simp only [bit, UInt8.toNat_and, Nat.testBit_and]

theorem bit_or (a b : UInt8) (j : Nat) : bit (a ||| b) j = (bit a j || bit b j) := by
  simp only [bit, UInt8.toNat_or, Nat.testBit_or]

theorem bit_one_shiftLeft {j k : Nat} (hj : j < 8) (hk : k < 8) :
    bit (1 <<< UInt8.ofNat j) k = decide (k = j) := by
  simp only [bit, UInt8.toNat_shiftLeft, toNat_ofNat_of_lt hj, Nat.mod_eq_of_lt hj,
    UInt8.reduceToNat, Nat.one_shiftLeft, Nat.testBit_mod_two_pow, hk, Nat.testBit_two_pow,
    decide_true, Bool.true_and, @eq_comm _ j]

theorem bit_complement {b : UInt8} {k : Nat} (hk : k < 8) : bit (~~~b) k = !bit b k := by
  rw [bit_eq_getLsbD, bit_eq_getLsbD, UInt8.toBitVec_not, BitVec.getLsbD_not]
  simp [hk]

theorem bit_mark {b : UInt8} {j k : Nat} (hj : j < 8) :
    bit (b ||| 1 <<< UInt8.ofNat j) k = (bit b k || decide (k = j)) := by
  by_cases hk : k < 8
  · rw [bit_or, bit_one_shiftLeft hj hk]
  · rw [bit_of_le (by omega), bit_of_le (by omega), Bool.false_or, decide_eq_false (by omega)]

theorem bit_clear {b : UInt8} {j k : Nat} (hj : j < 8) :
    bit (b &&& ~~~(1 <<< UInt8.ofNat j)) k = (bit b k && decide (k ≠ j)) := by
  by_cases hk : k < 8
  · rw [bit_and, bit_complement hk, bit_one_shiftLeft hj hk, decide_not]
  · rw [bit_of_le (by omega), bit_of_le (by omega), Bool.false_and]

def member (bits : Bytes) (n : Nat) : Bool := bit (bits.getD (n / 8) 0) (n % 8)

theorem member_of_le {bits : Bytes} {n : Nat} (h : 8 * bits.length ≤ n) :
    member bits n = false := by
  rw [member, List.getD_eq_default _ _ (by omega)]
  simp [bit]

theorem lt_of_member {bits : Bytes} {n : Nat} (h : member bits n = true) :
    n < 8 * bits.length := by
  by_contra hle
  rw [member_of_le (by omega)] at h
  cases h

theorem member_replicate_zero (len n : Nat) : member (List.replicate len 0) n = false := by
  by_cases h : n / 8 < len
  · rw [member, List.getD_replicate _ h]
    simp [bit]
  · exact member_of_le (by rw [List.length_replicate]; omega)

theorem member_at {i j : Nat} (bits : Bytes) (h : j < 8) :
    member bits (8 * i + j) = bit (bits.getD i 0) j := by
  rw [member, show (8 * i + j) / 8 = i by omega, show (8 * i + j) % 8 = j by omega]

theorem member_cons (b : UInt8) (bits : Bytes) (n : Nat) :
    member (b :: bits) n = if n < 8 then bit b n else member bits (n - 8) := by
  split
  · rename_i hn
    rw [member, Nat.div_eq_of_lt hn, Nat.mod_eq_of_lt hn, List.getD_cons_zero]
  · rw [member, member, show n / 8 = (n - 8) / 8 + 1 by omega, List.getD_cons_succ,
      show n % 8 = (n - 8) % 8 by omega]

theorem member_set {bits : Bytes} {i : Nat} (b : UInt8) (h : i < bits.length) (n : Nat) :
    member (bits.set i b) n = if n / 8 = i then bit b (n % 8) else member bits n := by
  by_cases hn : n / 8 = i
  · rw [if_pos hn, member, hn, List.getD_eq_getElem _ _ (by simpa using h)]
    rw [List.getElem_set_self]
  · rw [if_neg hn, member, member, List.getD_eq_getElem?_getD, List.getD_eq_getElem?_getD,
      List.getElem?_set_ne (Ne.symm hn)]

theorem ext {bits bits' : Bytes} (hl : bits.length = bits'.length)
    (h : ∀ n, member bits n = member bits' n) : bits = bits' := by
  apply List.ext_getElem hl
  intro i hi hi'
  apply bit_ext
  intro j hj
  have hm := h (8 * i + j)
  rwa [member_at bits hj, member_at bits' hj, List.getD_eq_getElem _ _ hi,
    List.getD_eq_getElem _ _ hi'] at hm

theorem and_shiftLeft_ne_zero (b : UInt8) {j : Nat} (h : j < 8) :
    decide (b &&& 1 <<< UInt8.ofNat j ≠ 0) = bit b j := by
  rw [Bool.eq_iff_iff, decide_eq_true_eq]
  constructor
  · intro hne
    by_contra hb
    apply hne
    apply bit_ext
    intro k hk
    rw [bit_and, bit_one_shiftLeft h hk]
    by_cases hkj : k = j
    · rw [hkj, Bool.eq_false_iff.mpr hb]
      simp [bit]
    · rw [decide_eq_false hkj]
      simp [bit]
  · intro hb hz
    have hj : bit (b &&& 1 <<< UInt8.ofNat j) j = true := by
      rw [bit_and, bit_one_shiftLeft h h, hb, decide_eq_true rfl, Bool.true_and]
    rw [hz] at hj
    simp [bit] at hj

theorem count_byte (bits : Bytes) (i j : Nat) (h : j ≤ 8) :
    Nat.count (fun n => member bits n = true) (8 * i + j) =
      Nat.count (fun n => member bits n = true) (8 * i) +
        Nat.count (fun k => bit (bits.getD i 0) k = true) j := by
  rw [Nat.count_add]
  congr 1
  induction j with
  | zero => rfl
  | succ j ih => simp only [Nat.count_succ, ih (by omega), member_at bits (show j < 8 by omega)]

theorem member_append {bits : Bytes} (b : UInt8) {n : Nat} (h : n < 8 * bits.length) :
    member (bits ++ [b]) n = member bits n := by
  rw [member, List.getD_append _ _ _ _ (by omega), ← member]

theorem member_last (bits : Bytes) (b : UInt8) {j : Nat} (h : j < 8) :
    member (bits ++ [b]) (8 * bits.length + j) = bit b j := by
  rw [member_at _ h, List.getD_append_right _ _ _ _ le_rfl, Nat.sub_self, List.getD_cons_zero]

theorem count_of_agree {p q : Nat → Prop} [DecidablePred p] [DecidablePred q] {m : Nat}
    (h : ∀ k < m, p k ↔ q k) : Nat.count p m = Nat.count q m := by
  induction m with
  | zero => rw [Nat.count_zero, Nat.count_zero]
  | succ m ih =>
      rw [Nat.count_succ, Nat.count_succ, ih (fun k hk => h k (by omega))]
      simp only [h m (by omega)]

theorem count_from (p : Nat → Bool) {c m : Nat} (h : c ≤ m) :
    Nat.count (fun k => p k = true ∧ c ≤ k) m + Nat.count (fun k => p k = true) c =
      Nat.count (fun k => p k = true) m := by
  induction m, h using Nat.le_induction with
  | base =>
      rw [Nat.count_iff_forall_not.mpr fun k hk hp => by omega, Nat.zero_add]
  | succ m h ih =>
      rw [Nat.count_succ, Nat.count_succ, ← ih]
      simp only [h, and_true]
      omega

def elements (bits : Bytes) : List Nat := (List.range (8 * bits.length)).filter (member bits)

theorem mem_elements {bits : Bytes} {n : Nat} : n ∈ elements bits ↔ member bits n = true := by
  rw [elements, List.mem_filter, List.mem_range]
  exact ⟨And.right,fun h => ⟨lt_of_member h,h⟩⟩

theorem elements_sorted (bits : Bytes) : (elements bits).Pairwise (· < ·) :=
  List.pairwise_lt_range.filter _

theorem elements_append (bits : Bytes) (b : UInt8) :
    elements (bits ++ [b]) =
      elements bits ++ ((List.range 8).filter (bit b)).map (8 * bits.length + ·) := by
  rw [elements, List.length_append, List.length_singleton, Nat.mul_add, Nat.mul_one, List.range_add,
    List.filter_append, List.filter_map]
  congr 1
  · exact List.filter_congr fun n hn => member_append b (List.mem_range.mp hn)
  · congr 1
    exact List.filter_congr fun j hj => member_last bits b (List.mem_range.mp hj)

def size (bits : Bytes) : Nat := Nat.count (fun n => member bits n = true) (8 * bits.length)

theorem count_eq_length (p : Nat → Bool) (m : Nat) :
    Nat.count (fun k => p k = true) m = ((List.range m).filter p).length := by
  induction m with
  | zero => rfl
  | succ m ih =>
      rw [Nat.count_succ, ih, List.range_succ, List.filter_append, List.length_append]
      cases h : p m <;> simp [h]

theorem size_eq_length (bits : Bytes) : size bits = (elements bits).length :=
  count_eq_length (member bits) _

theorem size_append (bits : Bytes) (b : UInt8) :
    size (bits ++ [b]) = size bits + Nat.count (fun k => bit b k = true) 8 := by
  rw [size_eq_length, size_eq_length, elements_append, List.length_append, List.length_map,
    count_eq_length]

theorem ncard_members (bits : Bytes) : {n | member bits n = true}.ncard = size bits := by
  rw [size_eq_length, ← List.toFinset_card_of_nodup ((elements_sorted bits).imp ne_of_lt),
    ← Set.ncard_coe_finset]
  congr 1
  ext n
  simp [mem_elements]

end BitSet

end LiMaoIM

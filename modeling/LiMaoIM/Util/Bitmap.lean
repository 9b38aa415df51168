import LiMaoIM.Foundation.BitSet
import LiMaoIM.Db.Backup

namespace LiMaoIM.Util

open Outcome BitSet

structure SlotBitMap where
  bits : Bytes
  slotNum : Int
deriving DecidableEq

namespace SlotBitMap

def newSlotBitMapWithBits (bits : Bytes) : SlotBitMap := ⟨bits,0⟩

def getSlot (s : SlotBitMap) (num : Nat) : Outcome Bool :=
  match s.bits[num / 8]? with
  | none => .panic "runtime error: index out of range"
  | some b => .ok (b &&& 1 <<< UInt8.ofNat (num % 8) ≠ 0)

def vaild (b : UInt8) (j : Nat) : Bool := b >>> UInt8.ofNat j &&& 1 = 1

def getVaildSlotNum (s : SlotBitMap) : Nat :=
  s.bits.foldl (fun count b =>
    (List.range 8).foldl (fun count j => if vaild b j then count + 1 else count) count) 0

def getVaildSlots (s : SlotBitMap) : List UInt32 := Db.getVaildSlots s.bits

def exportByte : Nat → UInt8 → UInt8 → Int → UInt8 × UInt8 × Int
  | 0, b, eb, exportNum => (b,eb,exportNum)
  | j + 1, b, eb, exportNum =>
      if exportNum ≤ 0 then (b,eb,exportNum)
      else if vaild b j then
        exportByte j (b &&& ~~~(1 <<< UInt8.ofNat j)) (eb ||| 1 <<< UInt8.ofNat j) (exportNum - 1)
      else exportByte j b eb exportNum

def exportLoop : Nat → Bytes → Bytes → Int → Bytes × Bytes
  | 0, bits, exportBits, _ => (bits,exportBits)
  | i + 1, bits, exportBits, exportNum =>
      if exportNum ≤ 0 then (bits,exportBits)
      else
        let (b,eb,exportNum) := exportByte 8 (bits.getD i 0) (exportBits.getD i 0) exportNum
        exportLoop i (bits.set i b) (exportBits.set i eb) exportNum

def exportSlots (s : SlotBitMap) (num : Int) : Bytes × SlotBitMap :=
  let (bits,exportBits) :=
    exportLoop s.bits.length s.bits (List.replicate s.bits.length 0) num
  (exportBits,{ s with bits := bits })

def mergeByte (bs : List Bytes) (b : UInt8) (i : Nat) : UInt8 :=
  bs.foldl (fun b v => match v[i]? with
    | none => b
    | some v => b ||| v) b

def mergeSlots (s : SlotBitMap) (bs : List Bytes) : SlotBitMap :=
  if bs.length = 0 then s
  else { s with bits := s.bits.zipIdx.map fun (b,i) => mergeByte bs b i }

end SlotBitMap

structure Cuts (f g f' g' : Nat → Bool) (n n' : Int) (j c : Nat) : Prop where
  le : c ≤ j
  kept : ∀ k, f' k = (f k && decide (k < c ∨ j ≤ k))
  moved : ∀ k, g' k = (g k || f k && decide (c ≤ k ∧ k < j))
  counted : n' + Nat.count (fun k => f k = true) j = n + Nat.count (fun k => f k = true) c
  bounded : min n 0 ≤ n'

namespace Cuts

theorem refl {f g : Nat → Bool} {n : Int} {j : Nat} : Cuts f g f g n n j j where
  le := le_rfl
  kept k := by rw [decide_eq_true (Nat.lt_or_ge k j), Bool.and_true]
  moved k := by rw [decide_eq_false (show ¬(j ≤ k ∧ k < j) by omega), Bool.and_false, Bool.or_false]
  counted := rfl
  bounded := min_le_left n 0

theorem trans {f g f' g' f'' g'' : Nat → Bool} {n n' n'' : Int} {j i c : Nat}
    (h : Cuts f g f' g' n n' j i) (h' : Cuts f' g' f'' g'' n' n'' i c) :
    Cuts f g f'' g'' n n'' j c where
  le := h'.le.trans h.le
  kept k := by
    rw [h'.kept, h.kept, Bool.and_assoc, ← Bool.decide_and]
    have := h.le
    have := h'.le
    congr 1
    exact decide_eq_decide.mpr (by omega)
  moved k := by
    have := h.le
    have := h'.le
    rw [h'.moved, h.moved, h.kept]
    by_cases hk : k < i
    · rw [decide_eq_false (show ¬(i ≤ k ∧ k < j) by omega),
        decide_eq_true (show k < i ∨ j ≤ k from .inl hk), Bool.and_false, Bool.or_false,
        Bool.and_true]
      congr 2
      exact decide_eq_decide.mpr (by omega)
    · rw [decide_eq_false (show ¬(c ≤ k ∧ k < i) by omega), Bool.and_false, Bool.or_false]
      congr 2
      exact decide_eq_decide.mpr (by omega)
  counted := by
    have hle := h'.le
    have hi : Nat.count (fun k => f' k = true) i = Nat.count (fun k => f k = true) i :=
      count_of_agree fun k hk => by simp [h.kept k, hk]
    have hc : Nat.count (fun k => f' k = true) c = Nat.count (fun k => f k = true) c :=
      count_of_agree fun k hk => by simp [h.kept k, show k < i by omega]
    have h1 := h.counted
    have h2 := h'.counted
    rw [hi, hc] at h2
    omega
  bounded := (le_min h.bounded (min_le_right n 0)).trans h'.bounded

theorem moveOne {f g f' g' : Nat → Bool} {n : Int} {j : Nat} (hj : f j = true) (hn : 0 < n)
    (hf : ∀ k, f' k = (f k && decide (k ≠ j))) (hg : ∀ k, g' k = (g k || decide (k = j))) :
    Cuts f g f' g' n (n - 1) (j + 1) j where
  le := Nat.le_succ j
  kept k := by
    rw [hf, decide_eq_decide.mpr (show k ≠ j ↔ k < j ∨ j + 1 ≤ k by omega)]
  moved k := by
    rw [hg]
    by_cases hk : k = j
    · subst hk
      simp [hj]
    · rw [decide_eq_false hk, decide_eq_false (show ¬(j ≤ k ∧ k < j + 1) by omega), Bool.and_false]
  counted := by
    rw [Nat.count_succ, if_pos hj]
    omega
  bounded := by omega

theorem skipOne {f g : Nat → Bool} {n : Int} {j : Nat} (hj : f j = false) :
    Cuts f g f g n n (j + 1) j where
  le := Nat.le_succ j
  kept k := by
    by_cases hk : k = j
    · rw [hk, hj, Bool.false_and]
    · rw [decide_eq_true (show k < j ∨ j + 1 ≤ k by omega), Bool.and_true]
  moved k := by
    by_cases hk : k = j
    · rw [hk, hj, Bool.false_and, Bool.or_false]
    · rw [decide_eq_false (show ¬(j ≤ k ∧ k < j + 1) by omega), Bool.and_false, Bool.or_false]
  counted := by rw [Nat.count_succ, if_neg (by simp [hj]), Nat.add_zero]
  bounded := min_le_left n 0

end Cuts

namespace SlotBitMap

theorem vaild_eq_bit (b : UInt8) {j : Nat} (h : j < 8) : vaild b j = bit b j := by
  rw [Bool.eq_iff_iff, ← shiftRight_and_one b h, vaild, decide_eq_true_eq]

theorem exportByte_cuts {j : Nat} (hj : j ≤ 8) (b eb : UInt8) (n : Int) :
    ∃ b' eb' n' c, exportByte j b eb n = (b',eb',n') ∧
      Cuts (bit b) (bit eb) (bit b') (bit eb') n n' j c ∧ (c = 0 ∨ n' ≤ 0) := by
  induction j generalizing b eb n with
  | zero => exact ⟨b,eb,n,0,rfl,.refl,.inl rfl⟩
  | succ j ih =>
      by_cases hn : n ≤ 0
      · exact ⟨b,eb,n,j + 1,by rw [exportByte, if_pos hn],.refl,.inr hn⟩
      rw [exportByte, if_neg hn, vaild_eq_bit b (by omega)]
      cases hb : bit b j with
      | true =>
          obtain ⟨b',eb',n',c,hr,hc,hs⟩ := ih (by omega) (b &&& ~~~(1 <<< UInt8.ofNat j))
            (eb ||| 1 <<< UInt8.ofNat j) (n - 1)
          have hm := Cuts.moveOne (g := bit eb) hb (by omega : 0 < n)
            (fun k => bit_clear (by omega)) (fun k => bit_mark (by omega))
          exact ⟨b',eb',n',c,by rw [if_pos rfl, hr],hm.trans hc,hs⟩
      | false =>
          obtain ⟨b',eb',n',c,hr,hc,hs⟩ := ih (by omega) b eb n
          exact ⟨b',eb',n',c,by rw [if_neg (by simp), hr],(Cuts.skipOne hb).trans hc,hs⟩

end SlotBitMap

theorem Cuts.at_byte {bits e : Bytes} {b' eb' : UInt8} {n n' : Int} {i c : Nat}
    (h : Cuts (bit (bits.getD i 0)) (bit (e.getD i 0)) (bit b') (bit eb') n n' 8 c)
    (hb : i < bits.length) (he : i < e.length) :
    Cuts (member bits) (member e) (member (bits.set i b')) (member (e.set i eb')) n n'
      (8 * i + 8) (8 * i + c) where
  le := Nat.add_le_add_left h.le _
  kept k := by
    have hle := h.le
    rw [member_set b' hb]
    by_cases hk : k / 8 = i
    · rw [if_pos hk, h.kept, member, hk]
      congr 1
      exact decide_eq_decide.mpr (by omega)
    · rw [if_neg hk, decide_eq_true (by omega), Bool.and_true]
  moved k := by
    have hle := h.le
    rw [member_set eb' he]
    by_cases hk : k / 8 = i
    · rw [if_pos hk, h.moved, member, member, hk]
      congr 2
      exact decide_eq_decide.mpr (by omega)
    · rw [if_neg hk, decide_eq_false (by omega), Bool.and_false, Bool.or_false]
  counted := by
    have hle := h.le
    have hc := h.counted
    rw [count_byte bits i 8 le_rfl, count_byte bits i c hle]
    omega
  bounded := h.bounded

theorem Cuts.merged {bits e bits' : Bytes} {num n' : Int} {c : Nat}
    (h : Cuts (member bits) (fun _ => false) (member bits') (member e) num n' (8 * bits.length) c)
    (n : Nat) : (member bits' n || member e n) = member bits n := by
  rw [h.kept, h.moved, Bool.false_or]
  cases hm : member bits n with
  | false => simp
  | true =>
      have hn := lt_of_member hm
      simp only [Bool.true_and, ← Bool.decide_or, decide_eq_true_eq]
      omega

theorem Cuts.exported {bits e bits' : Bytes} {num n' : Int} {c : Nat}
    (h : Cuts (member bits) (fun _ => false) (member bits') (member e) num n' (8 * bits.length) c)
    (he : e.length = bits.length) (hs : c = 0 ∨ n' ≤ 0) :
    (size e : Int) = min (max num 0) (size bits) := by
  have hsize : size e + Nat.count (fun k => member bits k = true) c = size bits := by
    rw [size, he, size, ← count_from (member bits) h.le]
    congr 1
    apply count_of_agree
    intro k hk
    simp [h.moved k, hk]
  have hc := h.counted
  have hb := h.bounded
  change n' + (size bits : Int) = _ at hc
  rcases hs with rfl | hs
  · rw [Nat.count_zero] at hsize hc
    omega
  · omega

namespace SlotBitMap

theorem exportLoop_of_nonpos {n : Int} (h : n ≤ 0) (i : Nat) (bits e : Bytes) :
    exportLoop i bits e n = (bits,e) := by
  cases i with
  | zero => rfl
  | succ i => rw [exportLoop, if_pos h]

theorem exportLoop_cuts {i : Nat} (bits e : Bytes) (n : Int) (hb : i ≤ bits.length)
    (he : i ≤ e.length) :
    ∃ bits' e' n' c, exportLoop i bits e n = (bits',e') ∧ bits'.length = bits.length ∧
      e'.length = e.length ∧
      Cuts (member bits) (member e) (member bits') (member e') n n' (8 * i) c ∧ (c = 0 ∨ n' ≤ 0) := by
  induction i generalizing bits e n with
  | zero => exact ⟨bits,e,n,0,rfl,rfl,rfl,.refl,.inl rfl⟩
  | succ i ih =>
      by_cases hn : n ≤ 0
      · exact ⟨bits,e,n,8 * (i + 1),exportLoop_of_nonpos hn _ _ _,rfl,rfl,.refl,.inr hn⟩
      obtain ⟨b',eb',n',c,hr,hc,hs⟩ := exportByte_cuts le_rfl (bits.getD i 0) (e.getD i 0) n
      have hcut := hc.at_byte hb he
      rw [exportLoop, if_neg hn]
      simp only [hr]
      obtain ⟨bits',e',n'',c',hr',hlb,hle,hc',hs'⟩ := ih (bits.set i b') (e.set i eb') n'
        (by rw [List.length_set]; omega) (by rw [List.length_set]; omega)
      rcases hs with rfl | hs
      · exact ⟨bits',e',n'',c',hr',by rw [hlb, List.length_set],by rw [hle, List.length_set],
          hcut.trans hc',hs'⟩
      · exact ⟨_,_,n',_,exportLoop_of_nonpos hs _ _ _,List.length_set,List.length_set,hcut,.inr hs⟩

theorem exportSlots_cuts (s : SlotBitMap) (num : Int) :
    ∃ n' c, (s.exportSlots num).1.length = s.bits.length ∧
      (s.exportSlots num).2.bits.length = s.bits.length ∧
      (s.exportSlots num).2.slotNum = s.slotNum ∧
      Cuts (member s.bits) (fun _ => false) (member (s.exportSlots num).2.bits)
        (member (s.exportSlots num).1) num n' (8 * s.bits.length) c ∧ (c = 0 ∨ n' ≤ 0) := by
  obtain ⟨bits,e,n',c,hr,hlb,hle,hc,hs⟩ := exportLoop_cuts s.bits
    (List.replicate s.bits.length 0) num le_rfl (List.length_replicate ▸ le_rfl)
  have hz : member (List.replicate s.bits.length 0) = fun _ => false :=
    funext (member_replicate_zero _)
  rw [List.length_replicate] at hle
  rw [hz] at hc
  rw [exportSlots, hr]
  exact ⟨n',c,hle,hlb,rfl,hc,hs⟩

theorem getSlot_eq_ok_true (s : SlotBitMap) (n : Nat) :
    s.getSlot n = .ok true ↔ member s.bits n = true := by
  rw [getSlot]
  cases hb : s.bits[n / 8]? with
  | none =>
      rw [member_of_le (by have := List.getElem?_eq_none_iff.mp hb; omega)]
      simp
  | some b =>
      have hm : member s.bits n = bit b (n % 8) := by
        rw [member, List.getD_eq_getElem?_getD, hb, Option.getD_some]
      dsimp only
      rw [hm, and_shiftLeft_ne_zero b (Nat.mod_lt n (by omega)), Outcome.ok.injEq]

theorem foldl_vaild (b : UInt8) {m : Nat} (h : m ≤ 8) (count : Nat) :
    (List.range m).foldl (fun count j => if vaild b j then count + 1 else count) count =
      count + Nat.count (fun k => bit b k = true) m := by
  induction m with
  | zero => rfl
  | succ m ih =>
      rw [List.range_succ, List.foldl_append, ih (by omega), Nat.count_succ]
      simp only [List.foldl_cons, List.foldl_nil, vaild_eq_bit b (show m < 8 by omega)]
      split <;> omega

theorem getVaildSlotNum_eq_size (s : SlotBitMap) : s.getVaildSlotNum = size s.bits := by
  rcases s with ⟨bits,slotNum⟩
  rw [getVaildSlotNum]
  simp only [foldl_vaild _ le_rfl]
  induction bits using List.reverseRecOn with
  | nil => rfl
  | append_singleton bits b ih =>
      rw [List.foldl_append, ih, List.foldl_cons, List.foldl_nil, size_append]

theorem getVaildSlots_eq_elements (s : SlotBitMap) :
    s.getVaildSlots = (elements s.bits).map UInt32.ofNat := by
  rcases s with ⟨bits,slotNum⟩
  rw [getVaildSlots, Db.getVaildSlots]
  induction bits using List.reverseRecOn with
  | nil => rfl
  | append_singleton bits b ih =>
      rw [List.zipIdx_append, List.flatMap_append, ih, elements_append, List.map_append,
        List.zipIdx_singleton, List.flatMap_singleton, List.map_map, Nat.zero_add]
      congr 1
      rw [← List.filterMap_eq_map, List.filterMap_filter]
      apply List.filterMap_congr
      intro j hj
      have hj8 : j < 8 := List.mem_range.mp hj
      simp only [shiftRight_and_one b hj8, Nat.mul_comm bits.length 8, Function.comp_apply]

def ListsItsSlots (s : SlotBitMap) : Prop :=
  (s.getVaildSlots.map UInt32.toNat).Pairwise (· < ·) ∧
    ∀ n, n ∈ s.getVaildSlots.map UInt32.toNat ↔ s.getSlot n = .ok true

theorem listsItsSlots_of_lt {s : SlotBitMap} (h : ∀ n, member s.bits n = true → n < 2 ^ 32) :
    s.ListsItsSlots := by
  have hl : s.getVaildSlots.map UInt32.toNat = elements s.bits := by
    rw [getVaildSlots_eq_elements, List.map_map]
    refine (List.map_congr_left fun n hn => ?_).trans (List.map_id _)
    exact UInt32.toNat_ofNat_of_lt (h n (mem_elements.mp hn))
  rw [ListsItsSlots, hl]
  refine ⟨elements_sorted s.bits,fun n => ?_⟩
  rw [mem_elements, getSlot_eq_ok_true]

theorem bit_mergeByte {bs : List Bytes} {b : UInt8} {i j : Nat} :
    bit (mergeByte bs b i) j = true ↔
      bit b j = true ∨ ∃ v ∈ bs, bit (v.getD i 0) j = true := by
  induction bs generalizing b with
  | nil => simp [mergeByte]
  | cons v bs ih =>
      rw [mergeByte, List.foldl_cons, ← mergeByte, ih, List.exists_mem_cons_iff, ← or_assoc]
      cases hv : v[i]? with
      | none =>
          rw [List.getD_eq_getElem?_getD, hv]
          simp [bit]
      | some x =>
          rw [List.getD_eq_getElem?_getD, hv, Option.getD_some, bit_or, Bool.or_eq_true]

theorem mergeSlots_spec (s : SlotBitMap) (bs : List Bytes) :
    (s.mergeSlots bs).slotNum = s.slotNum ∧
      (s.mergeSlots bs).bits.length = s.bits.length ∧
      ∀ n, member (s.mergeSlots bs).bits n = true ↔
        member s.bits n = true ∨ ∃ v ∈ bs, member v n = true ∧ n < 8 * s.bits.length := by
  rw [mergeSlots]
  split
  · rename_i hnil
    refine ⟨rfl,rfl,fun n => ?_⟩
    rw [List.length_eq_zero_iff.mp hnil]
    simp
  · refine ⟨rfl,by simp,fun n => ?_⟩
    by_cases hn : n / 8 < s.bits.length
    · have hlt : n < 8 * s.bits.length := by omega
      simp only [member, hlt, and_true]
      rw [List.getD_eq_getElem _ _ (by simpa using hn), List.getD_eq_getElem _ _ hn,
        List.getElem_map, List.getElem_zipIdx, Nat.zero_add]
      exact bit_mergeByte
    · have hge : ¬n < 8 * s.bits.length := by omega
      rw [member_of_le (by simp; omega), member_of_le (by omega)]
      simp [hge]

theorem mergeSlots_one {s : SlotBitMap} {e : Bytes} (h : e.length = s.bits.length) :
    (s.mergeSlots [e]).slotNum = s.slotNum ∧ (s.mergeSlots [e]).bits.length = s.bits.length ∧
      ∀ n, member (s.mergeSlots [e]).bits n = (member s.bits n || member e n) := by
  obtain ⟨hnum,hl,hm⟩ := s.mergeSlots_spec [e]
  refine ⟨hnum,hl,fun n => Bool.eq_iff_iff.mpr ?_⟩
  rw [hm, Bool.or_eq_true]
  simp only [List.mem_singleton, exists_eq_left]
  exact or_congr_right (and_iff_left_of_imp fun hn => h ▸ lt_of_member hn)

theorem exportSlots_mergeSlots (s : SlotBitMap) (num : Int) :
    (s.exportSlots num).2.mergeSlots [(s.exportSlots num).1] = s := by
  obtain ⟨n',c,hle,hlb,hnum,hc,-⟩ := s.exportSlots_cuts num
  obtain ⟨hs,hl,hm⟩ := mergeSlots_one (hle.trans hlb.symm)
  have hbits : ((s.exportSlots num).2.mergeSlots [(s.exportSlots num).1]).bits = s.bits :=
    BitSet.ext (hl.trans hlb) fun n => by rw [hm, hc.merged]
  rcases s with ⟨bits,slotNum⟩
  exact congrArg₂ SlotBitMap.mk hbits (hs.trans hnum)

theorem exportSlots_partition (s : SlotBitMap) (num : Int) :
    let e := (s.exportSlots num).1
    let exported := newSlotBitMapWithBits e
    let remaining := (s.exportSlots num).2
    (∀ n, ¬(exported.getSlot n = .ok true ∧ remaining.getSlot n = .ok true)) ∧
      (∀ n, s.getSlot n = .ok true ↔
        exported.getSlot n = .ok true ∨ remaining.getSlot n = .ok true) ∧
      ({n | exported.getSlot n = .ok true}.ncard : Int) = min (max num 0) s.getVaildSlotNum ∧
      (∀ n m, exported.getSlot n = .ok true → remaining.getSlot m = .ok true → m < n) ∧
      ((∀ n, s.getSlot n = .ok true → n < 2 ^ 32) →
        exported.ListsItsSlots ∧ remaining.ListsItsSlots) ∧
      remaining.mergeSlots [e] = s := by
  obtain ⟨n',c,hle,hlb,-,hc,hs⟩ := s.exportSlots_cuts num
  dsimp only
  simp only [getSlot_eq_ok_true, newSlotBitMapWithBits, getVaildSlotNum_eq_size]
  have hmoved (n : Nat) (h : member (s.exportSlots num).1 n = true) :
      member s.bits n = true ∧ c ≤ n := by
    rw [hc.moved, Bool.false_or, Bool.and_eq_true, decide_eq_true_eq] at h
    exact ⟨h.1,h.2.1⟩
  have hkept (n : Nat) (h : member (s.exportSlots num).2.bits n = true) :
      member s.bits n = true ∧ n < c := by
    rw [hc.kept, Bool.and_eq_true, decide_eq_true_eq] at h
    have hn := lt_of_member h.1
    exact ⟨h.1,by omega⟩
  have hbelow (n m : Nat) (hn : member (s.exportSlots num).1 n = true)
      (hm : member (s.exportSlots num).2.bits m = true) : m < n := by
    have h1 := (hmoved n hn).2
    have h2 := (hkept m hm).2
    omega
  refine ⟨fun n h => lt_irrefl n (hbelow n n h.1 h.2),fun n => ?_,?_,hbelow,fun h => ⟨?_,?_⟩,?_⟩
  · rw [← hc.merged, Bool.or_eq_true, or_comm]
  · rw [ncard_members]
    exact hc.exported hle hs
  · exact listsItsSlots_of_lt fun n hn => h n (hmoved n hn).1
  · exact listsItsSlots_of_lt fun n hn => h n (hkept n hn).1
  · exact s.exportSlots_mergeSlots num

theorem exportSlots_partition_two_of_three :
    let s := newSlotBitMapWithBits [4,32,1]
    let exported := newSlotBitMapWithBits (s.exportSlots 2).1
    exported.ListsItsSlots ∧ (s.exportSlots 2).2.ListsItsSlots := by
  refine (exportSlots_partition (newSlotBitMapWithBits [4,32,1]) 2).2.2.2.2.1 fun n hn => ?_
  have hlt := lt_of_member ((getSlot_eq_ok_true _ n).mp hn)
  exact hlt.trans (by decide)

theorem lone_slot (m : Nat) :
    UInt32.ofNat (8 * m) ∈ (newSlotBitMapWithBits (List.replicate m 0 ++ [1])).getVaildSlots ∧
      ∀ n < 8 * m, (newSlotBitMapWithBits (List.replicate m 0 ++ [1])).getSlot n = .ok false := by
  constructor
  · rw [getVaildSlots_eq_elements]
    refine List.mem_map_of_mem (mem_elements.mpr ?_)
    have hl := member_last (List.replicate m 0) 1 (show 0 < 8 by omega)
    rw [List.length_replicate, Nat.add_zero] at hl
    rw [newSlotBitMapWithBits, hl]
    rfl
  · intro n hn
    rw [getSlot, newSlotBitMapWithBits, List.getElem?_append_left (by simp; omega),
      List.getElem?_replicate_of_lt (by omega)]
    simp

theorem exportSlots_none (s : SlotBitMap) : (s.exportSlots 0).2 = s := by
  rw [exportSlots, exportLoop_of_nonpos le_rfl]

theorem getVaildSlots_wraps :
    ¬((newSlotBitMapWithBits (List.replicate (2 ^ 29) 0 ++ [1])).exportSlots 0).2.ListsItsSlots := by
  rw [exportSlots_none]
  obtain ⟨hmem,hget⟩ := lone_slot (2 ^ 29)
  intro h
  have h0 := (h.2 0).mp (List.mem_map.mpr ⟨_,hmem,by decide⟩)
  rw [hget 0 (by decide)] at h0
  cases h0

end SlotBitMap

end LiMaoIM.Util

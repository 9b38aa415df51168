import LiMaoIM.Foundation.Decimal
import LiMaoIM.Db.FileDB

namespace LiMaoIM.Util

open Db (comma)
open Bytes

def formatRun (start stop : UInt32) : Bytes :=
  if start = stop then decimal start.toNat
  else decimal start.toNat ++ minus :: decimal stop.toNat

def formatLoop (formatStr : List Bytes) (start previous : UInt32) : List UInt32 → List Bytes
  | [] => formatStr
  | slot :: slots =>
      let gap := slot - previous ≠ 1
      let formatStr := if gap then formatStr ++ [formatRun start previous] else formatStr
      let start := if gap then slot else start
      let formatStr := if slots = [] then formatStr ++ [formatRun start slot] else formatStr
      formatLoop formatStr start slot slots

def formatSlots : List UInt32 → Bytes
  | [] => []
  | slot :: slots => [comma].intercalate (formatLoop [] slot slot slots)

def rangeOf (start stop : Nat) : List Nat := List.range' start (stop + 1 - start)

def expandItem (item : Bytes) : List Nat :=
  match item.splitOn minus with
  | [n] => [parseUint n]
  | [a,b] => rangeOf (parseUint a) (parseUint b)
  | _ => []

def expand (s : Bytes) : List Nat := if s = [] then [] else (s.splitOn comma).flatMap expandItem

theorem parseUint_slot (slot : UInt32) : parseUint (decimal slot.toNat) = slot.toNat :=
  parseUint_decimal (slot.toNat_lt.trans (by decide))

theorem splitOn_decimal (n : Nat) : (decimal n).splitOn minus = [decimal n] :=
  List.splitOn_eq_singleton (minus_not_mem_decimal n)

theorem rangeOf_self (n : Nat) : rangeOf n n = [n] := by
  rw [rangeOf, Nat.add_sub_cancel_left]
  rfl

theorem rangeOf_succ {start stop : Nat} (h : start ≤ stop) :
    rangeOf start (stop + 1) = rangeOf start stop ++ [stop + 1] := by
  rw [rangeOf, rangeOf, Nat.succ_sub (by omega), List.range'_1_concat]
  congr 2
  omega

theorem expandItem_formatRun (start stop : UInt32) :
    expandItem (formatRun start stop) = rangeOf start.toNat stop.toNat := by
  rw [formatRun, expandItem]
  by_cases h : start = stop
  · rw [if_pos h, splitOn_decimal, h, rangeOf_self]
    exact congrArg (fun n => [n]) (parseUint_slot stop)
  · rw [if_neg h, List.splitOn_append_cons_self, splitOn_decimal, splitOn_decimal]
    exact congrArg₂ rangeOf (parseUint_slot start) (parseUint_slot stop)

theorem comma_not_mem_formatRun (start stop : UInt32) : comma ∉ formatRun start stop := by
  have hdigits (n : Nat) : comma ∉ decimal n := fun h => absurd (mem_decimal h).1 (by decide)
  rw [formatRun]
  split
  · exact hdigits _
  · rw [List.mem_append, List.mem_cons]
    rintro (h | h | h)
    · exact hdigits _ h
    · exact absurd h (by decide)
    · exact hdigits _ h

theorem formatRun_ne_nil (start stop : UInt32) : formatRun start stop ≠ [] := by
  have hpos := length_decimal_pos start.toNat
  rw [formatRun]
  split
  · exact List.ne_nil_of_length_pos hpos
  · exact List.append_ne_nil_of_left_ne_nil (List.ne_nil_of_length_pos hpos) _

theorem gap_iff {previous slot : UInt32} (h : previous < slot) :
    slot - previous ≠ 1 ↔ slot.toNat ≠ previous.toNat + 1 := by
  have hlt : previous.toNat < slot.toNat := h
  rw [not_iff_not, ← UInt32.toNat_inj, UInt32.toNat_sub_of_le _ _ (UInt32.le_of_lt h)]
  change slot.toNat - previous.toNat = 1 ↔ _
  omega

abbrev SlotRun : Type := UInt32 × UInt32

def SlotRun.format (r : SlotRun) : Bytes := formatRun r.1 r.2

def SlotRun.slots (r : SlotRun) : List Nat := rangeOf r.1.toNat r.2.toNat

theorem expand_join {runs : List SlotRun} (h : runs ≠ []) :
    expand ([comma].intercalate (runs.map SlotRun.format)) = runs.flatMap SlotRun.slots := by
  have hjoin : [comma].intercalate (runs.map SlotRun.format) ≠ [] := by
    cases runs with
    | nil => exact absurd rfl h
    | cons r runs =>
        have hr : r.format ≠ [] := formatRun_ne_nil r.1 r.2
        cases runs with
        | nil => simpa using hr
        | cons r' runs => simp [List.intercalate, hr]
  have hcomma : ∀ item ∈ runs.map SlotRun.format, comma ∉ item := by
    intro item hitem
    obtain ⟨r,-,rfl⟩ := List.mem_map.mp hitem
    exact comma_not_mem_formatRun r.1 r.2
  rw [expand, if_neg hjoin, List.splitOn_intercalate comma hcomma (by simpa using h),
    List.flatMap_map]
  exact List.flatMap_congr fun r _ => expandItem_formatRun r.1 r.2

theorem close_run {start previous slot : UInt32} (formatStr : List Bytes)
    (hstart : start ≤ previous) (hlt : previous < slot) :
    ∃ closed : List SlotRun,
      (if slot - previous ≠ 1 then formatStr ++ [formatRun start previous] else formatStr) =
        formatStr ++ closed.map SlotRun.format ∧
      (if slot - previous ≠ 1 then slot else start) ≤ slot ∧
      closed.flatMap SlotRun.slots ++
          rangeOf (if slot - previous ≠ 1 then slot else start).toNat slot.toNat =
        rangeOf start.toNat previous.toNat ++ [slot.toNat] := by
  by_cases hgap : slot - previous ≠ 1
  · rw [if_pos hgap, if_pos hgap, rangeOf_self]
    exact ⟨[(start,previous)],rfl,UInt32.le_refl slot,
      by rw [List.flatMap_singleton]; rfl⟩
  · have hnext : slot.toNat = previous.toNat + 1 :=
      not_not.mp fun hne => hgap ((gap_iff hlt).mpr hne)
    rw [if_neg hgap, if_neg hgap, hnext, rangeOf_succ (UInt32.le_iff_toNat_le.mp hstart)]
    exact ⟨[],(List.append_nil _).symm,UInt32.le_trans hstart (UInt32.le_of_lt hlt),rfl⟩

theorem formatLoop_spec {start previous : UInt32} {slots : List UInt32} (formatStr : List Bytes)
    (hstart : start ≤ previous) (hslots : slots ≠ []) (h : (previous :: slots).Pairwise (· < ·)) :
    ∃ runs : List SlotRun,
      formatLoop formatStr start previous slots = formatStr ++ runs.map SlotRun.format ∧
      runs.flatMap SlotRun.slots =
        rangeOf start.toNat previous.toNat ++ slots.map UInt32.toNat := by
  induction slots generalizing formatStr start previous with
  | nil => exact absurd rfl hslots
  | cons slot slots ih =>
      obtain ⟨hfirst,hrest⟩ := List.pairwise_cons.mp h
      obtain ⟨closed,hformat,hle,hclosed⟩ :=
        close_run formatStr hstart (hfirst slot List.mem_cons_self)
      have hlisted : rangeOf start.toNat previous.toNat ++ (slot :: slots).map UInt32.toNat =
          closed.flatMap SlotRun.slots ++
            rangeOf (if slot - previous ≠ 1 then slot else start).toNat slot.toNat ++
            slots.map UInt32.toNat := by
        rw [hclosed, List.append_assoc]
        rfl
      rw [formatLoop, hformat, hlisted]
      generalize (if slot - previous ≠ 1 then slot else start) = start' at hle ⊢
      by_cases hnil : slots = []
      · rw [if_pos hnil, hnil]
        refine ⟨closed ++ [(start',slot)],?_,?_⟩
        · rw [formatLoop, List.map_append, ← List.append_assoc]
          rfl
        · rw [List.flatMap_append, List.flatMap_singleton, List.map_nil, List.append_nil]
          rfl
      · rw [if_neg hnil]
        obtain ⟨runs,hruns,hslots⟩ := ih (formatStr ++ closed.map SlotRun.format) hle hnil hrest
        refine ⟨closed ++ runs,?_,?_⟩
        · rw [hruns, List.map_append, List.append_assoc]
        · rw [List.flatMap_append, hslots, List.append_assoc]

theorem expand_formatSlots_iff {slots : List UInt32} (h : slots.Pairwise (· < ·)) :
    expand (formatSlots slots) = slots.map UInt32.toNat ↔ slots.length ≠ 1 := by
  cases slots with
  | nil => exact iff_of_true rfl (by decide)
  | cons slot slots =>
      by_cases hnil : slots = []
      · subst hnil
        refine iff_of_false (fun heq => ?_) (fun hne => hne rfl)
        cases heq
      · obtain ⟨runs,hruns,hslots⟩ := formatLoop_spec [] (UInt32.le_refl slot) hnil h
        have hne : runs ≠ [] := by
          rintro rfl
          rw [rangeOf_self] at hslots
          cases hslots
        refine iff_of_true ?_ ?_
        · rw [formatSlots, hruns, List.nil_append, expand_join hne, hslots, rangeOf_self]
          rfl
        · rw [List.length_cons]
          have hpos := List.length_pos_iff.mpr hnil
          omega

theorem expand_formatSlots_runs :
    expand (formatSlots [1,2,3,7,9,10]) = [1,2,3,7,9,10] :=
  (expand_formatSlots_iff (by decide)).mpr (by decide)

theorem formatSlots_one_slot :
    formatSlots [5] = [] ∧ expand (formatSlots [5]) ≠ [5] := by
  decide

end LiMaoIM.Util

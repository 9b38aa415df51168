import LiMaoIM.Foundation.FloorSearch
import LiMaoIM.Db.Record

namespace LiMaoIM.Db

open Outcome

structure Entry where
  relativeOffset : UInt32
  position : UInt32
deriving DecidableEq, Repr

structure IndexFile where
  size : Nat
  slots : Nat → Entry

structure Index where
  baseOffset : Int64
  position : Nat
  totalSize : Nat
deriving DecidableEq, Repr

structure OffsetPosition where
  offset : Int64
  position : Nat
deriving DecidableEq, Repr

def entrySize : Nat := 8

def indexMaxBytes : Nat := 10 * 1024 * 1024

def warmEntries : Nat := 8192 / entrySize

def roundDown (total factor : Nat) : Nat := factor * (total / factor)

def IndexFile.empty : IndexFile := ⟨0,fun _ => ⟨0,0⟩⟩

def IndexFile.truncate (f : IndexFile) (size : Nat) : IndexFile :=
  ⟨size,fun i => if i < f.size / entrySize ∧ i < size / entrySize then f.slots i else ⟨0,0⟩⟩

def resetPosistionLoop (f : IndexFile) (totalSize : Nat) : Nat → Nat → Outcome Nat
  | 0, position => .ok position
  | fuel + 1, position =>
      if totalSize ≤ position then .ok position
      else if totalSize < position + entrySize then .error "EOF"
      else if (f.slots (position / entrySize)).relativeOffset = 0 then .ok position
      else resetPosistionLoop f totalSize fuel (position + entrySize)

def newIndex (f : IndexFile) (baseOffset : Int64) : Outcome (Index × IndexFile) :=
  let mapped := f.truncate (roundDown indexMaxBytes entrySize)
  match resetPosistionLoop mapped f.size f.size 0 with
  | .ok position => .ok (⟨baseOffset,position,f.size⟩,mapped)
  | .error e => .panic e
  | .panic e => .panic e

def Index.isFull (idx : Index) : Bool := indexMaxBytes ≤ idx.position

def Index.append (idx : Index) (f : IndexFile) (offset : Int64) (position : Nat) :
    Index × IndexFile :=
  let entry : Entry := ⟨(offset - idx.baseOffset).toUInt64.toUInt32,UInt32.ofNat position⟩
  if indexMaxBytes ≤ idx.position then (idx,f)
  else
    ({ idx with position := idx.position + entrySize },
      { f with slots := Function.update f.slots (idx.position / entrySize) entry })

def Index.parseEntry (idx : Index) (f : IndexFile) (mid : Nat) : OffsetPosition :=
  if roundDown indexMaxBytes entrySize < mid * entrySize + entrySize then ⟨idx.baseOffset,0⟩
  else
    ⟨idx.baseOffset + (f.slots mid).relativeOffset.toUInt64.toInt64,(f.slots mid).position.toNat⟩

def Index.key (idx : Index) (f : IndexFile) (mid : Nat) : Int :=
  (idx.parseEntry f mid).offset.toInt

def Index.binarySearch (idx : Index) (f : IndexFile) (target : Int64) (lo hi : Nat) : Int × Int :=
  match FloorSearch.search (idx.key f) target.toInt (hi - lo) lo hi with
  | (mid,true) => (mid,mid)
  | (lo,false) => if lo = idx.position / entrySize - 1 then (lo,-1) else (lo,lo + 1)

def Index.indexSlotRangeFor (idx : Index) (f : IndexFile) (target : Int64) : Int × Int :=
  let entries := idx.position / entrySize
  if entries = 0 then (-1,-1)
  else
    let firstHotEntry := entries - 1 - warmEntries
    if idx.key f firstHotEntry < target.toInt then
      idx.binarySearch f target firstHotEntry (entries - 1)
    else if target.toInt < idx.key f 0 then (-1,0)
    else idx.binarySearch f target 0 firstHotEntry

def Index.lookup (idx : Index) (f : IndexFile) (targetOffset : Int64) : OffsetPosition :=
  let (min,_) := idx.indexSlotRangeFor f targetOffset
  if min = -1 then ⟨idx.baseOffset,0⟩ else idx.parseEntry f min.toNat

def Index.close (idx : Index) (f : IndexFile) : IndexFile := f.truncate idx.position

theorem toNat_toUInt64 (d : Int64) : (d.toUInt64.toNat : Int) = d.toInt % 2 ^ 64 := by
  have h : d.toInt = d.toBitVec.toInt := rfl
  have h' : d.toUInt64.toNat = d.toBitVec.toNat := rfl
  have hlt := d.toBitVec.isLt
  rw [h, h', BitVec.toInt_eq_toNat_cond]
  split <;> omega

theorem toInt_toInt64 (r : UInt32) : r.toUInt64.toInt64.toInt = r.toNat := by
  have h : r.toUInt64.toInt64.toInt = r.toUInt64.toBitVec.toInt := rfl
  have h' : r.toUInt64.toBitVec.toNat = r.toNat := by simp
  have hlt := r.toNat_lt
  rw [h, BitVec.toInt_eq_toNat_cond, h']
  split <;> omega

theorem toInt_relative {base o : Int64} (h : base ≤ o) :
    (base + (o - base).toUInt64.toUInt32.toUInt64.toInt64).toInt =
      base.toInt + (o.toInt - base.toInt) % 2 ^ 32 := by
  have hle : base.toInt ≤ o.toInt := Int64.le_iff_toInt_le.mp h
  have h1 := base.le_toInt
  have h2 := o.toInt_lt
  have hr : ((o - base).toUInt64.toUInt32.toNat : Int) = (o.toInt - base.toInt) % 2 ^ 32 := by
    have hd := toNat_toUInt64 (o - base)
    have hb := Int.bmod_emod (x := o.toInt - base.toInt) (m := 2 ^ 64)
    rw [Int64.toInt_sub] at hd
    rw [UInt64.toNat_toUInt32]
    push_cast
    rw [hd]
    omega
  have hmod : (o.toInt - base.toInt) % 2 ^ 32 ≤ o.toInt - base.toInt := by omega
  rw [Int64.toInt_add, toInt_toInt64, hr, Int.bmod_eq_of_le (by omega) (by omega)]

section Lookup

variable {idx : Index} {f : IndexFile} {target : Int64}

theorem binarySearch_fst (lo hi : Nat) :
    (idx.binarySearch f target lo hi).1 =
      (FloorSearch.search (idx.key f) target.toInt (hi - lo) lo hi).1 := by
  rw [Index.binarySearch]
  split
  · rename_i h
    rw [h]
  · rename_i h
    rw [h]
    split <;> rfl

theorem lookup_of_empty (h : idx.position / entrySize = 0) (target : Int64) :
    idx.lookup f target = ⟨idx.baseOffset,0⟩ := by
  simp [Index.lookup, Index.indexSlotRangeFor, h]

theorem lookup_of_fst {r : Nat} (h : (idx.indexSlotRangeFor f target).1 = r) :
    idx.lookup f target = idx.parseEntry f r := by
  rw [Index.lookup]
  simp only [h, Int.toNat_natCast]
  rw [if_neg (by omega)]

theorem lookup_floor {n : Nat} (hn : idx.position / entrySize = n + 1)
    (ha : FloorSearch.Ascending (idx.key f) 0 n) (target : Int64) :
    (target.toInt < idx.key f 0 ∧ idx.lookup f target = ⟨idx.baseOffset,0⟩) ∨
      ∃ r, FloorSearch.IsFloor (idx.key f) target.toInt 0 n r ∧
        idx.lookup f target = idx.parseEntry f r := by
  obtain ⟨hot,hhot⟩ : ∃ h, n - warmEntries = h := ⟨_,rfl⟩
  have hle : hot ≤ n := by omega
  by_cases hlt : idx.key f hot < target.toInt
  · right
    have hs := FloorSearch.search_isFloor hle le_rfl
      (fun i j h1 h2 h3 => ha i j (Nat.zero_le i) h2 h3) hlt.le
    refine ⟨_,⟨Nat.zero_le _,hs.le_hi,hs.le_target,hs.lt_above⟩,lookup_of_fst ?_⟩
    simp only [Index.indexSlotRangeFor, hn, Nat.add_sub_cancel, hhot, Nat.succ_ne_zero, if_false,
      if_pos hlt, binarySearch_fst]
  · by_cases hgt : target.toInt < idx.key f 0
    · left
      refine ⟨hgt,?_⟩
      simp only [Index.lookup, Index.indexSlotRangeFor, hn, Nat.add_sub_cancel, hhot,
        Nat.succ_ne_zero, if_false, if_neg hlt, if_pos hgt, if_true]
    · right
      have hs := FloorSearch.search_isFloor (Nat.zero_le hot) le_rfl
        (fun i j h1 h2 h3 => ha i j h1 h2 (h3.trans hle)) (not_lt.mp hgt)
      refine ⟨_,⟨hs.lo_le,hs.le_hi.trans hle,hs.le_target,fun j hj hjn => ?_⟩,lookup_of_fst ?_⟩
      · rcases Nat.lt_or_ge hot j with h | h
        · exact (not_lt.mp hlt).trans_lt (ha hot j (Nat.zero_le _) h hjn)
        · exact hs.lt_above j hj h
      · simp only [Index.indexSlotRangeFor, hn, Nat.add_sub_cancel, hhot, Nat.succ_ne_zero,
          if_false, if_neg hlt, if_neg hgt, binarySearch_fst]

theorem lookup_last {n : Nat} (hn : idx.position / entrySize = n + 1)
    (ha : ∀ j ≤ n, idx.key f j ≤ target.toInt)
    (he : ∀ j ≤ n, idx.key f j = target.toInt → j = n) :
    idx.lookup f target = idx.parseEntry f n := by
  obtain ⟨hot,hhot⟩ : ∃ h, n - warmEntries = h := ⟨_,rfl⟩
  have hle : hot ≤ n := by omega
  apply lookup_of_fst
  by_cases hlt : idx.key f hot < target.toInt
  · have hs := FloorSearch.search_last hle le_rfl (fun j _ h => ha j h) (fun j _ h => he j h)
    simp only [Index.indexSlotRangeFor, hn, Nat.add_sub_cancel, hhot, Nat.succ_ne_zero, if_false,
      if_pos hlt, binarySearch_fst, hs]
  · have heq : hot = n := he hot hle (le_antisymm (ha hot hle) (not_lt.mp hlt))
    subst heq
    have hs := FloorSearch.search_last (Nat.zero_le hot) le_rfl (fun j _ h => ha j h)
      (fun j _ h => he j h)
    simp only [Index.indexSlotRangeFor, hn, Nat.add_sub_cancel, hhot, Nat.succ_ne_zero, if_false,
      if_neg hlt, if_neg (not_lt.mpr (ha 0 (Nat.zero_le _))), binarySearch_fst, hs]

end Lookup
end LiMaoIM.Db

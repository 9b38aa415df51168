import LiMaoIM.Db.IndexLookup

namespace LiMaoIM.Db

open Outcome

theorem writeSlots_of_le {slots : Nat → Entry} {n i : Nat} {es : List Entry}
    (h : n + es.length ≤ i) : writeSlots slots n es i = slots i := by
  induction es generalizing slots n with
  | nil => rfl
  | cons e es ih =>
    rw [List.length_cons] at h
    rw [writeSlots, ih (by omega), Function.update_of_ne (by omega)]

theorem slots_new (i : Nat) : Mmap.new.file.slots i = ⟨0,0⟩ := by
  have hread : Mmap.new.read (i * entrySize) entrySize = List.replicate entrySize 0 :=
    List.map_const'.trans (congrArg (fun n => List.replicate n 0) List.length_range)
  have hzero : Entry.decode (List.replicate entrySize 0) = ⟨0,0⟩ := by decide
  exact (congrArg Entry.decode hread).trans hzero

structure Filled (f : IndexFile) (n : Nat) : Prop where
  used : ∀ i < n, (f.slots i).relativeOffset ≠ 0
  blank : ∀ i, n ≤ i → f.slots i = ⟨0,0⟩

theorem resetPosistionLoop_filled {f : IndexFile} {n k : Nat} (h : Filled f n) {totalSize : Nat}
    (hal : entrySize ∣ totalSize) (hn : entrySize * n ≤ totalSize) {fuel : Nat}
    (hfuel : n ≤ fuel + k) (hk : k ≤ n) :
    resetPosistionLoop f totalSize fuel (entrySize * k) = .ok (entrySize * n) := by
  rw [entrySize] at hal hn
  induction fuel generalizing k with
  | zero => rw [resetPosistionLoop, show k = n by omega]
  | succ fuel ih =>
    rw [resetPosistionLoop, Nat.mul_div_cancel_left k (by decide)]
    rw [entrySize] at ih ⊢
    by_cases hend : totalSize ≤ 8 * k
    · rw [if_pos hend, show k = n by omega]
    rw [if_neg hend, if_neg (by omega)]
    by_cases hzero : (f.slots k).relativeOffset = 0
    · have hle : n ≤ k := Nat.not_lt.mp fun hlt => h.used k hlt hzero
      rw [if_pos hzero, show k = n by omega]
    · have hlt : k < n := Nat.not_le.mp fun hle => hzero (by rw [h.blank k hle])
      rw [if_neg hzero]
      exact ih (k := k + 1) (by omega) hlt

theorem newIndex_filled {f : IndexFile} {n : Nat} (h : Filled f n) (hal : entrySize ∣ f.size)
    (hn : entrySize * n ≤ f.size) (hfits : n ≤ indexMaxBytes / entrySize) (base : Int64) :
    newIndex f base =
      .ok (⟨base,entrySize * n,f.size⟩,⟨roundDown indexMaxBytes entrySize,f.slots⟩) := by
  have hsize : roundDown indexMaxBytes entrySize / entrySize = indexMaxBytes / entrySize := rfl
  have hcount : n ≤ f.size / entrySize := by
    rw [entrySize] at hn ⊢
    omega
  have hmapped : f.truncate (roundDown indexMaxBytes entrySize) =
      ⟨roundDown indexMaxBytes entrySize,f.slots⟩ := by
    refine congrArg (IndexFile.mk _) (funext fun i => ?_)
    rw [hsize]
    split
    · rfl
    · rename_i hout
      exact (h.blank i (by omega)).symm
  have hfilled : Filled ⟨roundDown indexMaxBytes entrySize,f.slots⟩ n := ⟨h.used,h.blank⟩
  have henough : n ≤ f.size + 0 := by
    rw [entrySize] at hn
    omega
  have hloop := resetPosistionLoop_filled hfilled hal hn henough (Nat.zero_le n)
  rw [Nat.mul_zero] at hloop
  rw [newIndex, hmapped]
  simp only [hloop]

theorem relativeOffset_ne_zero {base o : Int64} (hbase : base < o)
    (hrel : o.toInt - base.toInt < 2 ^ 32) : (o - base).toUInt64.toUInt32 ≠ 0 := by
  intro hzero
  have hstored := toInt_stored hbase hrel
  rw [hzero] at hstored
  have hadd : base + (0 : UInt32).toUInt64.toInt64 = base := Int64.add_zero base
  rw [hadd] at hstored
  subst hstored
  exact Int64.lt_irrefl hbase

theorem builtIndex_filled {base : Int64} {entries : List OffsetPosition}
    (h : IndexEntries base entries) :
    (builtIndex base entries).1 = ⟨base,entrySize * entries.length,0⟩ ∧
      (builtIndex base entries).2.file.size = roundDown indexMaxBytes entrySize ∧
      Filled (builtIndex base entries).2.file entries.length := by
  have hfits := h.fits
  rw [← Nat.zero_add entries.length] at hfits
  obtain ⟨hidx,hfile⟩ := appendEntries_file base 0 .new hfits
  rw [Nat.mul_zero, Nat.zero_add] at hidx
  rw [Nat.mul_zero] at hfile
  rw [builtIndex, hidx, hfile]
  refine ⟨rfl,rfl,fun i hi => ?_,fun i hi => ?_⟩
  · have hmark : (entries.map (·.toEntry base))[i]? = some (entries[i].toEntry base) := by
      rw [List.getElem?_map, List.getElem?_eq_getElem hi]
      rfl
    have hslot := writeSlots_getElem Mmap.new.file.slots 0 hmark
    rw [Nat.zero_add] at hslot
    simp only [hslot]
    have hmem := List.getElem_mem hi
    exact relativeOffset_ne_zero (h.above _ hmem) (h.relative _ hmem)
  · exact (writeSlots_of_le (by rw [List.length_map]; omega)).trans (slots_new i)

structure IndexRestored (base : Int64) (entries : List OffsetPosition) (idx : Index) (f : IndexFile)
    (idx' : Index) (f' : IndexFile) : Prop where
  position : idx'.position = entrySize * entries.length
  parseEntry : ∀ i e, entries[i]? = some e → idx'.parseEntry f' i = e
  lookup : ∀ target, idx'.lookup f' target = idx.lookup f target
  append : ∀ offset position i e, entries[i]? = some e →
    (idx'.append f' offset position).1.parseEntry (idx'.append f' offset position).2 i = e

theorem append_keeps {idx : Index} {f : IndexFile} {n i : Nat} (hn : idx.position = entrySize * n)
    (hi : i < n) (offset : Int64) (position : Nat) :
    (idx.append f offset position).1.parseEntry (idx.append f offset position).2 i =
      idx.parseEntry f i := by
  rw [Index.append]
  split
  · rfl
  · rw [hn, Nat.mul_div_cancel_left n (by decide), Index.parseEntry, Index.parseEntry]
    simp only [Function.update_of_ne (Nat.ne_of_lt hi)]

theorem lookup_totalSize (base : Int64) (position totalSize totalSize' : Nat) (f : IndexFile)
    (target : Int64) :
    Index.lookup ⟨base,position,totalSize⟩ f target =
      Index.lookup ⟨base,position,totalSize'⟩ f target := by
  have hparse : Index.parseEntry ⟨base,position,totalSize⟩ f =
      Index.parseEntry ⟨base,position,totalSize'⟩ f := rfl
  have hkey : Index.key ⟨base,position,totalSize⟩ f = Index.key ⟨base,position,totalSize'⟩ f := by
    funext i
    rw [Index.key, Index.key, hparse]
  have hsearch : Index.binarySearch ⟨base,position,totalSize⟩ f =
      Index.binarySearch ⟨base,position,totalSize'⟩ f := by
    funext target lo hi
    rw [Index.binarySearch, Index.binarySearch, hkey]
  have hrange : Index.indexSlotRangeFor ⟨base,position,totalSize⟩ f target =
      Index.indexSlotRangeFor ⟨base,position,totalSize'⟩ f target := by
    rw [Index.indexSlotRangeFor, Index.indexSlotRangeFor, hkey, hsearch]
  rw [Index.lookup, Index.lookup, hrange, hparse]

theorem newIndex_restores_index {base : Int64} {entries : List OffsetPosition}
    (h : IndexEntries base entries) (f : IndexFile)
    (hf : f = (builtIndex base entries).1.close (builtIndex base entries).2.file ∨
      f = (builtIndex base entries).2.file) :
    ∃ idx' f', newIndex f base = .ok (idx',f') ∧
      IndexRestored base entries (builtIndex base entries).1 (builtIndex base entries).2.file
        idx' f' := by
  obtain ⟨hidx,hsize,hfilled⟩ := builtIndex_filled h
  have hholds := builtIndex_holds h
  rw [hidx] at hf hholds ⊢
  generalize (builtIndex base entries).2 = m at hf hholds hsize hfilled ⊢
  have hfits := h.fits
  have hmap : roundDown indexMaxBytes entrySize = entrySize * (indexMaxBytes / entrySize) := rfl
  have hcount : roundDown indexMaxBytes entrySize / entrySize = indexMaxBytes / entrySize := rfl
  have hopen : newIndex f base = .ok (⟨base,entrySize * entries.length,f.size⟩,m.file) := by
    have hslots : f.slots = m.file.slots := by
      rcases hf with rfl | rfl
      · funext i
        rw [Index.close, IndexFile.truncate, hsize, hcount, Nat.mul_div_cancel_left _ (by decide)]
        simp only
        split
        · rfl
        · rename_i hout
          exact (hfilled.blank i (by omega)).symm
      · rfl
    have hends : entrySize ∣ f.size ∧ entrySize * entries.length ≤ f.size := by
      rcases hf with rfl | rfl
      · exact ⟨⟨_,rfl⟩,le_rfl⟩
      · rw [hsize, hmap]
        exact ⟨⟨_,rfl⟩,Nat.mul_le_mul_left _ hfits⟩
    have hm : m.file = ⟨roundDown indexMaxBytes entrySize,m.file.slots⟩ := by rw [← hsize]
    have hfilled' : Filled f entries.length := ⟨hslots ▸ hfilled.used,hslots ▸ hfilled.blank⟩
    rw [newIndex_filled hfilled' hends.1 hends.2 hfits, hslots, ← hm]
  refine ⟨_,_,hopen,rfl,hholds.parseEntry,lookup_totalSize _ _ _ _ _,
    fun offset position i e hi => ?_⟩
  rw [append_keeps rfl (List.getElem?_eq_some_iff.mp hi).1]
  exact hholds.parseEntry i e hi

theorem newIndex_restores_index_two :
    let r := builtIndex 100 [⟨107,10⟩,⟨109,35⟩]
    (∃ idx' f', newIndex (r.1.close r.2.file) 100 = .ok (idx',f') ∧
      IndexRestored 100 [⟨107,10⟩,⟨109,35⟩] r.1 r.2.file idx' f') ∧
    ∃ idx' f', newIndex r.2.file 100 = .ok (idx',f') ∧
      IndexRestored 100 [⟨107,10⟩,⟨109,35⟩] r.1 r.2.file idx' f' :=
  ⟨newIndex_restores_index ⟨by decide,by decide,by decide,by decide,by decide⟩ _ (.inl rfl),
    newIndex_restores_index ⟨by decide,by decide,by decide,by decide,by decide⟩ _ (.inr rfl)⟩

end LiMaoIM.Db

import LiMaoIM.Db.ReadBack

namespace LiMaoIM.Db

open Outcome

def Entry.encode (e : Entry) : Bytes :=
  Bytes.putUint 4 e.relativeOffset.toNat ++ Bytes.putUint 4 e.position.toNat

def Entry.decode (bs : Bytes) : Entry :=
  ⟨UInt32.ofNat (Bytes.uint (bs.take 4)),UInt32.ofNat (Bytes.uint (bs.drop 4))⟩

theorem Entry.length_encode (e : Entry) : e.encode.length = entrySize := by
  simp [encode, entrySize]

theorem Entry.decode_encode (e : Entry) : decode e.encode = e := by
  have hlen : (Bytes.putUint 4 e.relativeOffset.toNat).length = 4 := Bytes.length_putUint 4 _
  rw [decode, encode, List.take_left' hlen, List.drop_left' hlen,
    Bytes.uint_putUint_of_lt (w := 4) e.relativeOffset.toNat_lt,
    Bytes.uint_putUint_of_lt (w := 4) e.position.toNat_lt, UInt32.ofNat_toNat, UInt32.ofNat_toNat]

structure Mmap where
  size : Nat
  bytes : Nat → UInt8

namespace Mmap

def new : Mmap := ⟨roundDown indexMaxBytes entrySize,fun _ => 0⟩

def read (m : Mmap) (position n : Nat) : Bytes :=
  (List.range n).map fun i => m.bytes (position + i)

def writeAt (m : Mmap) (p : Bytes) (offset : Nat) : Mmap :=
  { m with
    bytes := fun i => if offset ≤ i then (p[i - offset]?).getD (m.bytes i) else m.bytes i }

def file (m : Mmap) : IndexFile := ⟨m.size,fun i => Entry.decode (m.read (i * entrySize) entrySize)⟩

theorem read_writeAt (m : Mmap) (p : Bytes) (offset : Nat) :
    (m.writeAt p offset).read offset p.length = p := by
  apply List.ext_getElem
  · simp [read]
  · intro i h1 h2
    simp [read, writeAt, h2]

theorem read_writeAt_of_disjoint (m : Mmap) (p : Bytes) {offset position n : Nat}
    (h : position + n ≤ offset ∨ offset + p.length ≤ position) :
    (m.writeAt p offset).read position n = m.read position n := by
  refine List.map_congr_left fun i hi => ?_
  have hlt := List.mem_range.mp hi
  rw [writeAt]
  simp only
  split
  · rw [List.getElem?_eq_none (by omega)]
    rfl
  · rfl

theorem file_writeAt (m : Mmap) (e : Entry) (n : Nat) :
    (m.writeAt e.encode (entrySize * n)).file =
      { m.file with slots := Function.update m.file.slots n e } := by
  have hlen := e.length_encode
  rw [file]
  congr 1
  funext i
  rcases eq_or_ne i n with rfl | hne
  · rw [Function.update_self, Nat.mul_comm, ← hlen, read_writeAt, Entry.decode_encode]
  · rw [Function.update_of_ne hne, read_writeAt_of_disjoint]
    · rfl
    · rw [hlen, entrySize]
      omega

end Mmap

def Index.appendEntry (idx : Index) (m : Mmap) (offset : Int64) (position : Nat) : Index × Mmap :=
  let b := Entry.encode ⟨(offset - idx.baseOffset).toUInt64.toUInt32,UInt32.ofNat position⟩
  if indexMaxBytes ≤ idx.position then (idx,m)
  else ({ idx with position := idx.position + entrySize },m.writeAt b idx.position)

theorem newIndex_new (base : Int64) : newIndex .empty base = .ok (⟨base,0,0⟩,Mmap.new.file) := by
  have hzero : ∀ i, Entry.decode (Mmap.new.read (i * entrySize) entrySize) = ⟨0,0⟩ := by
    intro i
    have hread : Mmap.new.read (i * entrySize) entrySize = List.replicate entrySize 0 :=
      List.map_const'.trans (congrArg (fun n => List.replicate n 0) List.length_range)
    rw [hread]
    decide
  have hfile : IndexFile.empty.truncate (roundDown indexMaxBytes entrySize) = Mmap.new.file := by
    refine congrArg (IndexFile.mk _) (funext fun i => ?_)
    have hnot : ¬ (i < IndexFile.empty.size / entrySize ∧
        i < roundDown indexMaxBytes entrySize / entrySize) := fun h => Nat.not_lt_zero i h.1
    exact (if_neg hnot).trans (hzero i).symm
  rw [newIndex, hfile]
  rfl

theorem appendEntry_file {idx : Index} (h : entrySize ∣ idx.position) (m : Mmap) (offset : Int64)
    (position : Nat) :
    ((idx.appendEntry m offset position).1,(idx.appendEntry m offset position).2.file) =
      idx.append m.file offset position := by
  obtain ⟨n,hn⟩ := h
  rw [Index.appendEntry, Index.append]
  split
  · rfl
  · rw [hn, Mmap.file_writeAt, Nat.mul_div_cancel_left n (by decide)]

def Index.binarySearchReads (idx : Index) (f : IndexFile) (target : Int64) (lo hi : Nat) :
    (Int × Int) × List Nat :=
  match FloorSearch.searchFrom (idx.key f) target.toInt lo hi with
  | ((mid,true),reads) => ((mid,mid),reads)
  | ((lo,false),reads) =>
      (if lo = idx.position / entrySize - 1 then (lo,-1) else (lo,lo + 1),reads)

def Index.indexSlotRangeForReads (idx : Index) (f : IndexFile) (target : Int64) :
    (Int × Int) × List Nat :=
  let entries := idx.position / entrySize
  if entries = 0 then ((-1,-1),[])
  else
    let firstHotEntry := entries - 1 - warmEntries
    if idx.key f firstHotEntry < target.toInt then
      let r := idx.binarySearchReads f target firstHotEntry (entries - 1)
      (r.1,firstHotEntry :: r.2)
    else if target.toInt < idx.key f 0 then ((-1,0),[firstHotEntry,0])
    else
      let r := idx.binarySearchReads f target 0 firstHotEntry
      (r.1,firstHotEntry :: 0 :: r.2)

def Index.lookupReads (idx : Index) (m : Mmap) (targetOffset : Int64) : OffsetPosition × List Nat :=
  let ((min,_),reads) := idx.indexSlotRangeForReads m.file targetOffset
  if min = -1 then (⟨idx.baseOffset,0⟩,reads)
  else (idx.parseEntry m.file min.toNat,reads ++ [min.toNat])

section Reads

variable {idx : Index} {f : IndexFile} {m : Mmap} {target : Int64}

theorem binarySearchReads_fst (lo hi : Nat) :
    (idx.binarySearchReads f target lo hi).1 = idx.binarySearch f target lo hi := by
  have h : (FloorSearch.searchFrom (idx.key f) target.toInt lo hi).1 =
      FloorSearch.search (idx.key f) target.toInt (hi - lo) lo hi :=
    FloorSearch.searchFrom_fst le_rfl
  rw [Index.binarySearchReads, Index.binarySearch, ← h]
  split
  · rename_i heq
    rw [heq]
  · rename_i heq
    rw [heq]

theorem indexSlotRangeForReads_fst :
    (idx.indexSlotRangeForReads f target).1 = idx.indexSlotRangeFor f target := by
  rw [Index.indexSlotRangeForReads, Index.indexSlotRangeFor]
  simp only
  split
  · rfl
  · split
    · exact binarySearchReads_fst _ _
    · split
      · rfl
      · exact binarySearchReads_fst _ _

theorem lookupReads_fst : (idx.lookupReads m target).1 = idx.lookup m.file target := by
  rw [Index.lookupReads, Index.lookup, ← indexSlotRangeForReads_fst]
  simp only
  split
  · rfl
  · rfl

structure ReadsUpTo (n count : Nat) (r : (Int × Int) × List Nat) : Prop where
  min_le : r.1.1.toNat ≤ n
  reads_le : ∀ i ∈ r.2, i ≤ n
  length_le : r.2.length ≤ count

theorem ReadsUpTo.read {n count i : Nat} {r : (Int × Int) × List Nat} (h : ReadsUpTo n count r)
    (hi : i ≤ n) : ReadsUpTo n (count + 1) (r.1,i :: r.2) := by
  refine ⟨h.min_le,fun j hj => ?_,?_⟩
  · rcases List.mem_cons.mp hj with rfl | hmem
    · exact hi
    · exact h.reads_le j hmem
  · rw [List.length_cons]
    exact Nat.succ_le_succ h.length_le

theorem binarySearchReads_upTo {lo hi n : Nat} (hle : lo ≤ hi) (hhi : hi ≤ n) :
    ReadsUpTo n n (idx.binarySearchReads f target lo hi) := by
  have hprobes : FloorSearch.Probes lo hi
      (FloorSearch.searchFrom (idx.key f) target.toInt lo hi) := FloorSearch.searchFrom_probes hle
  obtain ⟨⟨-,hres⟩,hreads,hlen⟩ := hprobes
  have hres' := hres.trans hhi
  have hreads' := fun i hi' => (hreads i hi').2.trans hhi
  have hlen' : (FloorSearch.searchFrom (idx.key f) target.toInt lo hi).2.length ≤ n := by omega
  rw [Index.binarySearchReads]
  split
  · rename_i heq
    rw [heq] at hres' hreads' hlen'
    exact ⟨hres',hreads',hlen'⟩
  · rename_i heq
    rw [heq] at hres' hreads' hlen'
    refine ⟨?_,hreads',hlen'⟩
    split
    · exact hres'
    · exact hres'

theorem indexSlotRangeForReads_upTo {n : Nat} (hn : idx.position / entrySize = n + 1) :
    ReadsUpTo n (n + 2) (idx.indexSlotRangeForReads f target) := by
  have hhot : n - warmEntries ≤ n := Nat.sub_le _ _
  rw [Index.indexSlotRangeForReads]
  simp only [hn, Nat.add_sub_cancel, Nat.succ_ne_zero, if_false]
  split
  · obtain ⟨hmin,hreads,hlen⟩ := (binarySearchReads_upTo hhot le_rfl).read hhot
    exact ⟨hmin,hreads,hlen.trans (Nat.le_succ _)⟩
  · split
    · refine ⟨Nat.zero_le n,fun i hi => ?_,by simp⟩
      rcases List.mem_cons.mp hi with heq | hmem
      · exact heq.le.trans hhot
      · exact (List.mem_singleton.mp hmem).le.trans (Nat.zero_le n)
    · exact ((binarySearchReads_upTo (Nat.zero_le _) hhot).read (Nat.zero_le n)).read hhot

theorem lookupReads_reads (idx : Index) (m : Mmap) (target : Int64) :
    (∀ i ∈ (idx.lookupReads m target).2, i < idx.position / entrySize) ∧
      (idx.lookupReads m target).2.length ≤ idx.position / entrySize + 2 := by
  rw [Index.lookupReads]
  cases hn : idx.position / entrySize with
  | zero => simp [Index.indexSlotRangeForReads, hn]
  | succ n =>
    have hrange : ReadsUpTo n (n + 2) (idx.indexSlotRangeForReads m.file target) :=
      indexSlotRangeForReads_upTo hn
    obtain ⟨hmin,hreads,hlen⟩ := hrange
    simp only
    split
    · exact ⟨fun i hi => Nat.lt_succ_of_le (hreads i hi),hlen.trans (Nat.le_succ _)⟩
    · refine ⟨fun i hi => ?_,?_⟩
      · rcases List.mem_append.mp hi with hmem | hmem
        · exact Nat.lt_succ_of_le (hreads i hmem)
        · rw [List.mem_singleton.mp hmem]
          exact Nat.lt_succ_of_le hmin
      · rw [List.length_append, List.length_singleton]
        omega

end Reads

def appendEntries (idx : Index) (m : Mmap) (entries : List OffsetPosition) : Index × Mmap :=
  entries.foldl (fun r e => r.1.appendEntry r.2 e.offset e.position) (idx,m)

def builtIndex (base : Int64) (entries : List OffsetPosition) : Index × Mmap :=
  appendEntries ⟨base,0,0⟩ .new entries

structure IndexEntries (base : Int64) (entries : List OffsetPosition) : Prop where
  ascending : entries.Pairwise (fun a b => a.offset < b.offset)
  above : ∀ e ∈ entries, base < e.offset
  relative : ∀ e ∈ entries, e.offset.toInt - base.toInt < 2 ^ 32
  position : ∀ e ∈ entries, e.position < 2 ^ 32
  fits : entries.length ≤ indexMaxBytes / entrySize

def OffsetPosition.toEntry (e : OffsetPosition) (base : Int64) : Entry :=
  ⟨(e.offset - base).toUInt64.toUInt32,UInt32.ofNat e.position⟩

theorem appendEntries_file (base : Int64) (totalSize : Nat) (m : Mmap) {n : Nat}
    {entries : List OffsetPosition} (hfits : n + entries.length ≤ indexMaxBytes / entrySize) :
    (appendEntries ⟨base,entrySize * n,totalSize⟩ m entries).1 =
        ⟨base,entrySize * (n + entries.length),totalSize⟩ ∧
      (appendEntries ⟨base,entrySize * n,totalSize⟩ m entries).2.file =
        { m.file with slots := writeSlots m.file.slots n (entries.map (·.toEntry base)) } := by
  induction entries generalizing n m with
  | nil => exact ⟨rfl,rfl⟩
  | cons e entries ih =>
    rw [List.length_cons] at hfits
    have hroom : ¬ indexMaxBytes ≤ entrySize * n := by
      simp only [indexMaxBytes, entrySize] at hfits ⊢
      omega
    have hstep : Index.appendEntry ⟨base,entrySize * n,totalSize⟩ m e.offset e.position =
        (⟨base,entrySize * (n + 1),totalSize⟩,m.writeAt (e.toEntry base).encode (entrySize * n)) :=
      if_neg hroom
    obtain ⟨hidx,hfile⟩ := ih (m.writeAt (e.toEntry base).encode (entrySize * n)) (n := n + 1)
      (by omega)
    have hrun : appendEntries ⟨base,entrySize * n,totalSize⟩ m (e :: entries) =
        appendEntries ⟨base,entrySize * (n + 1),totalSize⟩
          (m.writeAt (e.toEntry base).encode (entrySize * n)) entries := by
      rw [appendEntries, List.foldl_cons, hstep]
      rfl
    rw [hrun, hidx, hfile, Mmap.file_writeAt, List.length_cons, Nat.add_right_comm, Nat.add_assoc]
    exact ⟨rfl,rfl⟩

theorem toInt_stored {base o : Int64} (hbase : base < o) (hrel : o.toInt - base.toInt < 2 ^ 32) :
    base + (o - base).toUInt64.toUInt32.toUInt64.toInt64 = o := by
  have hlt := Int64.lt_iff_toInt_lt.mp hbase
  rw [← Int64.toInt_inj, toInt_relative (Int64.le_of_lt hbase), Int.emod_eq_of_lt (by omega) hrel]
  omega

structure IndexHolds (base : Int64) (entries : List OffsetPosition) (idx : Index) (m : Mmap) :
    Prop where
  baseOffset : idx.baseOffset = base
  length : idx.position / entrySize = entries.length
  parseEntry : ∀ i e, entries[i]? = some e → idx.parseEntry m.file i = e

theorem builtIndex_holds {base : Int64} {entries : List OffsetPosition}
    (h : IndexEntries base entries) :
    IndexHolds base entries (builtIndex base entries).1 (builtIndex base entries).2 := by
  have hfits := h.fits
  rw [← Nat.zero_add entries.length] at hfits
  obtain ⟨hidx,hfile⟩ := appendEntries_file base 0 .new hfits
  rw [builtIndex]
  rw [Nat.mul_zero] at hidx hfile
  refine ⟨by rw [hidx],?_,?_⟩
  · rw [hidx, Nat.zero_add, Nat.mul_div_cancel_left _ (by decide)]
  · intro i e hi
    have hlt := (List.getElem?_eq_some_iff.mp hi).1
    have hmem := List.mem_of_getElem? hi
    have hmark : (entries.map (·.toEntry base))[i]? = some (e.toEntry base) := by
      rw [List.getElem?_map, hi]
      rfl
    have hslot := writeSlots_getElem Mmap.new.file.slots 0 hmark
    have hroom : ¬ roundDown indexMaxBytes entrySize < i * entrySize + entrySize := by
      have hle := h.fits
      simp only [roundDown, indexMaxBytes, entrySize] at hle ⊢
      omega
    rw [Nat.zero_add] at hslot
    rw [Index.parseEntry, if_neg hroom, hidx, hfile]
    simp only [hslot]
    simp only [OffsetPosition.toEntry, UInt32.toNat_ofNat',
      Nat.mod_eq_of_lt (h.position e hmem), toInt_stored (h.above e hmem) (h.relative e hmem)]

def FloorEntry (base : Int64) (entries : List OffsetPosition) (target : Int64)
    (r : OffsetPosition) : Prop :=
  (∀ e ∈ entries, target < e.offset) ∧ r = ⟨base,0⟩ ∨
    r ∈ entries ∧ r.offset ≤ target ∧ ∀ e ∈ entries, e.offset ≤ target → e.offset ≤ r.offset

theorem IndexHolds.floor {base : Int64} {entries : List OffsetPosition} {idx : Index} {m : Mmap}
    (h : IndexHolds base entries idx m) (hasc : entries.Pairwise (fun a b => a.offset < b.offset))
    (target : Int64) : FloorEntry base entries target (idx.lookup m.file target) := by
  have hkey : ∀ i (hi : i < entries.length), idx.key m.file i = entries[i].offset.toInt :=
    fun i hi => by rw [Index.key, h.parseEntry i _ (List.getElem?_eq_getElem hi)]
  cases hn : entries.length with
  | zero =>
    left
    rw [List.length_eq_zero_iff.mp hn, lookup_of_empty (h.length.trans hn), h.baseOffset]
    exact ⟨fun e he => absurd he List.not_mem_nil,rfl⟩
  | succ n =>
    have hascending : FloorSearch.Ascending (idx.key m.file) 0 n := by
      intro i j _ hij hj
      rw [hkey i (by omega), hkey j (by omega)]
      exact Int64.lt_iff_toInt_lt.mp (List.pairwise_iff_getElem.mp hasc i j _ _ hij)
    rcases lookup_floor (h.length.trans hn) hascending target with
      ⟨hbelow,hlookup⟩ | ⟨r,⟨-,hle,htarget,habove⟩,hlookup⟩
    · left
      refine ⟨fun e he => ?_,by rw [hlookup, h.baseOffset]⟩
      obtain ⟨i,hi,rfl⟩ := List.getElem_of_mem he
      rw [Int64.lt_iff_toInt_lt, ← hkey i hi]
      rcases Nat.eq_zero_or_pos i with rfl | hpos
      · exact hbelow
      · exact hbelow.trans (hascending 0 i le_rfl hpos (by omega))
    · right
      have hr : r < entries.length := by omega
      rw [hkey r hr] at htarget
      rw [hlookup, h.parseEntry r _ (List.getElem?_eq_getElem hr)]
      refine ⟨List.getElem_mem hr,Int64.le_iff_toInt_le.mpr htarget,fun e he hetarget => ?_⟩
      obtain ⟨i,hi,rfl⟩ := List.getElem_of_mem he
      rw [Int64.le_iff_toInt_le] at hetarget ⊢
      rcases Nat.lt_trichotomy i r with hlt | rfl | hgt
      · exact (Int64.lt_iff_toInt_lt.mp (List.pairwise_iff_getElem.mp hasc i r hi hr hlt)).le
      · exact le_rfl
      · have hgt' := habove i hgt (by omega)
        rw [hkey i hi] at hgt'
        omega

theorem lookup_floor_search {base : Int64} {entries : List OffsetPosition}
    (h : IndexEntries base entries) (target : Int64) :
    FloorEntry base entries target
        ((builtIndex base entries).1.lookupReads (builtIndex base entries).2 target).1 ∧
      (∀ i ∈ ((builtIndex base entries).1.lookupReads (builtIndex base entries).2 target).2,
        i < entries.length) ∧
      ((builtIndex base entries).1.lookupReads (builtIndex base entries).2 target).2.length ≤
        entries.length + 2 := by
  have hholds := builtIndex_holds h
  obtain ⟨hreads,hlen⟩ := lookupReads_reads (builtIndex base entries).1
    (builtIndex base entries).2 target
  rw [hholds.length] at hreads hlen
  refine ⟨?_,hreads,hlen⟩
  rw [lookupReads_fst]
  exact hholds.floor h.ascending target

theorem lookup_floor_search_two :
    FloorEntry 100 [⟨107,10⟩,⟨109,35⟩] 108
        ((builtIndex 100 [⟨107,10⟩,⟨109,35⟩]).1.lookupReads
          (builtIndex 100 [⟨107,10⟩,⟨109,35⟩]).2 108).1 ∧
      (∀ i ∈ ((builtIndex 100 [⟨107,10⟩,⟨109,35⟩]).1.lookupReads
          (builtIndex 100 [⟨107,10⟩,⟨109,35⟩]).2 108).2, i < 2) ∧
      ((builtIndex 100 [⟨107,10⟩,⟨109,35⟩]).1.lookupReads
          (builtIndex 100 [⟨107,10⟩,⟨109,35⟩]).2 108).2.length ≤ 4 :=
  lookup_floor_search ⟨by decide,by decide,by decide,by decide,by decide⟩ 108

end LiMaoIM.Db

import LiMaoIM.Db.Arrangement

namespace LiMaoIM.Db

open Outcome

def IndexFile.Blank (f : IndexFile) : Prop := ∀ i, f.slots i = ⟨0,0⟩

theorem IndexFile.Blank.truncate {f : IndexFile} (h : f.Blank) (size : Nat) :
    (f.truncate size).Blank := by
  intro i
  simp only [IndexFile.truncate]
  split
  · exact h i
  · rfl

theorem resetPosistionLoop_blank {f : IndexFile} (h : f.Blank) {totalSize : Nat}
    (hal : entrySize ∣ totalSize) : resetPosistionLoop f totalSize totalSize 0 = .ok 0 := by
  cases totalSize with
  | zero => rfl
  | succ n =>
    have hsize : entrySize ≤ n + 1 := Nat.le_of_dvd (Nat.succ_pos n) hal
    have hslot : (f.slots (0 / entrySize)).relativeOffset = 0 := by rw [h]
    rw [resetPosistionLoop, if_neg (by omega), if_neg (by omega), if_pos hslot]

theorem newSegment_blank {files : SegmentFiles} (h : files.index.Blank)
    (hal : entrySize ∣ files.index.size) (base : Int64) :
    newSegment files base = .ok (⟨base,⟨base,0,files.index.size⟩,0,0,files.log.length⟩,
      { files with index := files.index.truncate (roundDown indexMaxBytes entrySize) }) := by
  rw [newSegment, newIndex, resetPosistionLoop_blank (h.truncate _) hal]
  rfl

theorem Segment.appendLog_quiet {s : Segment} (files : SegmentFiles) {log : Log}
    (hl : log.data.length ≤ logMaxSize) (hs : s.bytesSinceLastIndexEntry ≤ indexIntervalBytes) :
    s.appendLog files log = .ok (log.wrap.length,
      { s with
        position := s.position + log.wrap.length
        bytesSinceLastIndexEntry := s.bytesSinceLastIndexEntry + log.wrap.length },
      { files with log := files.log ++ log.wrap }) := by
  rw [Segment.appendLog, if_neg (Nat.not_lt.mpr hl)]
  simp only [Segment.indexIfNeed, if_neg (Nat.not_lt.mpr hs)]

structure Shelf (dir : TopicDir) (parts : Parts) : Prop extends DirLayout dir parts where
  blank : ∀ e ∈ dir.logs, e.2.index.Blank

theorem Shelf.put {dir : TopicDir} {parts : Parts} (h : Shelf dir parts) (b : Int64)
    {files : SegmentFiles} {ls : List Log} (hlog : files.log = joined ls)
    (hal : entrySize ∣ files.index.size) (hblank : files.index.Blank) :
    Shelf ⟨dir.names,Assoc.put b files dir.logs⟩ (Assoc.put b ls parts) := by
  refine ⟨h.toDirLayout.put b hlog hal,?_⟩
  intro e he
  rcases Assoc.mem_put he with he | rfl
  · exact h.blank e he
  · exact hblank

theorem Shelf.files {dir : TopicDir} {parts : Parts} (h : Shelf dir parts) (b : Int64) :
    ((Assoc.get b dir.logs).getD .empty).log = joined ((Assoc.get b parts).getD []) ∧
      entrySize ∣ ((Assoc.get b dir.logs).getD .empty).index.size ∧
      ((Assoc.get b dir.logs).getD .empty).index.Blank := by
  cases hb : Assoc.get b parts with
  | none =>
    rw [h.get_none hb]
    exact ⟨rfl,Nat.dvd_zero _,fun i => rfl⟩
  | some ls =>
    obtain ⟨files,hf,hlog,hal⟩ := h.get hb
    rw [hf]
    exact ⟨hlog,hal,h.blank _ (Assoc.mem_of_get hf)⟩

structure Segment.Views (s : Segment) (b : Int64) (p : List Log) : Prop where
  baseOffset : s.baseOffset = b
  index : s.index = ⟨b,0,s.index.totalSize⟩
  size : s.getFileSize = (joined p).length

structure Segment.Writes (s : Segment) (b : Int64) (p : List Log) : Prop extends s.Views b p where
  position : s.position = (joined p).length
  bytesSinceLastIndexEntry : s.bytesSinceLastIndexEntry = (joined p).length

theorem Shelf.openSegment {dir : TopicDir} {parts : Parts} (h : Shelf dir parts) (b : Int64) :
    ∃ s dir', dir.openSegment b = .ok (s,dir') ∧ Shelf dir' (parts.opened b) ∧
      s.Views b ((Assoc.get b parts).getD []) ∧ s.position = 0 ∧ s.bytesSinceLastIndexEntry = 0 := by
  obtain ⟨hlog,hal,hblank⟩ := h.files b
  generalize hfiles : (Assoc.get b dir.logs).getD .empty = files at hlog hal hblank
  have hdir : dir.openSegment b = .ok (⟨b,⟨b,0,files.index.size⟩,0,0,files.log.length⟩,
      ⟨dir.names,Assoc.put b { files with
        index := files.index.truncate (roundDown indexMaxBytes entrySize) } dir.logs⟩) := by
    rw [TopicDir.openSegment, hfiles, newSegment_blank hblank hal]
    simp [h.names]
  refine ⟨_,_,hdir,h.put b hlog (Nat.dvd_mul_right _ _) (hblank.truncate _),⟨rfl,rfl,?_⟩,rfl,rfl⟩
  rw [← hlog]
  rfl

structure Cached (segmentMaxBytes : Int) (t : Topic) (parts : Parts) : Prop where
  segmentMaxBytes_eq : t.segmentMaxBytes = segmentMaxBytes
  shelf : Shelf t.dir parts
  segments : t.segments = Assoc.keys parts
  arranged : Arranged parts
  active : ∃ front b p s, parts = front ++ [(b,p)] ∧ t.objects[t.activeSegment]? = some s ∧
    s.Writes b p
  cache : ∀ b id, Assoc.get b t.segmentCache = some id →
    ∃ s p, t.objects[id]? = some s ∧ Assoc.get b parts = some p ∧ s.Views b p
  lastMemLog : ∀ m, t.lastMemLog = some m → m.offset.toInt ≤ parts.flat.length

namespace Cached

variable {segmentMaxBytes : Int} {t : Topic} {parts : Parts} {b : Int64} {p : List Log}

theorem files (h : Cached segmentMaxBytes t parts) {s : Segment} (hv : s.Views b p)
    (hb : Assoc.get b parts = some p) : (t.files s).log = joined p := by
  have hf := (h.shelf.files b).1
  rw [hb] at hf
  rw [Topic.files, hv.baseOffset]
  exact hf

theorem holds (h : Cached segmentMaxBytes t parts) {s : Segment} (hv : s.Views b p)
    (hb : Assoc.get b parts = some p) : s.Holds (t.files s).log 0 p := by
  refine ⟨?_,?_,?_⟩
  · rw [h.files hv hb, List.drop_zero]
  · rw [hv.size, Nat.zero_add]
  · intro l hl
    exact h.arranged.small l (List.mem_flatMap.mpr ⟨_,Assoc.mem_of_get hb,hl⟩)

theorem getOrNewSegment (h : Cached segmentMaxBytes t parts) (hb : Assoc.get b parts = some p) :
    ∃ id t' s, Topic.getOrNewSegment b t = (.ok id,t') ∧ Cached segmentMaxBytes t' parts ∧
      t'.objects[id]? = some s ∧ s.Views b p := by
  cases hc : Assoc.get b t.segmentCache with
  | some id =>
    obtain ⟨s,q,hs,hq,hv⟩ := h.cache b id hc
    obtain rfl : q = p := Option.some.inj (hq.symm.trans hb)
    refine ⟨id,t,s,?_,h,hs,hv⟩
    rw [Topic.getOrNewSegment, Exec.get_bind, hc]
    rfl
  | none =>
    obtain ⟨s,dir,hopen,hshelf,hv,-,-⟩ := h.shelf.openSegment b
    rw [hb, Option.getD_some] at hv
    have hsame : parts.opened b = parts := by
      rw [Parts.opened, hb, Option.getD_some, Assoc.put_get hb]
    rw [hsame] at hshelf
    refine ⟨t.objects.length,{ t with
      dir := dir
      objects := t.objects ++ [s]
      segmentCache := Assoc.put b t.objects.length t.segmentCache },s,?_,?_,by simp,hv⟩
    · rw [Topic.getOrNewSegment, Exec.get_bind, hc]
      simp only
      rw [Exec.bind_of_ok (by rw [Topic.openSegment, hopen])]
      rfl
    · obtain ⟨front,c,q,a,hparts,ha,hw⟩ := h.active
      refine ⟨h.segmentMaxBytes_eq,hshelf,h.segments,h.arranged,⟨front,c,q,a,hparts,?_,hw⟩,?_,
        h.lastMemLog⟩
      · exact List.getElem?_append_left (List.getElem?_eq_some_iff.mp ha).1 ▸ ha
      · intro d id hd
        by_cases hdb : d = b
        · subst hdb
          simp only [Assoc.get_put_self, Option.some.injEq] at hd
          subst hd
          exact ⟨s,p,by simp,hb,hv⟩
        · simp only [Assoc.get_put_ne hdb] at hd
          obtain ⟨x,r,hx,hr,hxv⟩ := h.cache d id hd
          exact ⟨x,r,List.getElem?_append_left (List.getElem?_eq_some_iff.mp hx).1 ▸ hx,hr,hxv⟩

end Cached

section Append

variable {segmentMaxBytes : Int} {t : Topic} {parts front : Parts} {b : Int64} {p : List Log}
  {log : Log} {s : Segment}

theorem Segment.Writes.append {s : Segment} (h : s.Writes b p) (log : Log) :
    Segment.Writes { s with
      position := s.position + log.wrap.length
      bytesSinceLastIndexEntry := s.bytesSinceLastIndexEntry + log.wrap.length }
      b (p ++ [log]) := by
  have hlen : (joined (p ++ [log])).length = (joined p).length + log.wrap.length := by
    rw [joined_append, joined_cons, joined_nil, List.append_nil, List.length_append]
  have hpos : s.position + log.wrap.length = (joined (p ++ [log])).length := by
    rw [h.position, hlen]
  refine ⟨⟨h.baseOffset,h.index,?_⟩,hpos,?_⟩
  · have hw := length_wrap_pos log
    rw [Segment.getFileSize, if_neg (by simp only; omega)]
    exact hpos
  · rw [h.bytesSinceLastIndexEntry, hlen]

theorem appendActive_quiet (hs : t.objects[t.activeSegment]? = some s)
    (hshelf : Shelf t.dir (front ++ [(b,p)])) (hb : b ∉ Assoc.keys front) (hw : s.Writes b p)
    (hquiet : (joined p).length ≤ indexIntervalBytes) (hl : log.data.length ≤ logMaxSize) :
    ∃ s' files, Topic.appendActive log t =
        (.ok log.wrap.length,Topic.store t.activeSegment s' files t) ∧
      Shelf (Topic.store t.activeSegment s' files t).dir (front ++ [(b,p ++ [log])]) ∧
      s'.Writes b (p ++ [log]) := by
  obtain ⟨hlog,hal,hblank⟩ := hshelf.files b
  have hlast : Assoc.put b p (front ++ [(b,p)]) = front ++ [(b,p)] := Assoc.put_last hb
  have hget : Assoc.get b (front ++ [(b,p)]) = some p := by
    rw [← hlast, Assoc.get_put_self]
  have hfiles : t.files s = (Assoc.get b t.dir.logs).getD .empty := by
    rw [Topic.files, hw.baseOffset]
  rw [hget, Option.getD_some, ← hfiles] at hlog
  rw [← hfiles] at hal hblank
  have happ := Segment.appendLog_quiet (t.files s) hl
    (hw.bytesSinceLastIndexEntry ▸ hquiet)
  refine ⟨_,_,Topic.appendActive_ok hs happ,?_,hw.append log⟩
  have hgrown : ({ t.files s with log := (t.files s).log ++ log.wrap } : SegmentFiles).log =
      joined (p ++ [log]) := by
    simp [hlog]
  have hput := hshelf.put b hgrown hal hblank
  rw [Assoc.put_last hb] at hput
  rwa [Topic.store, hw.baseOffset]

def Topic.ReadersShareActive (t : Topic) : Prop :=
  ∀ s ∈ t.objects[t.activeSegment]?,
    t.needRoll s = true ∨ ∀ id ∈ Assoc.get s.baseOffset t.segmentCache, id = t.activeSegment

instance (t : Topic) : Decidable t.ReadersShareActive :=
  inferInstanceAs (Decidable (∀ s ∈ t.objects[t.activeSegment]?, _))

theorem alreadyAppended_next (h : Cached segmentMaxBytes t parts)
    (ho : log.offset.toInt = parts.flat.length + 1) : t.alreadyAppended log = false := by
  rw [Topic.alreadyAppended]
  cases hm : t.lastMemLog with
  | none => rfl
  | some m =>
    have hle := h.lastMemLog m hm
    simp only [decide_eq_false_iff_not, Int64.le_iff_toInt_le]
    omega

theorem Arranged.last_fresh (h : Arranged (front ++ [(b,p)])) : b ∉ Assoc.keys front := by
  have hn := h.nodup
  rw [Assoc.keys, List.map_append, List.nodup_append] at hn
  exact fun hm => hn.2.2 b hm b (by simp) rfl

theorem Arranged.next_fresh (h : Arranged parts) (ho : log.offset.toInt = parts.flat.length + 1) :
    log.offset ∉ Assoc.keys parts := by
  intro hm
  have hle := (h.key_bounds hm).2
  omega

theorem remembered {m : Log} {n : Nat} (ho : log.offset.toInt = n + 1)
    (hm : (Topic.remember log t).lastMemLog = some m) : m.offset.toInt ≤ n + 1 := by
  obtain rfl := Option.some.inj hm
  omega

theorem Cached.stay (h : Cached segmentMaxBytes t (front ++ [(b,p)]))
    (hs : t.objects[t.activeSegment]? = some s) (hw : s.Writes b p)
    (hshare : ∀ id, Assoc.get b t.segmentCache = some id → id = t.activeSegment)
    (hquiet : (joined p).length ≤ indexIntervalBytes)
    (ho : log.offset.toInt = (Parts.flat (front ++ [(b,p)])).length + 1)
    (hl : log.data.length ≤ logMaxSize) :
    ∃ t', Topic.appendActive log (Topic.remember log t) = (.ok log.wrap.length,t') ∧
      Cached segmentMaxBytes t' (front ++ [(b,p ++ [log])]) := by
  have hfresh := h.arranged.last_fresh
  have harr := h.arranged.extend ho hl
  have hput : front ++ [(b,p ++ [log])] = Assoc.put b (p ++ [log]) (front ++ [(b,p)]) :=
    (Assoc.put_last hfresh).symm
  obtain ⟨s',files,happ,hshelf,hw'⟩ := appendActive_quiet (t := Topic.remember log t) hs h.shelf
    hfresh hw hquiet hl
  have hlt : t.activeSegment < t.objects.length := (List.getElem?_eq_some_iff.mp hs).1
  refine ⟨_,happ,h.segmentMaxBytes_eq,hshelf,?_,harr,⟨front,b,_,s',rfl,?_,hw'⟩,?_,?_⟩
  · rw [hput, Assoc.keys_put_of_mem (by simp [Assoc.keys])]
    exact h.segments
  · simp [Topic.store, Topic.remember, hlt]
  · intro d id hd
    obtain ⟨x,q,hx,hq,hv⟩ := h.cache d id hd
    by_cases hid : id = t.activeSegment
    · subst hid
      obtain rfl : x = s := Option.some.inj (hx.symm.trans hs)
      obtain rfl : d = b := hv.baseOffset.symm.trans hw.baseOffset
      refine ⟨s',p ++ [log],by simp [Topic.store, Topic.remember, hlt],?_,hw'.toViews⟩
      rw [hput, Assoc.get_put_self]
    · have hdb : d ≠ b := by
        rintro rfl
        exact hid (hshare id hd)
      refine ⟨x,q,?_,?_,hv⟩
      · rw [Topic.store]
        simp only [Topic.remember, List.getElem?_set_ne (Ne.symm hid), hx]
      · rw [hput, Assoc.get_put_ne hdb, hq]
  · intro m hm
    have hle := remembered (t := t) ho hm
    simp only [Parts.flat, List.flatMap_append, List.flatMap_cons, List.flatMap_nil,
      List.length_append, List.length_cons, List.length_nil] at hle ⊢
    push_cast at hle ⊢
    omega

theorem Cached.roll (h : Cached segmentMaxBytes t parts) {s₀ : Segment} {dir : TopicDir}
    (hshelf : Shelf dir (parts ++ [(log.offset,[])])) (hw : s₀.Writes log.offset [])
    (ho : log.offset.toInt = parts.flat.length + 1) (hl : log.data.length ≤ logMaxSize) :
    ∃ t', Topic.appendActive log (Topic.rolled log s₀ dir (Topic.remember log t)) =
        (.ok log.wrap.length,t') ∧ Cached segmentMaxBytes t' (parts ++ [(log.offset,[log])]) := by
  have hfresh := h.arranged.next_fresh ho
  obtain ⟨t₁,ht₁⟩ : ∃ t₁, Topic.rolled log s₀ dir (Topic.remember log t) = t₁ := ⟨_,rfl⟩
  have hs : t₁.objects[t₁.activeSegment]? = some s₀ := by
    rw [← ht₁]
    simp [Topic.rolled, Topic.remember]
  obtain ⟨s',files,happ,hshelf',hw'⟩ := appendActive_quiet (t := t₁) hs (by rw [← ht₁]; exact hshelf)
    hfresh hw (Nat.zero_le _) hl
  rw [ht₁]
  refine ⟨_,happ,?_,hshelf',?_,h.arranged.roll ho hl,⟨parts,log.offset,_,s',rfl,?_,hw'⟩,?_,?_⟩
  · rw [← ht₁]
    exact h.segmentMaxBytes_eq
  · rw [← ht₁]
    simp [Topic.store, Topic.rolled, Topic.remember, h.segments, Assoc.keys]
  · rw [← ht₁]
    simp [Topic.store, Topic.rolled, Topic.remember]
  · intro d id hd
    have hd' : Assoc.get d t.segmentCache = some id := by
      rw [← ht₁] at hd
      exact hd
    obtain ⟨x,q,hx,hq,hv⟩ := h.cache d id hd'
    have hid : id < t.objects.length := (List.getElem?_eq_some_iff.mp hx).1
    have hne : d ≠ log.offset := by
      rintro rfl
      exact hfresh (Assoc.mem_keys_of_get hq)
    refine ⟨x,q,?_,?_,hv⟩
    · rw [← ht₁]
      simp only [Topic.store, Topic.rolled, Topic.remember]
      rw [List.getElem?_set_ne (by omega), List.getElem?_append_left hid, hx]
    · rw [← Assoc.put_of_not_mem hfresh, Assoc.get_put_ne hne, hq]
  · intro m hm
    rw [← ht₁] at hm
    have hle := remembered (t := t) ho hm
    simp only [Parts.flat, List.flatMap_append, List.flatMap_cons, List.flatMap_nil,
      List.length_append, List.length_cons, List.length_nil] at hle ⊢
    push_cast at hle ⊢
    omega

theorem Cached.appendLog (h : Cached segmentMaxBytes t parts)
    (hmax : segmentMaxBytes ≤ indexIntervalBytes) (hshare : t.ReadersShareActive)
    (ho : log.offset.toInt = parts.flat.length + 1) (hl : log.data.length ≤ logMaxSize) :
    ∃ t' parts', Topic.appendLog log t = (.ok log.wrap.length,t') ∧
      Cached segmentMaxBytes t' parts' ∧ parts'.flat = parts.flat ++ [log] := by
  obtain ⟨front,b,p,s,rfl,hs,hw⟩ := h.active
  have hm := alreadyAppended_next h ho
  cases hr : t.needRoll s with
  | true =>
    obtain ⟨s₀,dir,hopen,hshelf,hv,hpos,hbytes⟩ := h.shelf.openSegment log.offset
    have hfresh := h.arranged.next_fresh ho
    have hnone : Assoc.get log.offset (front ++ [(b,p)]) = none := Assoc.get_eq_none_iff.mpr hfresh
    rw [hnone, Option.getD_none] at hv
    rw [Parts.opened, hnone, Option.getD_none, Assoc.put_of_not_mem hfresh] at hshelf
    obtain ⟨t',happ,hc⟩ := h.roll hshelf ⟨hv,hpos,hbytes⟩ ho hl
    refine ⟨t',_,?_,hc,by simp [Parts.flat]⟩
    rw [Topic.appendLog_roll hs hm hr hopen, happ]
  | false =>
    have hquiet : (joined p).length ≤ indexIntervalBytes := by
      rw [Topic.needRoll, h.segmentMaxBytes_eq, hw.position] at hr
      simp only [decide_eq_false_iff_not, not_or] at hr
      omega
    have hids : ∀ id, Assoc.get b t.segmentCache = some id → id = t.activeSegment := by
      rcases hshare s hs with hroll | hids
      · rw [hr] at hroll
        cases hroll
      · rwa [hw.baseOffset] at hids
    obtain ⟨t',happ,hc⟩ := h.stay hs hw hids hquiet ho hl
    refine ⟨t',_,?_,hc,by simp [Parts.flat]⟩
    rw [Topic.appendLog_stay hs hm hr, happ]

end Append
end LiMaoIM.Db

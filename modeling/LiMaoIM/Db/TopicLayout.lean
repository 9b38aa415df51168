import LiMaoIM.Db.Topic

namespace LiMaoIM.Db

open Outcome

theorem resetPosistionLoop_aligned (f : IndexFile) {totalSize position : Nat} (fuel : Nat)
    (ht : entrySize ∣ totalSize) (hp : entrySize ∣ position) :
    ∃ p, resetPosistionLoop f totalSize fuel position = .ok p ∧ entrySize ∣ p := by
  induction fuel generalizing position with
  | zero => exact ⟨position,rfl,hp⟩
  | succ fuel ih =>
    rw [resetPosistionLoop]
    split
    · exact ⟨position,rfl,hp⟩
    · rename_i hlt
      have hroom : ¬ totalSize < position + entrySize := by
        obtain ⟨a,rfl⟩ := ht
        obtain ⟨b,rfl⟩ := hp
        simp only [entrySize] at hlt ⊢
        omega
      rw [if_neg hroom]
      split
      · exact ⟨position,rfl,hp⟩
      · exact ih (Nat.dvd_add hp (Nat.dvd_refl _))

theorem newSegment_aligned {files : SegmentFiles} (h : entrySize ∣ files.index.size)
    (base : Int64) :
    ∃ s files', newSegment files base = .ok (s,files') ∧ s.baseOffset = base ∧ s.position = 0 ∧
      s.totalSize = files.log.length ∧ entrySize ∣ s.index.position ∧ files'.log = files.log ∧
      entrySize ∣ files'.index.size := by
  obtain ⟨p,hp,hal⟩ := resetPosistionLoop_aligned
    (files.index.truncate (roundDown indexMaxBytes entrySize)) files.index.size h
    (Nat.dvd_zero entrySize)
  have hnew : newSegment files base = .ok (⟨base,⟨base,p,files.index.size⟩,0,0,files.log.length⟩,
      { files with index := files.index.truncate (roundDown indexMaxBytes entrySize) }) := by
    simp only [newSegment, newIndex, hp, ok_bind, Outcome.pure_eq]
  exact ⟨_,_,hnew,rfl,rfl,rfl,hal,rfl,Nat.dvd_mul_right _ _⟩

theorem Segment.appendLog_small {s : Segment} (files : SegmentFiles) {log : Log}
    (hl : log.data.length ≤ logMaxSize) (hs : entrySize ∣ s.index.position) :
    ∃ s' files', s.appendLog files log = .ok (log.wrap.length,s',files') ∧
      s'.baseOffset = s.baseOffset ∧ s'.position = s.position + log.wrap.length ∧
      files'.log = files.log ++ log.wrap ∧ files'.index.size = files.index.size ∧
      entrySize ∣ s'.index.position := by
  rw [Segment.appendLog, if_neg (Nat.not_lt.mpr hl)]
  simp only [Segment.indexIfNeed]
  split
  · simp only [Index.append]
    split
    · exact ⟨_,_,rfl,rfl,rfl,rfl,rfl,hs⟩
    · exact ⟨_,_,rfl,rfl,rfl,rfl,rfl,Nat.dvd_add hs (Nat.dvd_refl _)⟩
  · exact ⟨_,_,rfl,rfl,rfl,rfl,rfl,hs⟩

theorem Segment.appendLog_large (s : Segment) (files : SegmentFiles) {log : Log}
    (hl : logMaxSize < log.data.length) : ∃ e, s.appendLog files log = .error e := by
  rw [Segment.appendLog, if_pos hl]
  exact ⟨_,rfl⟩

namespace Topic

variable {t : Topic} {s : Segment} {log : Log}

theorem getActiveSegment_of (h : t.objects[t.activeSegment]? = some s) :
    getActiveSegment t = (.ok s,t) := by
  simp only [getActiveSegment, segmentAt, h]

theorem appendActive_ok {n : Nat} {s' : Segment} {files : SegmentFiles}
    (h : t.objects[t.activeSegment]? = some s)
    (ha : s.appendLog (t.files s) log = .ok (n,s',files)) :
    appendActive log t = (.ok n,store t.activeSegment s' files t) := by
  rw [appendActive, Exec.bind_of_ok (getActiveSegment_of h), Exec.get_bind,
    Exec.bind_of_ok (by rw [Exec.lift_apply, ha])]
  rfl

theorem appendActive_error {e : String} (h : t.objects[t.activeSegment]? = some s)
    (ha : s.appendLog (t.files s) log = .error e) : appendActive log t = (.error e,t) := by
  rw [appendActive, Exec.bind_of_ok (getActiveSegment_of h), Exec.get_bind,
    Exec.bind_of_error (by rw [Exec.lift_apply, ha])]

theorem appendLog_skip (h : t.objects[t.activeSegment]? = some s)
    (hm : t.alreadyAppended log = true) : appendLog log t = (.ok 0,t) := by
  rw [appendLog, Exec.bind_of_ok (getActiveSegment_of h), Exec.get_bind, if_pos hm]
  rfl

theorem appendLog_stay (h : t.objects[t.activeSegment]? = some s)
    (hm : t.alreadyAppended log = false) (hr : t.needRoll s = false) :
    appendLog log t = appendActive log (remember log t) := by
  rw [appendLog, Exec.bind_of_ok (getActiveSegment_of h), Exec.get_bind, if_neg (by simp [hm]),
    Exec.modify_bind, if_neg (by simp [hr])]

def rolled (log : Log) (s : Segment) (dir : TopicDir) (t : Topic) : Topic :=
  { t with
    dir := dir
    objects := t.objects ++ [s]
    activeSegment := t.objects.length
    segments := t.segments ++ [log.offset] }

theorem appendLog_roll {s0 : Segment} {dir : TopicDir} (h : t.objects[t.activeSegment]? = some s)
    (hm : t.alreadyAppended log = false) (hr : t.needRoll s = true)
    (ho : t.dir.openSegment log.offset = .ok (s0,dir)) :
    appendLog log t = appendActive log (rolled log s0 dir (remember log t)) := by
  have hopen : openSegment log.offset (remember log t) =
      (.ok t.objects.length,{ remember log t with dir := dir, objects := t.objects ++ [s0] }) := by
    simp only [openSegment, remember, ho]
  have hroll : roll log (remember log t) = (.ok (),rolled log s0 dir (remember log t)) := by
    rw [roll, Exec.bind_of_ok hopen]
    rfl
  rw [appendLog, Exec.bind_of_ok (getActiveSegment_of h), Exec.get_bind, if_neg (by simp [hm]),
    Exec.modify_bind, if_pos hr, Exec.bind_of_ok hroll]

end Topic

theorem lastSeq_next {t : Topic} (hlast : t.lastSeq.toNat + 1 < 2 ^ 32) :
    (t.lastSeq + 1).toNat = t.lastSeq.toNat + 1 := by
  rw [UInt32.toNat_add]
  exact Nat.mod_eq_of_lt hlast

abbrev Parts := List (Int64 × List Log)

def Parts.flat (parts : Parts) : List Log := parts.flatMap (·.2)

def Parts.opened (b : Int64) (parts : Parts) : Parts :=
  Assoc.put b ((Assoc.get b parts).getD []) parts

def Parts.grow (b : Int64) (log : Log) (parts : Parts) : Parts :=
  Assoc.put b ((Assoc.get b parts).getD [] ++ [log]) parts

theorem Parts.flat_opened (b : Int64) (parts : Parts) :
    (Parts.opened b parts).flat.Perm parts.flat := by
  have h := Assoc.flatMap_put_perm (k := b) (l := parts) (g := fun ls : List Log => ls) (b := [])
    (v := (Assoc.get b parts).getD []) (by simp)
  simpa [Parts.flat, Parts.opened] using h

theorem Parts.flat_grow (b : Int64) (log : Log) (parts : Parts) :
    (Parts.grow b log parts).flat.Perm (parts.flat ++ [log]) := by
  exact Assoc.flatMap_put_perm (g := fun ls : List Log => ls) (by simp)

structure DirLayout (dir : TopicDir) (parts : Parts) : Prop where
  names : dir.names = ["logs"]
  logs : Assoc.mapVal SegmentFiles.log dir.logs = Assoc.mapVal joined parts
  aligned : ∀ e ∈ dir.logs, entrySize ∣ e.2.index.size

theorem DirLayout.get {dir : TopicDir} {parts : Parts} (h : DirLayout dir parts) {b : Int64}
    {ls : List Log} (hb : Assoc.get b parts = some ls) :
    ∃ files, Assoc.get b dir.logs = some files ∧ files.log = joined ls ∧
      entrySize ∣ files.index.size := by
  have hmap : Assoc.get b (Assoc.mapVal SegmentFiles.log dir.logs) = some (joined ls) := by
    rw [h.logs, Assoc.get_mapVal, hb]
    rfl
  rw [Assoc.get_mapVal, Option.map_eq_some_iff] at hmap
  obtain ⟨files,hf,hlog⟩ := hmap
  exact ⟨files,hf,hlog,h.aligned _ (Assoc.mem_of_get hf)⟩

theorem DirLayout.get_none {dir : TopicDir} {parts : Parts} (h : DirLayout dir parts) {b : Int64}
    (hb : Assoc.get b parts = none) : Assoc.get b dir.logs = none := by
  have hmap : Assoc.get b (Assoc.mapVal SegmentFiles.log dir.logs) = none := by
    rw [h.logs, Assoc.get_mapVal, hb]
    rfl
  rwa [Assoc.get_mapVal, Option.map_eq_none_iff] at hmap

theorem DirLayout.put {dir : TopicDir} {parts : Parts} (h : DirLayout dir parts) (b : Int64)
    {files : SegmentFiles} {ls : List Log} (hlog : files.log = joined ls)
    (hal : entrySize ∣ files.index.size) :
    DirLayout ⟨dir.names,Assoc.put b files dir.logs⟩ (Assoc.put b ls parts) := by
  refine ⟨h.names,?_,?_⟩
  · rw [← Assoc.put_mapVal, ← Assoc.put_mapVal, h.logs, hlog]
  · intro e he
    rcases Assoc.mem_put he with he | rfl
    · exact h.aligned e he
    · exact hal

theorem DirLayout.openSegment {dir : TopicDir} {parts : Parts} (h : DirLayout dir parts)
    (b : Int64) :
    ∃ s dir', dir.openSegment b = .ok (s,dir') ∧ DirLayout dir' (parts.opened b) ∧
      s.baseOffset = b ∧ s.position = 0 ∧ entrySize ∣ s.index.position ∧
      s.totalSize = (joined ((Assoc.get b parts).getD [])).length := by
  obtain ⟨files,hfiles,hlog,hal⟩ : ∃ files : SegmentFiles,
      (Assoc.get b dir.logs).getD .empty = files ∧
        files.log = joined ((Assoc.get b parts).getD []) ∧ entrySize ∣ files.index.size := by
    cases hb : Assoc.get b parts with
    | none =>
      refine ⟨.empty,?_,rfl,Nat.dvd_zero _⟩
      rw [h.get_none hb]
      rfl
    | some ls =>
      obtain ⟨files,hf,hlog,hal⟩ := h.get hb
      refine ⟨files,?_,hlog,hal⟩
      rw [hf]
      rfl
  obtain ⟨s,files',hnew,hbase,hpos,htotal,hidx,hlog',hal'⟩ := newSegment_aligned hal b
  have hopen : dir.openSegment b = .ok (s,⟨dir.names,Assoc.put b files' dir.logs⟩) := by
    rw [TopicDir.openSegment, hfiles, hnew]
    simp [h.names]
  exact ⟨s,_,hopen,h.put b (hlog'.trans hlog) hal',hbase,hpos,hidx,by rw [htotal, hlog]⟩

structure Layout (t : Topic) (parts : Parts) : Prop where
  dir : DirLayout t.dir parts
  aligned : ∀ s ∈ t.objects, entrySize ∣ s.index.position
  active : ∃ s ls, t.objects[t.activeSegment]? = some s ∧ Assoc.get s.baseOffset parts = some ls

namespace Layout

variable {t : Topic} {parts : Parts} {log : Log} {s : Segment}

theorem remember (h : Layout t parts) (log : Log) : Layout (Topic.remember log t) parts :=
  ⟨h.dir,h.aligned,h.active⟩

theorem close (h : Layout t parts) : DirLayout t.close parts := by
  obtain ⟨s,ls,hs,hls⟩ := h.active
  obtain ⟨files,hf,hlog,hal⟩ := h.dir.get hls
  have hfiles : t.files s = files := by
    rw [Topic.files, hf]
    rfl
  have hclose : t.close =
      ⟨t.dir.names,Assoc.put s.baseOffset (s.close files) t.dir.logs⟩ := by
    simp only [Topic.close, hs, hfiles]
  have hput := h.dir.put s.baseOffset (show (s.close files).log = joined ls from hlog)
    (h.aligned s (List.mem_of_getElem? hs))
  rwa [Assoc.put_get hls, ← hclose] at hput

theorem appendActive (h : Layout t parts) (hs : t.objects[t.activeSegment]? = some s)
    (hl : log.data.length ≤ logMaxSize) :
    ∃ s' files, Topic.appendActive log t =
        (.ok log.wrap.length,Topic.store t.activeSegment s' files t) ∧
      s'.baseOffset = s.baseOffset ∧
      Layout (Topic.store t.activeSegment s' files t) (parts.grow s.baseOffset log) := by
  obtain ⟨s',ls,hs',hls⟩ := h.active
  obtain rfl : s' = s := Option.some.inj (hs'.symm.trans hs)
  obtain ⟨files,hf,hlog,hal⟩ := h.dir.get hls
  have hfiles : t.files s' = files := by
    rw [Topic.files, hf]
    rfl
  have hidx := h.aligned s' (List.mem_of_getElem? hs)
  obtain ⟨s₂,files₂,happ,hbase,-,hlog₂,hsize,hidx₂⟩ :=
    Segment.appendLog_small files hl hidx
  have hgrow : parts.grow s'.baseOffset log = Assoc.put s₂.baseOffset (ls ++ [log]) parts := by
    rw [Parts.grow, hls, hbase]
    rfl
  have hlog' : files₂.log = joined (ls ++ [log]) := by
    rw [hlog₂, hlog, joined_append, joined_cons, joined_nil, List.append_nil]
  refine ⟨s₂,files₂,Topic.appendActive_ok hs (by rw [hfiles, happ]),hbase,?_⟩
  rw [hgrow]
  refine ⟨h.dir.put _ hlog' (hsize ▸ hal),?_,?_⟩
  · intro x hx
    rcases List.mem_or_eq_of_mem_set hx with hx | rfl
    · exact h.aligned x hx
    · exact hidx₂
  · refine ⟨s₂,ls ++ [log],?_,Assoc.get_put_self⟩
    have hlt := (List.getElem?_eq_some_iff.mp hs).1
    simp [Topic.store, hlt]

theorem rolled {s₀ : Segment} {dir : TopicDir} (h : Layout t parts)
    (hd : DirLayout dir (parts.opened log.offset)) (hb : s₀.baseOffset = log.offset)
    (hi : entrySize ∣ s₀.index.position) :
    Layout (Topic.rolled log s₀ dir t) (parts.opened log.offset) := by
  refine ⟨hd,?_,s₀,(Assoc.get log.offset parts).getD [],by simp [Topic.rolled],?_⟩
  · intro x hx
    rcases List.mem_append.mp hx with hx | hx
    · exact h.aligned x hx
    · rw [List.mem_singleton.mp hx]
      exact hi
  · rw [hb, Parts.opened, Assoc.get_put_self]

end Layout

inductive Target (t : Topic) (parts : Parts) (log : Log) : Int64 → Parts → List Int64 → Prop
  | stay (s : Segment) (h : t.objects[t.activeSegment]? = some s) (hr : t.needRoll s = false) :
      Target t parts log s.baseOffset parts t.segments
  | roll : Target t parts log log.offset (parts.opened log.offset) (t.segments ++ [log.offset])

structure Appended (t : Topic) (log : Log) (segments : List Int64) (t' : Topic) : Prop where
  segments_eq : t'.segments = segments
  lastMemLog : t'.lastMemLog = some log
  lastSeq : t'.lastSeq = (Topic.remember log t).lastSeq
  segmentMaxBytes : t'.segmentMaxBytes = t.segmentMaxBytes

theorem Layout.append_at {t t₁ : Topic} {parts : Parts} {log : Log} {s : Segment}
    {segments : List Int64} (h : Layout t₁ parts) (hs : t₁.objects[t₁.activeSegment]? = some s)
    (ha : Appended t log segments t₁) :
    ∃ t', Appended t log segments t' ∧
      (log.data.length ≤ logMaxSize → Topic.appendActive log t₁ = (.ok log.wrap.length,t') ∧
        Layout t' (parts.grow s.baseOffset log)) ∧
      (logMaxSize < log.data.length → (∃ e, Topic.appendActive log t₁ = (.error e,t')) ∧
        Layout t' parts) := by
  by_cases hl : log.data.length ≤ logMaxSize
  · obtain ⟨s',files,happ,-,hlay⟩ := h.appendActive hs hl
    refine ⟨_,?_,fun _ => ⟨happ,hlay⟩,fun hlt => absurd hl (Nat.not_le.mpr hlt)⟩
    exact ⟨ha.segments_eq,ha.lastMemLog,ha.lastSeq,ha.segmentMaxBytes⟩
  · obtain ⟨e,he⟩ := Segment.appendLog_large s (t₁.files s) (Nat.not_le.mp hl)
    exact ⟨t₁,ha,fun hle => absurd hle hl,fun _ => ⟨⟨e,Topic.appendActive_error hs he⟩,h⟩⟩

theorem Layout.appendLog {t : Topic} {parts : Parts} {log : Log} (h : Layout t parts)
    (hm : t.alreadyAppended log = false) :
    ∃ b parts₁ segments t', Target t parts log b parts₁ segments ∧ Appended t log segments t' ∧
      (log.data.length ≤ logMaxSize → Topic.appendLog log t = (.ok log.wrap.length,t') ∧
        Layout t' (parts₁.grow b log)) ∧
      (logMaxSize < log.data.length → (∃ e, Topic.appendLog log t = (.error e,t')) ∧
        Layout t' parts₁) := by
  obtain ⟨s,ls,hs,hls⟩ := h.active
  cases hr : t.needRoll s with
  | false =>
    obtain ⟨t',ha,hsmall,hlarge⟩ := (h.remember log).append_at (t := t) hs ⟨rfl,rfl,rfl,rfl⟩
    rw [← Topic.appendLog_stay hs hm hr] at hsmall hlarge
    exact ⟨_,_,_,t',.stay s hs hr,ha,hsmall,hlarge⟩
  | true =>
    obtain ⟨s₀,dir,hopen,hd,hb,-,hi,-⟩ := h.dir.openSegment log.offset
    have hlay := (h.remember log).rolled hd hb hi
    have hs₀ : (Topic.rolled log s₀ dir (Topic.remember log t)).objects[(Topic.rolled log s₀ dir
        (Topic.remember log t)).activeSegment]? = some s₀ := by
      simp [Topic.rolled]
    obtain ⟨t',ha,hsmall,hlarge⟩ := hlay.append_at (t := t) hs₀ ⟨rfl,rfl,rfl,rfl⟩
    rw [← Topic.appendLog_roll hs hm hr hopen, hb] at hsmall
    rw [← Topic.appendLog_roll hs hm hr hopen] at hlarge
    exact ⟨_,_,_,t',.roll,ha,hsmall,hlarge⟩

def mappedFiles : SegmentFiles :=
  ⟨[],IndexFile.empty.truncate (roundDown indexMaxBytes entrySize),[]⟩

def freshSegment (base : Int64) : Segment := ⟨base,⟨base,0,0⟩,0,0,0⟩

def freshTopic (segmentMaxBytes : Int) : Topic :=
  { segmentMaxBytes := segmentMaxBytes
    dir := ⟨["logs"],[(0,mappedFiles)]⟩
    objects := [freshSegment 0]
    segments := [0]
    activeSegment := 0
    segmentCache := [(0,0)]
    lastSeq := 0
    lastMemLog := none }

theorem newTopic_empty (segmentMaxBytes : Int) :
    newTopic .empty segmentMaxBytes = .ok (freshTopic segmentMaxBytes) := rfl

theorem layout_freshTopic (segmentMaxBytes : Int) : Layout (freshTopic segmentMaxBytes) [(0,[])] := by
  refine ⟨⟨rfl,rfl,?_⟩,?_,freshSegment 0,[],rfl,rfl⟩
  · intro e he
    rw [List.mem_singleton.mp he]
    exact Nat.dvd_mul_right _ _
  · intro s hs
    rw [List.mem_singleton.mp hs]
    exact Nat.dvd_zero _

theorem Target.flat_perm {t : Topic} {parts parts₁ : Parts} {log : Log} {b : Int64}
    {segments : List Int64} (h : Target t parts log b parts₁ segments) :
    parts₁.flat.Perm parts.flat := by
  cases h with
  | stay s h hr => exact List.Perm.refl _
  | roll => exact Parts.flat_opened _ _

end LiMaoIM.Db

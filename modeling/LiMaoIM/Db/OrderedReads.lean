import LiMaoIM.Db.TopicLayout

namespace LiMaoIM.Db

open Outcome

theorem Index.lookup_cases (idx : Index) (f : IndexFile) (o : Int64) :
    idx.lookup f o = ⟨idx.baseOffset,0⟩ ∨ ∃ i, idx.lookup f o =
      ⟨idx.baseOffset + (f.slots i).relativeOffset.toUInt64.toInt64,(f.slots i).position.toNat⟩ := by
  rw [Index.lookup]
  split
  rename_i min max hrange
  split
  · exact Or.inl rfl
  · rw [Index.parseEntry]
    split
    · exact Or.inl rfl
    · exact Or.inr ⟨min.toNat,rfl⟩

theorem fileReadAt_end {file : Bytes} {n position : Nat} (hn : n ≠ 0)
    (hp : file.length ≤ position) : ∃ e, fileReadAt file n position = .error e := by
  rw [fileReadAt, if_neg (by omega)]
  exact ⟨_,rfl⟩

theorem drop_nil_length {file : Bytes} {position : Nat} (h : file.drop position = []) :
    file.length ≤ position := List.drop_eq_nil_iff.mp h

theorem readAtPosition_nil {file : Bytes} {position : Nat} (h : file.drop position = []) :
    ∃ e, readAtPosition file position = .error e := by
  have hle := drop_nil_length h
  obtain ⟨e,he⟩ := fileReadAt_end (n := logDataLenSize) (by decide)
    (hle.trans (Nat.le_add_right position (magicNumber.length + logVersion.length)))
  refine ⟨e,?_⟩
  rw [readAtPosition, he]
  rfl

theorem readLogDataAtPosition_nil {file : Bytes} {position : Nat} (h : file.drop position = []) :
    ∃ e, readLogDataAtPosition file position = .error e := by
  obtain ⟨e,he⟩ := readAtPosition_nil h
  refine ⟨e,?_⟩
  rw [readLogDataAtPosition, he]
  rfl

theorem drop_wrap {file : Bytes} {start : Nat} {l : Log} {ls : List Log}
    (h : file.drop start = joined (l :: ls)) :
    file.drop start = l.wrap ++ joined ls ∧ file.drop (start + l.wrap.length) = joined ls := by
  rw [joined_cons] at h
  refine ⟨h,?_⟩
  rw [← List.drop_drop, h, List.drop_left]

namespace Segment

variable {σ : Type} {s : Segment} {file : Bytes} {ls : List Log}

theorem readLogsAtPositionLoop_keeps {R : σ → Prop} {limit : UInt64}
    {callback : σ → Bytes → Outcome σ} {fuel start count : Nat} {acc acc' : σ}
    (hfile : file.drop start = joined ls) (hls : ∀ l ∈ ls, l.data.length ≤ logMaxSize)
    (hcb : ∀ l ∈ ls, ∀ a a', R a → callback a l.data = .ok a' → R a') (hacc : R acc)
    (h : s.readLogsAtPositionLoop file limit callback fuel start count acc = .ok acc') :
    R acc' := by
  induction ls generalizing fuel start count acc with
  | nil =>
    cases fuel with
    | zero =>
      cases h
      exact hacc
    | succ fuel =>
      rw [readLogsAtPositionLoop] at h
      split at h
      · cases h
        exact hacc
      · obtain ⟨e,he⟩ := readLogDataAtPosition_nil hfile
        rw [he] at h
        cases h
  | cons l ls ih =>
    cases fuel with
    | zero =>
      cases h
      exact hacc
    | succ fuel =>
      rw [readLogsAtPositionLoop] at h
      split at h
      · cases h
        exact hacc
      · obtain ⟨hwrap,hrest⟩ := drop_wrap hfile
        rw [readLogDataAtPosition_wrap hwrap (hls l List.mem_cons_self), ok_bind,
          bind_eq_ok] at h
        obtain ⟨a,ha,h⟩ := h
        exact ih hrest (fun x hx => hls x (List.mem_cons_of_mem _ hx))
          (fun x hx => hcb x (List.mem_cons_of_mem _ hx)) (hcb l List.mem_cons_self _ _ hacc ha) h

theorem readTargetPositionLoop_boundary {target : Int64} {fuel start next position : Nat}
    (hfile : file.drop start = joined ls) (hls : ∀ l ∈ ls, l.data.length ≤ logMaxSize)
    (h : s.readTargetPositionLoop file target fuel start = .ok (position,next)) :
    ∃ pre l post, ls = pre ++ l :: post ∧ l.offset = target ∧
      file.drop position = joined (l :: post) := by
  induction ls generalizing fuel start with
  | nil =>
    cases fuel with
    | zero => cases h
    | succ fuel =>
      rw [readTargetPositionLoop] at h
      split at h
      · cases h
      · obtain ⟨e,he⟩ := readAtPosition_nil hfile
        rw [he] at h
        cases h
  | cons l ls ih =>
    cases fuel with
    | zero => cases h
    | succ fuel =>
      rw [readTargetPositionLoop] at h
      split at h
      · cases h
      · obtain ⟨hwrap,hrest⟩ := drop_wrap hfile
        have hnext : start + logFixHeaderLen + (l.data.length + endMagicNumber.length) =
            start + l.wrap.length := by
          rw [length_wrap, logMinLen]
          omega
        rw [readAtPosition_wrap hwrap (hls l List.mem_cons_self), ok_bind] at h
        simp only [hnext] at h
        split at h
        · rename_i heq
          cases h
          exact ⟨[],l,ls,rfl,heq,hfile⟩
        · obtain ⟨pre,x,post,rfl,hx,hdrop⟩ :=
            ih hrest (fun x hx => hls x (List.mem_cons_of_mem _ hx)) h
          exact ⟨l :: pre,x,post,rfl,hx,hdrop⟩

end Segment

def Mark (b : Int64) (ls : List Log) (e : Entry) : Prop :=
  ∃ pre post, ls = pre ++ post ∧ (joined pre).length = e.position.toNat ∧
    b + e.relativeOffset.toUInt64.toInt64 = (pre.getLast?.map Log.offset).getD b

theorem mark_zero (b : Int64) (ls : List Log) : Mark b ls ⟨0,0⟩ :=
  ⟨[],ls,rfl,rfl,Int64.add_zero b⟩

theorem Mark.append {b : Int64} {ls : List Log} {e : Entry} (h : Mark b ls e) (log : Log) :
    Mark b (ls ++ [log]) e := by
  obtain ⟨pre,post,rfl,hlen,hkey⟩ := h
  exact ⟨pre,post ++ [log],by rw [List.append_assoc],hlen,hkey⟩

structure Sorted (b : Int64) (ls : List Log) : Prop where
  small : ∀ l ∈ ls, l.data.length ≤ logMaxSize
  above : ∀ l ∈ ls, b ≤ l.offset
  ascending : Ascending ls

theorem Sorted.nil (b : Int64) : Sorted b [] := by
  refine ⟨?_,?_,List.Pairwise.nil⟩
  · exact fun l hl => absurd hl List.not_mem_nil
  · exact fun l hl => absurd hl List.not_mem_nil

theorem Sorted.append {b : Int64} {ls : List Log} {log : Log} (h : Sorted b ls)
    (hsize : log.data.length ≤ logMaxSize) (hb : b ≤ log.offset)
    (hlt : ∀ l ∈ ls, l.offset < log.offset) : Sorted b (ls ++ [log]) := by
  refine ⟨?_,?_,(ascending_append h.ascending).mpr hlt⟩
  · intro l hl
    rcases List.mem_append.mp hl with hl | hl
    · exact h.small l hl
    · rw [List.mem_singleton.mp hl]
      exact hsize
  · intro l hl
    rcases List.mem_append.mp hl with hl | hl
    · exact h.above l hl
    · rw [List.mem_singleton.mp hl]
      exact hb

theorem Sorted.key_le {b : Int64} {pre post : List Log} (h : Sorted b (pre ++ post)) :
    ∀ l ∈ post, (pre.getLast?.map Log.offset).getD b ≤ l.offset := by
  intro l hl
  rcases List.eq_nil_or_concat pre with rfl | ⟨init,x,rfl⟩
  · exact h.above l hl
  · rw [List.concat_eq_append] at h ⊢
    have hpair := (List.pairwise_append.mp h.ascending).2.2
    rw [List.getLast?_concat]
    exact Int64.le_of_lt (hpair x (by simp) l hl)

theorem Sorted.after {b : Int64} {pre post : List Log} {l : Log} (h : Sorted b (pre ++ l :: post)) :
    ∀ x ∈ l :: post, l.offset ≤ x.offset := by
  intro x hx
  rcases List.mem_cons.mp hx with rfl | hx
  · exact Int64.le_refl _
  · have hpair := (List.pairwise_append.mp h.ascending).2.1
    exact Int64.le_of_lt ((List.pairwise_cons.mp hpair).1 x hx)

theorem Segment.readLogs_keeps {σ : Type} {R : σ → Prop} {s : Segment} {files : SegmentFiles}
    {b o : Int64} {ls : List Log} {limit : UInt64} {callback : σ → Bytes → Outcome σ} {acc acc' : σ}
    (hbase : s.index.baseOffset = b) (hlog : files.log = joined ls) (hs : Sorted b ls)
    (hmarks : ∀ i, Mark b ls (files.index.slots i))
    (hcb : ∀ l ∈ ls, o ≤ l.offset → ∀ a a', R a → callback a l.data = .ok a' → R a')
    (hacc : R acc) (h : s.readLogs files o limit callback acc = .ok acc') : R acc' := by
  obtain ⟨pre,post,rfl,hpos,hkey⟩ : ∃ pre post, ls = pre ++ post ∧
      (joined pre).length = (s.index.lookup files.index o).position ∧
      (s.index.lookup files.index o).offset = (pre.getLast?.map Log.offset).getD b := by
    rcases s.index.lookup_cases files.index o with heq | ⟨i,heq⟩
    · rw [heq]
      exact ⟨[],ls,rfl,rfl,hbase⟩
    · rw [heq, hbase]
      exact hmarks i
  have hdrop : files.log.drop (s.index.lookup files.index o).position = joined post := by
    rw [← hpos, hlog, joined_append, List.drop_left]
  have hsmall : ∀ l ∈ post, l.data.length ≤ logMaxSize :=
    fun l hl => hs.small l (List.mem_append_right _ hl)
  rw [Segment.readLogs] at h
  split at h
  · rename_i heq
    refine readLogsAtPositionLoop_keeps hdrop hsmall ?_ hacc h
    intro l hl
    apply hcb l (List.mem_append_right _ hl)
    rw [← heq, hkey]
    exact hs.key_le l hl
  · split at h
    · rename_i start next hfound
      obtain ⟨mid,l,rest,rfl,rfl,hstart⟩ := readTargetPositionLoop_boundary hdrop hsmall hfound
      have hs' : Sorted b ((pre ++ mid) ++ l :: rest) := by rwa [List.append_assoc]
      refine readLogsAtPositionLoop_keeps hstart
        (fun x hx => hsmall x (List.mem_append_right _ hx)) ?_ hacc h
      intro x hx
      exact hcb x (List.mem_append_right _ (List.mem_append_right _ hx)) (hs'.after x hx)
    · split at h
      · cases h
        exact hacc
      · cases h
    · cases h

structure Browsable (t : Topic) (parts : Parts) : Prop where
  layout : Layout t parts
  bases : (Assoc.keys parts).Pairwise (· < ·)
  nonneg : ∀ b ∈ Assoc.keys parts, 0 ≤ b.toInt
  sorted : ∀ e ∈ parts, Sorted e.1 e.2
  segments : t.segments = Assoc.keys parts
  views : ∀ s ∈ t.objects, s.index.baseOffset = s.baseOffset
  cache : ∀ e ∈ t.segmentCache, ∃ s, t.objects[e.2]? = some s ∧ s.baseOffset = e.1
  marked : ∀ b ls files, Assoc.get b parts = some ls → Assoc.get b t.dir.logs = some files →
    ∀ i, Mark b ls (files.index.slots i)
  position : ∀ s ls, t.objects[t.activeSegment]? = some s → Assoc.get s.baseOffset parts = some ls →
    s.position = (joined ls).length

theorem browsable_freshTopic (segmentMaxBytes : Int) :
    Browsable (freshTopic segmentMaxBytes) [(0,[])] := by
  refine ⟨layout_freshTopic segmentMaxBytes,List.pairwise_singleton _ _,?_,?_,rfl,?_,?_,?_,?_⟩
  · intro b hb
    rw [List.mem_singleton.mp hb]
    decide
  · intro e he
    rw [List.mem_singleton.mp he]
    exact Sorted.nil 0
  · intro s hs
    rw [List.mem_singleton.mp hs]
    rfl
  · intro e he
    rw [List.mem_singleton.mp he]
    exact ⟨_,rfl,rfl⟩
  · intro b ls files hls hfiles i
    obtain ⟨rfl,-⟩ := Prod.mk.inj (List.mem_singleton.mp (Assoc.mem_of_get hls))
    cases hfiles
    have hzero : mappedFiles.index.slots i = ⟨0,0⟩ := by
      simp [mappedFiles, IndexFile.truncate, IndexFile.empty]
    rw [hzero]
    exact mark_zero 0 ls
  · rintro s ls hs hls
    cases hs
    cases hls
    rfl

section Routing

variable {o b c : Int64} {l : List Int64}

theorem baseOffsetLoop_spec (hl : l.Pairwise (· < ·)) (h : Topic.baseOffsetLoop o l = .ok b) :
    b ∈ l ∧ ∀ c ∈ l, b < c → o ≤ c := by
  induction l with
  | nil => cases h
  | cons d l ih =>
    obtain ⟨hd,hl'⟩ := List.pairwise_cons.mp hl
    cases l with
    | nil =>
      rw [Topic.baseOffsetLoop] at h
      split at h
      · cases h
        refine ⟨List.mem_singleton_self _,fun c hc hlt => ?_⟩
        rw [List.mem_singleton.mp hc] at hlt
        exact absurd hlt Int64.lt_irrefl
      · cases h
    | cons e l =>
      rw [Topic.baseOffsetLoop] at h
      split at h
      · rename_i hbound
        cases h
        refine ⟨List.mem_cons_self,fun c hc hlt => ?_⟩
        rcases List.mem_cons.mp hc with rfl | hc
        · exact absurd hlt Int64.lt_irrefl
        · rcases List.mem_cons.mp hc with rfl | hc
          · exact hbound.2
          · exact Int64.le_trans hbound.2 (Int64.le_of_lt ((List.pairwise_cons.mp hl').1 c hc))
      · obtain ⟨hmem,hlater⟩ := ih hl' h
        refine ⟨List.mem_cons_of_mem _ hmem,fun c hc hlt => ?_⟩
        rcases List.mem_cons.mp hc with rfl | hc
        · exact absurd (Int64.lt_trans (hd b hmem) hlt) Int64.lt_irrefl
        · exact hlater c hc hlt

theorem nextBaseOffsetLoop_spec (hl : l.Pairwise (· < ·)) :
    Topic.nextBaseOffsetLoop b l = -1 ∨
      Topic.nextBaseOffsetLoop b l ∈ l ∧ b < Topic.nextBaseOffsetLoop b l := by
  induction l with
  | nil => exact Or.inl rfl
  | cons d l ih =>
    obtain ⟨hd,hl'⟩ := List.pairwise_cons.mp hl
    cases l with
    | nil => exact Or.inl rfl
    | cons e l =>
      rw [Topic.nextBaseOffsetLoop]
      split
      · rename_i heq
        rw [← heq]
        exact Or.inr ⟨List.mem_cons_of_mem _ List.mem_cons_self,hd e List.mem_cons_self⟩
      · rcases ih hl' with hnone | ⟨hmem,hlt⟩
        · exact Or.inl hnone
        · exact Or.inr ⟨List.mem_cons_of_mem _ hmem,hlt⟩

end Routing

structure Browsed (t₀ : Topic) (parts : Parts) (t : Topic) : Prop where
  browsable : Browsable t parts
  lastSeq : t.lastSeq = t₀.lastSeq
  lastMemLog : t.lastMemLog = t₀.lastMemLog

section Reading

variable {σ : Type} {t t₀ : Topic} {parts : Parts} {o b : Int64}

theorem Browsable.nodup (h : Browsable t parts) : (Assoc.keys parts).Nodup :=
  h.bases.imp fun hlt heq => absurd (heq ▸ hlt) Int64.lt_irrefl

theorem Browsable.get (h : Browsable t parts) (hb : b ∈ Assoc.keys parts) :
    ∃ ls files, Assoc.get b parts = some ls ∧ Assoc.get b t.dir.logs = some files ∧
      files.log = joined ls ∧ Sorted b ls ∧ ∀ i, Mark b ls (files.index.slots i) := by
  obtain ⟨⟨b,ls⟩,hmem,rfl⟩ := List.mem_map.mp hb
  have hls := Assoc.get_of_mem h.nodup hmem
  obtain ⟨files,hfiles,hlog,-⟩ := h.layout.dir.get hls
  exact ⟨ls,files,hls,hfiles,hlog,h.sorted _ hmem,h.marked b ls files hls hfiles⟩

theorem IndexFile.truncate_slots (f : IndexFile) (size i : Nat) :
    (f.truncate size).slots i = f.slots i ∨ (f.truncate size).slots i = ⟨0,0⟩ := by
  simp only [IndexFile.truncate]
  split
  · exact Or.inl rfl
  · exact Or.inr rfl

theorem newSegment_files {files files' : SegmentFiles} {s : Segment}
    (h : newSegment files b = .ok (s,files')) : s.index.baseOffset = b ∧
      ∀ i, files'.index.slots i = files.index.slots i ∨ files'.index.slots i = ⟨0,0⟩ := by
  rw [newSegment, bind_eq_ok] at h
  obtain ⟨⟨index,file⟩,hindex,h⟩ := h
  rw [newIndex] at hindex
  split at hindex
  · cases hindex
    cases h
    exact ⟨rfl,fun i => files.index.truncate_slots _ i⟩
  · cases hindex
  · cases hindex

theorem Browsable.views_concat {s : Segment} (h : Browsable t parts)
    (hs : s.index.baseOffset = s.baseOffset) :
    ∀ x ∈ t.objects ++ [s], x.index.baseOffset = x.baseOffset := by
  intro x hx
  rcases List.mem_append.mp hx with hx | hx
  · exact h.views x hx
  · rw [List.mem_singleton.mp hx, hs]

theorem Browsable.cache_concat (h : Browsable t parts) (s : Segment) :
    ∀ e ∈ t.segmentCache, ∃ x, (t.objects ++ [s])[e.2]? = some x ∧ x.baseOffset = e.1 := by
  intro e he
  obtain ⟨x,hx,hxb⟩ := h.cache e he
  refine ⟨x,?_,hxb⟩
  rw [List.getElem?_append_left (List.getElem?_eq_some_iff.mp hx).1]
  exact hx

theorem Browsable.openSegment (h : Browsable t parts) (hb : b ∈ Assoc.keys parts) :
    ∃ s dir, t.dir.openSegment b = .ok (s,dir) ∧ s.baseOffset = b ∧
      Browsable { t with dir := dir, objects := t.objects ++ [s] } parts := by
  obtain ⟨ls,files,hls,hfiles,hlog,hsorted,hmarks⟩ := h.get hb
  obtain ⟨s,dir,hopen,hdir,hbase,-,hidx,-⟩ := h.layout.dir.openSegment b
  have hparts : parts.opened b = parts := by
    rw [Parts.opened, hls, Option.getD_some, Assoc.put_get hls]
  rw [hparts] at hdir
  have hnew := hopen
  rw [TopicDir.openSegment, hfiles, Option.getD_some, bind_eq_ok] at hnew
  obtain ⟨⟨s',files'⟩,hnew,hpair⟩ := hnew
  obtain ⟨rfl,hdir'⟩ := Prod.mk.inj (Outcome.ok.inj hpair)
  obtain ⟨hview,hslots⟩ := newSegment_files hnew
  refine ⟨s',dir,hopen,hbase,⟨hdir,?_,?_⟩,h.bases,h.nonneg,h.sorted,h.segments,
    h.views_concat (hview.trans hbase.symm),h.cache_concat s',?_,?_⟩
  · intro x hx
    rcases List.mem_append.mp hx with hx | hx
    · exact h.layout.aligned x hx
    · rw [List.mem_singleton.mp hx]
      exact hidx
  · obtain ⟨x,xs,hx,hxs⟩ := h.layout.active
    refine ⟨x,xs,?_,hxs⟩
    rw [List.getElem?_append_left (List.getElem?_eq_some_iff.mp hx).1]
    exact hx
  · intro c cs g hcs hg i
    rw [← hdir'] at hg
    by_cases hc : c = b
    · subst hc
      rw [Assoc.get_put_self] at hg
      cases hg
      cases hls.symm.trans hcs
      rcases hslots i with heq | heq
      · rw [heq]
        exact hmarks i
      · rw [heq]
        exact mark_zero c ls
    · rw [Assoc.get_put_ne hc] at hg
      exact h.marked c cs g hcs hg i
  · intro x xs hx hxs
    obtain ⟨y,ys,hy,-⟩ := h.layout.active
    rw [List.getElem?_append_left (List.getElem?_eq_some_iff.mp hy).1] at hx
    exact h.position x xs hx hxs

theorem Browsed.getOrNewSegment (h : Browsed t₀ parts t) (hb : b ∈ Assoc.keys parts) :
    (Topic.getOrNewSegment b).Ensures t (Browsed t₀ parts)
      fun id t' => ∃ s, t'.objects[id]? = some s ∧ s.baseOffset = b := by
  apply Exec.Ensures.get_bind
  split
  · rename_i id hid
    exact .pure h (h.browsable.cache _ (Assoc.mem_of_get hid))
  · obtain ⟨s,dir,hopen,hbase,hnew⟩ := h.browsable.openSegment hb
    have hrun : Topic.openSegment b t =
        (.ok t.objects.length,{ t with dir := dir, objects := t.objects ++ [s] }) := by
      simp only [Topic.openSegment, hopen]
    have hcache : ∀ e ∈ Assoc.put b t.objects.length t.segmentCache,
        ∃ x, (t.objects ++ [s])[e.2]? = some x ∧ x.baseOffset = e.1 := by
      intro e he
      rcases Assoc.mem_put he with he | rfl
      · exact hnew.cache e he
      · exact ⟨s,by simp,hbase⟩
    have hend : (Topic.openSegment b >>= fun id => Exec.modify (fun t =>
          { t with segmentCache := Assoc.put b id t.segmentCache }) >>= fun _ => pure id) t =
        (.ok t.objects.length,{ t with
          dir := dir
          objects := t.objects ++ [s]
          segmentCache := Assoc.put b t.objects.length t.segmentCache }) := by
      rw [Exec.bind_of_ok hrun]
      rfl
    constructor
    · rw [hend]
      exact ⟨⟨⟨hnew.layout.dir,hnew.layout.aligned,hnew.layout.active⟩,hnew.bases,hnew.nonneg,
        hnew.sorted,hnew.segments,hnew.views,hcache,hnew.marked,hnew.position⟩,h.lastSeq,
        h.lastMemLog⟩
    · rw [hend]
      rintro id ⟨⟩
      exact ⟨s,by simp,hbase⟩

theorem Browsed.segmentAt {id : Nat} {s : Segment} (h : Browsed t₀ parts t)
    (hs : t.objects[id]? = some s) :
    (Topic.segmentAt id).Ensures t (Browsed t₀ parts) fun x t' => x = s ∧ t' = t := by
  have hrun : Topic.segmentAt id t = (.ok s,t) := by simp only [Topic.segmentAt, hs]
  constructor
  · rw [hrun]
    exact h
  · rw [hrun]
    rintro x ⟨⟩
    exact ⟨rfl,rfl⟩

theorem Browsable.files {s : Segment} {files : SegmentFiles}
    (hb : s.baseOffset = b) (hfiles : Assoc.get b t.dir.logs = some files) : t.files s = files := by
  rw [Topic.files, hb, hfiles]
  rfl

theorem mem_flat {ls : List Log} {l : Log} (hls : Assoc.get b parts = some ls) (hl : l ∈ ls) :
    l ∈ parts.flat :=
  List.mem_flatMap.mpr ⟨_,Assoc.mem_of_get hls,hl⟩

section Callback

variable {R : σ → Prop} {limit : UInt64} {callback : σ → Bytes → Outcome σ} {acc : Nat × σ}
  (hcb : ∀ l ∈ parts.flat, o ≤ l.offset → ∀ a a', R a → callback a l.data = .ok a' → R a')
include hcb

theorem counting_keeps : ∀ l ∈ parts.flat, o ≤ l.offset → ∀ a a', R a.2 →
    Topic.counting callback a l.data = .ok a' → R a'.2 := by
  intro l hl ho a a' ha h
  rw [Topic.counting, bind_eq_ok] at h
  obtain ⟨c,hc,h⟩ := h
  cases h
  exact hcb l hl ho _ _ ha hc

theorem Browsed.readNextLoop (fuel : Nat) (h : Browsed t₀ parts t)
    (hlater : ∀ c ∈ Assoc.keys parts, b < c → o ≤ c) (hacc : R acc.2) :
    (Topic.readNextLoop limit callback fuel b acc).Ensures t (Browsed t₀ parts)
      fun a _ => R a.2 := by
  induction fuel generalizing t b acc with
  | zero => exact .lift h fun a ha => by cases ha
  | succ fuel ih =>
    rw [Topic.readNextLoop]
    split
    · apply Exec.Ensures.get_bind
      rcases nextBaseOffsetLoop_spec (b := b) h.browsable.bases with hend | ⟨hmem,hlt⟩
      · have hnext : t.nextBaseOffset b = -1 := by
          rw [Topic.nextBaseOffset, h.browsable.segments, hend]
        rw [if_pos hnext]
        exact .pure h hacc
      · have hnext : t.nextBaseOffset b = Topic.nextBaseOffsetLoop b (Assoc.keys parts) := by
          rw [Topic.nextBaseOffset, h.browsable.segments]
        rw [← hnext] at hmem hlt
        dsimp only
        split
        · exact .pure h hacc
        · refine .bind (h.getOrNewSegment hmem) fun id t₁ h₁ hid => ?_
          obtain ⟨s,hs,hbase⟩ := hid
          refine .bind (h₁.segmentAt hs) fun x t₂ h₂ hx => ?_
          obtain ⟨rfl,rfl⟩ := hx
          apply Exec.Ensures.get_bind
          obtain ⟨ls,files,hls,hfiles,hlog,hsorted,-⟩ := h₂.browsable.get hmem
          have hle : ∀ l ∈ ls, o ≤ l.offset :=
            fun l hl => Int64.le_trans (hlater _ hmem hlt) (hsorted.above l hl)
          have hcount := counting_keeps hcb
          have hread : (Exec.lift (x.readLogsAtPosition (t₂.files x).log 0
              (limit - UInt64.ofNat acc.1) (Topic.counting callback) acc)).Ensures t₂
                (Browsed t₀ parts) fun a _ => R a.2 := by
            refine .lift h₂ fun a ha => ?_
            rw [Browsable.files hbase hfiles, hlog] at ha
            exact Segment.readLogsAtPositionLoop_keeps (R := fun a => R a.2) List.drop_zero
              hsorted.small (fun l hl => hcount l (mem_flat hls hl) (hle l hl)) hacc ha
          refine .bind hread fun a t₃ h₃ ha => ?_
          exact ih h₃ (fun c hc hbc => hlater c hc (Int64.lt_trans hlt hbc)) ha
    · exact .pure h hacc

theorem Browsable.readLogs_ensures (h : Browsable t parts) {acc : σ} (hacc : R acc) :
    (Topic.readLogs o limit callback acc).Ensures t (Browsed t parts) fun a _ => R a := by
  have h₀ : Browsed t parts t := ⟨h,rfl,rfl⟩
  apply Exec.Ensures.get_bind
  have hroute : (Exec.lift (t.baseOffset o)).Ensures t (Browsed t parts) fun b _ =>
      b ∈ Assoc.keys parts ∧ ∀ c ∈ Assoc.keys parts, b < c → o ≤ c := by
    refine .lift h₀ fun b hb => ?_
    rw [Topic.baseOffset, h.segments] at hb
    exact baseOffsetLoop_spec h.bases hb
  refine .bind hroute fun b t₁ h₁ hb => ?_
  obtain ⟨hmem,hlater⟩ := hb
  refine .bind (h₁.getOrNewSegment hmem) fun id t₂ h₂ hid => ?_
  obtain ⟨s,hs,hbase⟩ := hid
  refine .bind (h₂.segmentAt hs) fun x t₃ h₃ hx => ?_
  obtain ⟨rfl,rfl⟩ := hx
  apply Exec.Ensures.get_bind
  obtain ⟨ls,files,hls,hfiles,hlog,hsorted,hmarks⟩ := h₃.browsable.get hmem
  have hcount := counting_keeps hcb
  have hview : x.index.baseOffset = b :=
    (h₃.browsable.views x (List.mem_of_getElem? hs)).trans hbase
  have hread : (Exec.lift (x.readLogs (t₃.files x) o limit (Topic.counting callback)
      (0,acc))).Ensures t₃ (Browsed t parts) fun a _ => R a.2 := by
    refine .lift h₃ fun a ha => ?_
    rw [Browsable.files hbase hfiles] at ha
    exact Segment.readLogs_keeps (R := fun a => R a.2) hview hlog hsorted hmarks
      (fun l hl ho => hcount l (mem_flat hls hl) ho) hacc ha
  refine .bind hread fun a t₄ h₄ ha => ?_
  refine .bind (h₄.readNextLoop hcb _ hlater ha) fun a' t₅ h₅ ha' => ?_
  exact .pure h₅ ha'

end Callback
end Reading

theorem Segment.appendLog_slots {s s' : Segment} {files files' : SegmentFiles} {log : Log} {n : Nat}
    (h : s.appendLog files log = .ok (n,s',files')) :
    s'.index.baseOffset = s.index.baseOffset ∧ ∀ i, files'.index.slots i = files.index.slots i ∨
      files'.index.slots i = ⟨(log.offset - s.index.baseOffset).toUInt64.toUInt32,
        UInt32.ofNat (s.position + log.wrap.length)⟩ := by
  rw [Segment.appendLog] at h
  split at h
  · cases h
  · simp only [Segment.indexIfNeed, Index.append] at h
    split at h
    · split at h
      · cases h
        exact ⟨rfl,fun i => Or.inl rfl⟩
      · cases h
        refine ⟨rfl,fun i => ?_⟩
        simp only [Function.update_apply]
        split
        · exact Or.inr rfl
        · exact Or.inl rfl
    · cases h
      exact ⟨rfl,fun i => Or.inl rfl⟩

theorem relative_offset {b o : Int64} (hb : 0 ≤ b.toInt) (hle : b ≤ o) (ho : o.toInt < 2 ^ 32) :
    b + (o - b).toUInt64.toUInt32.toUInt64.toInt64 = o := by
  apply Int64.toInt_inj.mp
  rw [toInt_relative hle]
  have hle' := Int64.le_iff_toInt_le.mp hle
  omega

section Appending

variable {t : Topic} {parts : Parts} {log : Log} {s : Segment} {ls : List Log}

theorem Browsable.remember (h : Browsable t parts) (log : Log) :
    Browsable (Topic.remember log t) parts :=
  ⟨h.layout.remember log,h.bases,h.nonneg,h.sorted,h.segments,h.views,h.cache,h.marked,h.position⟩

theorem Mark.appended {s' : Segment} {files files' : SegmentFiles} {n : Nat}
    (happ : s.appendLog files log = .ok (n,s',files')) (hview : s.index.baseOffset = s.baseOffset)
    (hspos : s.position = (joined ls).length) (hnonneg : 0 ≤ s.baseOffset.toInt)
    (hb : s.baseOffset ≤ log.offset) (ho : log.offset.toInt < 2 ^ 32)
    (hroom : (joined ls).length + log.wrap.length < 2 ^ 32)
    (hmarks : ∀ i, Mark s.baseOffset ls (files.index.slots i)) (i : Nat) :
    Mark s.baseOffset (ls ++ [log]) (files'.index.slots i) := by
  have hlen : (joined (ls ++ [log])).length = (joined ls).length + log.wrap.length := by
    simp [joined_append]
  rcases (Segment.appendLog_slots happ).2 i with heq | heq
  · rw [heq]
    exact (hmarks i).append log
  · rw [heq, hview]
    refine ⟨ls ++ [log],[],(List.append_nil _).symm,?_,?_⟩
    · rw [hlen, hspos, UInt32.toNat_ofNat', Nat.mod_eq_of_lt hroom]
    · rw [relative_offset hnonneg hb ho]
      simp

theorem Browsable.views_store {s' : Segment} (h : Browsable t parts) (files : SegmentFiles)
    (hview : s'.index.baseOffset = s'.baseOffset) :
    ∀ x ∈ (Topic.store t.activeSegment s' files t).objects, x.index.baseOffset = x.baseOffset := by
  intro x hx
  rcases List.mem_or_eq_of_mem_set hx with hx | rfl
  · exact h.views x hx
  · exact hview

theorem Browsable.cache_store {s' : Segment} (h : Browsable t parts)
    (hs : t.objects[t.activeSegment]? = some s) (files : SegmentFiles)
    (hbase : s'.baseOffset = s.baseOffset) :
    ∀ e ∈ t.segmentCache, ∃ x, (Topic.store t.activeSegment s' files t).objects[e.2]? = some x ∧
      x.baseOffset = e.1 := by
  intro e he
  obtain ⟨x,hx,hxb⟩ := h.cache e he
  rcases Nat.decEq e.2 t.activeSegment with hne | heq
  · refine ⟨x,?_,hxb⟩
    simp only [Topic.store, List.getElem?_set_ne (Ne.symm hne)]
    exact hx
  · rw [heq] at hx ⊢
    obtain rfl : s = x := Option.some.inj (hs.symm.trans hx)
    refine ⟨s',?_,hbase.trans hxb⟩
    have hin := (List.getElem?_eq_some_iff.mp hs).1
    simp [Topic.store, hin]

theorem Browsable.appendActive (h : Browsable t parts) (hs : t.objects[t.activeSegment]? = some s)
    (hls : Assoc.get s.baseOffset parts = some ls) (hsize : log.data.length ≤ logMaxSize)
    (hb : s.baseOffset ≤ log.offset) (hlt : ∀ l ∈ ls, l.offset < log.offset)
    (ho : log.offset.toInt < 2 ^ 32) (hroom : (joined ls).length + log.wrap.length < 2 ^ 32) :
    ∃ s' files, Topic.appendActive log t =
        (.ok log.wrap.length,Topic.store t.activeSegment s' files t) ∧
      Browsable (Topic.store t.activeSegment s' files t) (parts.grow s.baseOffset log) := by
  have hkey := Assoc.mem_keys_of_get hls
  obtain ⟨ls',files,hls',hfiles,hlog,hsorted,hmarks⟩ := h.get hkey
  obtain rfl : ls = ls' := Option.some.inj (hls.symm.trans hls')
  obtain ⟨s',files',happ,hbase,hpos,-,-,-⟩ :=
    Segment.appendLog_small files hsize (h.layout.aligned s (List.mem_of_getElem? hs))
  have hspos : s.position = (joined ls).length := h.position s ls hs hls
  have hview := h.views s (List.mem_of_getElem? hs)
  have hmarks' := Mark.appended happ hview hspos (h.nonneg _ hkey) hb ho hroom hmarks
  have hrun := Topic.appendActive_ok hs (by rw [Browsable.files rfl hfiles]; exact happ)
  have hlayout : Layout (Topic.store t.activeSegment s' files' t) (parts.grow s.baseOffset log) := by
    obtain ⟨s₂,files₂,hrun₂,-,hlay⟩ := h.layout.appendActive hs hsize
    rw [(Prod.mk.inj (hrun.symm.trans hrun₂)).2]
    exact hlay
  have hgrow : parts.grow s.baseOffset log = Assoc.put s.baseOffset (ls ++ [log]) parts := by
    rw [Parts.grow, hls, Option.getD_some]
  have hkeys : Assoc.keys (parts.grow s.baseOffset log) = Assoc.keys parts := by
    rw [hgrow, Assoc.keys_put_of_mem hkey]
  have hview' : s'.index.baseOffset = s'.baseOffset := by
    rw [(Segment.appendLog_slots happ).1, hbase]
    exact hview
  refine ⟨s',files',hrun,hlayout,?_,?_,?_,?_,h.views_store files' hview',h.cache_store hs files' hbase,
    ?_,?_⟩
  · rw [hkeys]
    exact h.bases
  · rw [hkeys]
    exact h.nonneg
  · intro e he
    rw [hgrow] at he
    rcases Assoc.mem_put he with he | rfl
    · exact h.sorted e he
    · exact hsorted.append hsize hb hlt
  · rw [hkeys]
    exact h.segments
  · intro c cs g hcs hg i
    simp only [Topic.store, hbase] at hg
    rw [hgrow] at hcs
    by_cases hc : c = s.baseOffset
    · subst hc
      rw [Assoc.get_put_self] at hcs hg
      cases hcs
      cases hg
      exact hmarks' i
    · rw [Assoc.get_put_ne hc] at hcs hg
      exact h.marked c cs g hcs hg i
  · intro x xs hx hxs
    have hin := (List.getElem?_eq_some_iff.mp hs).1
    simp only [Topic.store, List.getElem?_set_self hin, Option.some.injEq] at hx
    subst hx
    rw [hgrow, hbase, Assoc.get_put_self] at hxs
    cases hxs
    rw [hpos, hspos, joined_append, List.length_append, joined_cons, joined_nil, List.append_nil]

theorem Browsable.roll (h : Browsable t parts) (hfresh : ∀ b ∈ Assoc.keys parts, b < log.offset)
    (hnonneg : 0 ≤ log.offset.toInt) :
    ∃ s₀ dir, t.dir.openSegment log.offset = .ok (s₀,dir) ∧ s₀.baseOffset = log.offset ∧
      Browsable (Topic.rolled log s₀ dir t) (parts ++ [(log.offset,[])]) := by
  have hnot : log.offset ∉ Assoc.keys parts := fun hm => absurd (hfresh _ hm) Int64.lt_irrefl
  have hnone : Assoc.get log.offset parts = none := Assoc.get_eq_none_iff.mpr hnot
  have hparts : parts.opened log.offset = parts ++ [(log.offset,[])] := by
    rw [Parts.opened, hnone, Option.getD_none, Assoc.put_of_not_mem hnot]
  obtain ⟨s₀,dir,hopen,hdir,hbase,hpos,hidx,-⟩ := h.layout.dir.openSegment log.offset
  have hnew := hopen
  rw [TopicDir.openSegment, h.layout.dir.get_none hnone, Option.getD_none, bind_eq_ok] at hnew
  obtain ⟨⟨s',files'⟩,hnew,hpair⟩ := hnew
  obtain ⟨rfl,hdir'⟩ := Prod.mk.inj (Outcome.ok.inj hpair)
  obtain ⟨hview,hslots⟩ := newSegment_files hnew
  have hlayout := h.layout.rolled hdir hbase hidx
  rw [hparts] at hlayout
  have hkeys : Assoc.keys (parts ++ [(log.offset,[])]) = Assoc.keys parts ++ [log.offset] := by
    simp [Assoc.keys]
  have hget : Assoc.get log.offset (parts ++ [(log.offset,[])]) = some [] := by
    rw [← hparts, Parts.opened, hnone, Option.getD_none, Assoc.get_put_self]
  have hother : ∀ c ≠ log.offset, Assoc.get c (parts ++ [(log.offset,[])]) = Assoc.get c parts := by
    intro c hc
    rw [← hparts, Parts.opened, Assoc.get_put_ne hc]
  refine ⟨s',dir,hopen,hbase,hlayout,?_,?_,?_,?_,h.views_concat (hview.trans hbase.symm),
    h.cache_concat s',?_,?_⟩
  · rw [hkeys, List.pairwise_append]
    refine ⟨h.bases,List.pairwise_singleton _ _,fun b hb c hc => ?_⟩
    rw [List.mem_singleton.mp hc]
    exact hfresh b hb
  · intro b hb
    rw [hkeys] at hb
    rcases List.mem_append.mp hb with hb | hb
    · exact h.nonneg b hb
    · rw [List.mem_singleton.mp hb]
      exact hnonneg
  · intro e he
    rcases List.mem_append.mp he with he | he
    · exact h.sorted e he
    · rw [List.mem_singleton.mp he]
      exact Sorted.nil _
  · rw [hkeys, Topic.rolled, h.segments]
  · intro c cs g hcs hg i
    simp only [Topic.rolled, ← hdir'] at hg
    by_cases hc : c = log.offset
    · subst hc
      rw [Assoc.get_put_self] at hg
      cases hg
      rcases hslots i with heq | heq
      · rw [heq]
        exact mark_zero _ cs
      · rw [heq]
        exact mark_zero _ cs
    · rw [Assoc.get_put_ne hc] at hg
      rw [hother c hc] at hcs
      exact h.marked c cs g hcs hg i
  · intro x xs hx hxs
    simp only [Topic.rolled, List.getElem?_concat_length, Option.some.injEq] at hx
    subst hx
    rw [hbase, hget] at hxs
    cases hxs
    exact hpos

structure Above (parts : Parts) (log : Log) : Prop where
  bases : ∀ b ∈ Assoc.keys parts, b < log.offset
  records : ∀ l ∈ parts.flat, l.offset < log.offset
  nonneg : 0 ≤ log.offset.toInt
  bounded : log.offset.toInt < 2 ^ 32

def Topic.Roomy (t : Topic) (log : Log) : Prop :=
  ∀ s, t.objects[t.activeSegment]? = some s → (t.files s).log.length + log.wrap.length < 2 ^ 32

instance (t : Topic) (log : Log) : Decidable (t.Roomy log) :=
  match h : t.objects[t.activeSegment]? with
  | some s => decidable_of_iff ((t.files s).log.length + log.wrap.length < 2 ^ 32)
      (by simp [Topic.Roomy, h])
  | none => isTrue (by simp [Topic.Roomy, h])

structure Grown (parts : Parts) (log : Log) (parts' : Parts) : Prop where
  bases : ∀ b ∈ Assoc.keys parts', b ∈ Assoc.keys parts ∨ b = log.offset
  records : ∀ l ∈ parts'.flat, l ∈ parts.flat ∨ l = log

theorem Browsable.append_at (h : Browsable t parts) (hs : t.objects[t.activeSegment]? = some s)
    (hb : s.baseOffset ≤ log.offset) (hlt : ∀ l ∈ parts.flat, l.offset < log.offset)
    (ho : log.offset.toInt < 2 ^ 32) (hroom : log.data.length ≤ logMaxSize → t.Roomy log) :
    ∃ r t' parts', Topic.appendActive log t = (r,t') ∧ ¬ r.Panics ∧ Browsable t' parts' ∧
      t'.lastSeq = t.lastSeq ∧ t'.lastMemLog = t.lastMemLog ∧ Assoc.keys parts' = Assoc.keys parts ∧
      ∀ l ∈ parts'.flat, l ∈ parts.flat ∨ l = log := by
  obtain ⟨x,ls,hx,hls⟩ := h.layout.active
  obtain rfl : s = x := Option.some.inj (hs.symm.trans hx)
  rcases Nat.lt_or_ge logMaxSize log.data.length with hbig | hsize
  · obtain ⟨e,he⟩ := Segment.appendLog_large s (t.files s) hbig
    refine ⟨_,t,parts,Topic.appendActive_error hs he,?_,h,rfl,rfl,rfl,fun l hl => Or.inl hl⟩
    rintro ⟨e',he'⟩
    cases he'
  · obtain ⟨ls',files,hls',hfiles,hlog,-,-⟩ := h.get (Assoc.mem_keys_of_get hls)
    obtain rfl : ls = ls' := Option.some.inj (hls.symm.trans hls')
    have hfit := hroom hsize s hs
    rw [Browsable.files rfl hfiles, hlog] at hfit
    obtain ⟨s',files',hrun,hnew⟩ := h.appendActive hs hls hsize hb
      (fun l hl => hlt l (mem_flat hls hl)) ho hfit
    refine ⟨_,_,_,hrun,?_,hnew,rfl,rfl,?_,?_⟩
    · rintro ⟨e,he⟩
      cases he
    · rw [Parts.grow, Assoc.keys_put_of_mem (Assoc.mem_keys_of_get hls)]
    · intro l hl
      have hperm := (Parts.flat_grow s.baseOffset log parts).mem_iff.mp hl
      simpa using hperm

theorem Browsable.appendLog (h : Browsable t parts) (hm : t.alreadyAppended log = false)
    (ha : Above parts log) (hroom : t.Roomy log) :
    ∃ r t' parts', Topic.appendLog log t = (r,t') ∧ ¬ r.Panics ∧ Browsable t' parts' ∧
      t'.lastSeq = (Topic.remember log t).lastSeq ∧ t'.lastMemLog = some log ∧
      Grown parts log parts' := by
  obtain ⟨s,ls,hs,hls⟩ := h.layout.active
  have hb := Int64.le_of_lt (ha.bases _ (Assoc.mem_keys_of_get hls))
  cases hr : t.needRoll s with
  | false =>
    obtain ⟨r,t',parts',hrun,hpanic,hnew,hseq,hmem,hkeys,hflat⟩ :=
      (h.remember log).append_at hs hb ha.records ha.bounded fun _ => hroom
    refine ⟨r,t',parts',?_,hpanic,hnew,hseq,hmem,?_,hflat⟩
    · rw [Topic.appendLog_stay hs hm hr, hrun]
    · exact fun b hb => Or.inl (hkeys ▸ hb)
  | true =>
    obtain ⟨s₀,dir,hopen,hbase,hroll⟩ := (h.remember log).roll ha.bases ha.nonneg
    have hs₀ : (Topic.rolled log s₀ dir (Topic.remember log t)).objects[(Topic.rolled log s₀ dir
        (Topic.remember log t)).activeSegment]? = some s₀ := by
      simp [Topic.rolled]
    have hflat₀ : Parts.flat (parts ++ [(log.offset,[])]) = parts.flat := by simp [Parts.flat]
    have hnone : Assoc.get log.offset parts = none :=
      Assoc.get_eq_none_iff.mpr fun hm => absurd (ha.bases _ hm) Int64.lt_irrefl
    have hroom₀ : log.data.length ≤ logMaxSize →
        (Topic.rolled log s₀ dir (Topic.remember log t)).Roomy log := by
      intro hsize x hx
      obtain rfl : s₀ = x := Option.some.inj (hs₀.symm.trans hx)
      obtain ⟨ls₀,files,hls₀,hfiles,hlog,-⟩ := hroll.get (b := log.offset) (by simp [Assoc.keys])
      have hnil : ls₀ = [] := by
        rw [← Assoc.put_of_not_mem (Assoc.get_eq_none_iff.mp hnone), Assoc.get_put_self] at hls₀
        exact (Option.some.inj hls₀).symm
      have hmin : logMinLen = 24 := rfl
      rw [Browsable.files hbase hfiles, hlog, hnil, length_wrap]
      rw [logMaxSize] at hsize
      simp only [joined_nil, List.length_nil]
      omega
    obtain ⟨r,t',parts',hrun,hpanic,hnew,hseq,hmem,hkeys,hflat⟩ :=
      hroll.append_at hs₀ (Int64.le_of_eq hbase) (hflat₀.symm ▸ ha.records) ha.bounded hroom₀
    refine ⟨r,t',parts',?_,hpanic,hnew,hseq,hmem,?_,?_⟩
    · rw [Topic.appendLog_roll hs hm hr hopen, hrun]
    · intro b hb
      rw [hkeys] at hb
      simpa [Assoc.keys] using hb
    · intro l hl
      rw [← hflat₀]
      exact hflat l hl

end Appending
end LiMaoIM.Db

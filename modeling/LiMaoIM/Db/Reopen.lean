import LiMaoIM.Foundation.Run
import LiMaoIM.Db.Sanity
import LiMaoIM.Db.TopicLayout

namespace LiMaoIM.Db

open Outcome

structure Session where
  topic : Topic
  appended : List Log
  justOpened : Bool

inductive SessionStep where
  | send (appliIndex : UInt64) (data : Bytes)
  | reopen

def Session.initial (segmentMaxBytes : Int) : Session := ⟨freshTopic segmentMaxBytes,[],true⟩

def sessionStep (s : Session) : SessionStep → Outcome Session
  | .send appliIndex data =>
      let (seq,topic) := s.topic.nextOffset
      let log : Log := ⟨seq.toUInt64.toInt64,appliIndex,data⟩
      match Topic.appendLog log topic with
      | (.ok n,topic) => .ok ⟨topic,if n = 0 then s.appended else s.appended ++ [log],false⟩
      | (.error _,topic) => .ok ⟨topic,s.appended,false⟩
      | (.panic e,_) => .panic e
  | .reopen => do
      let topic ← newTopic s.topic.close s.topic.segmentMaxBytes
      pure ⟨topic,s.appended,true⟩

def largestOffset (ls : List Log) : Int := ls.foldl (fun m l => max m l.offset.toInt) 0

structure SeqSurvives (s : Session) : Prop where
  lastSeq : s.justOpened = true → (s.topic.getLastSeq.toNat : Int) = largestOffset s.appended
  segments : s.justOpened = true → ∀ b ∈ Assoc.keys s.topic.dir.logs, b ∈ s.topic.segments
  unused : ∀ l ∈ s.appended, l.offset ≠ s.topic.nextOffset.1.toUInt64.toInt64

def Survivable (s : Session) : SessionStep → Prop
  | .send _ _ => s.topic.lastSeq.toNat + 1 < 2 ^ 32
  | .reopen => Assoc.keys s.topic.dir.logs = [0] ∧ s.appended.length ≠ 1 ∧
      Segment.Recoverable s.appended

structure SessionInv (s : Session) (parts : Parts) : Prop where
  layout : Layout s.topic parts
  segments : ∀ b ∈ Assoc.keys parts, b ∈ s.topic.segments
  single : Assoc.keys parts = [0] → parts = [(0,s.appended)]
  bases : ∀ b ∈ Assoc.keys parts, b.toInt ≤ s.topic.lastSeq.toNat
  small : ∀ l ∈ s.appended, l.data.length ≤ logMaxSize
  positive : ∀ l ∈ s.appended, 0 < l.offset.toInt
  ascending : s.appended.Pairwise (fun a b => a.offset.toInt < b.offset.toInt)
  bounded : ∀ l ∈ s.appended, l.offset.toInt ≤ s.topic.lastSeq.toNat
  lastMemLog : ∀ m, s.topic.lastMemLog = some m → m.offset.toInt ≤ s.topic.lastSeq.toNat
  opened : s.justOpened = true → (s.topic.lastSeq.toNat : Int) = largestOffset s.appended

theorem largestOffset_append (ls : List Log) (l : Log) (h0 : 0 ≤ l.offset.toInt)
    (h : ∀ x ∈ ls, x.offset.toInt ≤ l.offset.toInt) :
    largestOffset (ls ++ [l]) = l.offset.toInt := by
  have hle : ∀ m : Int, m ≤ l.offset.toInt →
      ls.foldl (fun m l => max m l.offset.toInt) m ≤ l.offset.toInt := by
    induction ls with
    | nil => exact fun m hm => hm
    | cons x ls ih =>
      intro m hm
      exact ih (fun y hy => h y (List.mem_cons_of_mem _ hy)) _
        (max_le hm (h x List.mem_cons_self))
  rw [largestOffset, List.foldl_append]
  exact max_eq_right (hle 0 h0)

theorem le_foldl_max (f : Log → Int) (ls : List Log) (m : Int) :
    m ≤ ls.foldl (fun m l => max m (f l)) m ∧
      ∀ l ∈ ls, f l ≤ ls.foldl (fun m l => max m (f l)) m := by
  induction ls generalizing m with
  | nil => exact ⟨le_refl m,fun l hl => absurd hl List.not_mem_nil⟩
  | cons x ls ih =>
    obtain ⟨hm,hls⟩ := ih (max m (f x))
    rw [List.foldl_cons]
    refine ⟨le_trans (le_max_left _ _) hm,fun l hl => ?_⟩
    rcases List.mem_cons.mp hl with rfl | hl
    · exact le_trans (le_max_right _ _) hm
    · exact hls l hl

theorem le_largestOffset {ls : List Log} {l : Log} (h : l ∈ ls) :
    l.offset.toInt ≤ largestOffset ls := (le_foldl_max (fun l => l.offset.toInt) ls 0).2 l h

theorem toInt_seq (seq : UInt32) : seq.toUInt64.toInt64.toInt = seq.toNat := toInt_toInt64 seq

theorem uint32_seq (seq : UInt32) : seq.toUInt64.toInt64.toUInt64.toUInt32 = seq := by simp

theorem SessionInv.survives {s : Session} {parts : Parts} (h : SessionInv s parts) :
    SeqSurvives s := by
  refine ⟨h.opened,fun _ b hb => ?_,fun l hl he => ?_⟩
  · apply h.segments
    rwa [← Assoc.keys_mapVal joined, ← h.layout.dir.logs, Assoc.keys_mapVal]
  · have hoff : l.offset.toInt = (s.topic.lastSeq + 1).toNat := by
      rw [he]
      exact toInt_seq _
    have hb := h.bounded l hl
    have hp := h.positive l hl
    rw [hoff, UInt32.toNat_add] at hb hp
    have hlt := s.topic.lastSeq.toNat_lt
    have hone : (1 : UInt32).toNat = 1 := rfl
    rw [hone] at hb hp
    omega

theorem sessionInv_initial (segmentMaxBytes : Int) :
    SessionInv (.initial segmentMaxBytes) [(0,[])] := by
  refine ⟨layout_freshTopic segmentMaxBytes,?_,fun _ => rfl,?_,?_,?_,List.Pairwise.nil,?_,?_,
    fun _ => rfl⟩
  · exact fun b hb => hb
  · intro b hb
    rw [List.mem_singleton.mp hb]
    exact le_refl (0 : Int)
  · exact fun l hl => absurd hl List.not_mem_nil
  · exact fun l hl => absurd hl List.not_mem_nil
  · exact fun l hl => absurd hl List.not_mem_nil
  · exact fun m hm => absurd hm (by simp [Session.initial, freshTopic])

section Send

variable {s : Session} {parts parts₁ : Parts} {t : Topic} {log : Log} {b : Int64}
  {segments : List Int64}

theorem Target.mem_keys (h : Layout t parts) (ht : Target t parts log b parts₁ segments) :
    b ∈ Assoc.keys parts₁ := by
  cases ht with
  | stay g hg hr =>
    obtain ⟨g',ls,hg',hls⟩ := h.active
    obtain rfl : g' = g := Option.some.inj (hg'.symm.trans hg)
    exact Assoc.mem_keys_of_get hls
  | roll => exact Assoc.mem_keys_of_get Assoc.get_put_self

theorem Target.keys_sub (ht : Target t parts log b parts₁ segments) :
    ∀ x ∈ Assoc.keys parts₁, x ∈ Assoc.keys parts ∨ x = log.offset := by
  cases ht with
  | stay g hg hr => exact fun x hx => Or.inl hx
  | roll =>
    intro x hx
    obtain ⟨e,he,rfl⟩ := List.mem_map.mp hx
    rcases Assoc.mem_put he with he | rfl
    · exact Or.inl (List.mem_map.mpr ⟨e,he,rfl⟩)
    · exact Or.inr rfl

theorem Target.mem_segments (ht : Target t parts log b parts₁ segments)
    (hseg : ∀ x ∈ Assoc.keys parts, x ∈ t.segments) : ∀ x ∈ Assoc.keys parts₁, x ∈ segments := by
  intro x hx
  cases ht with
  | stay g hg hr => exact hseg x hx
  | roll =>
    rcases Target.keys_sub (t := t) .roll x hx with hx | rfl
    · exact List.mem_append_left _ (hseg x hx)
    · simp

theorem Target.single (h : Layout t parts) (ht : Target t parts log b parts₁ segments)
    (hnew : log.offset ∉ Assoc.keys parts) (hk : Assoc.keys parts₁ = [0]) :
    parts₁ = parts ∧ b = 0 ∧ Assoc.keys parts = [0] := by
  have hb := ht.mem_keys h
  rw [hk, List.mem_singleton] at hb
  cases ht with
  | stay g hg hr => exact ⟨rfl,hb,hk⟩
  | roll =>
    obtain ⟨g,ls,-,hls⟩ := h.active
    have hmem := Assoc.mem_keys_of_get hls
    rw [Parts.opened, Assoc.put_of_not_mem hnew, Assoc.keys, List.map_append] at hk
    have hlen := congrArg List.length hk
    simp only [List.length_append, List.length_map, List.length_cons, List.length_nil] at hlen
    have hnil : parts = [] := List.length_eq_zero_iff.mp (by omega)
    rw [hnil] at hmem
    cases hmem

theorem keys_grow (hb : b ∈ Assoc.keys parts₁) :
    Assoc.keys (parts₁.grow b log) = Assoc.keys parts₁ := Assoc.keys_put_of_mem hb

end Send

def Session.allocated (s : Session) : Topic := s.topic.nextOffset.2

def Session.nextLog (s : Session) (appliIndex : UInt64) (data : Bytes) : Log :=
  ⟨(s.topic.lastSeq + 1).toUInt64.toInt64,appliIndex,data⟩

def Session.finish (s : Session) (log : Log) : Outcome Nat × Topic → Outcome Session
  | (.ok n,topic) => .ok ⟨topic,if n = 0 then s.appended else s.appended ++ [log],false⟩
  | (.error _,topic) => .ok ⟨topic,s.appended,false⟩
  | (.panic e,_) => .panic e

theorem sessionStep_send (s : Session) (appliIndex : UInt64) (data : Bytes) :
    sessionStep s (.send appliIndex data) =
      s.finish (s.nextLog appliIndex data)
        (Topic.appendLog (s.nextLog appliIndex data) s.allocated) := by
  show (match Topic.appendLog (s.nextLog appliIndex data) s.allocated with
    | (.ok n,topic) => _
    | (.error _,topic) => _
    | (.panic e,_) => _) = _
  rcases Topic.appendLog (s.nextLog appliIndex data) s.allocated with ⟨n | e | e,t⟩ <;> rfl

theorem remember_allocated (s : Session) (appliIndex : UInt64) (data : Bytes) :
    (Topic.remember (s.nextLog appliIndex data) s.allocated).lastSeq = s.topic.lastSeq + 1 := by
  show (if s.topic.lastSeq + 1 < (s.topic.lastSeq + 1).toUInt64.toInt64.toUInt64.toUInt32 then
    (s.topic.lastSeq + 1).toUInt64.toInt64.toUInt64.toUInt32 else s.topic.lastSeq + 1) = _
  rw [uint32_seq, ite_self]

section Sent

variable {s : Session} {parts : Parts} (appliIndex : UInt64) (data : Bytes)

theorem offset_nextLog (hc : s.topic.lastSeq.toNat + 1 < 2 ^ 32) :
    (s.nextLog appliIndex data).offset.toInt = (s.topic.lastSeq.toNat : Int) + 1 := by
  show (s.topic.lastSeq + 1).toUInt64.toInt64.toInt = _
  have hone : (1 : UInt32).toNat = 1 := rfl
  rw [toInt_seq, UInt32.toNat_add, hone, Nat.mod_eq_of_lt hc]
  push_cast
  rfl

theorem SessionInv.allocated (h : SessionInv s parts) : Layout s.allocated parts :=
  ⟨h.layout.dir,h.layout.aligned,h.layout.active⟩

theorem SessionInv.alreadyAppended (h : SessionInv s parts)
    (hc : s.topic.lastSeq.toNat + 1 < 2 ^ 32) :
    s.allocated.alreadyAppended (s.nextLog appliIndex data) = false := by
  have hmem : s.allocated.lastMemLog = s.topic.lastMemLog := rfl
  rw [Topic.alreadyAppended, hmem]
  cases hm : s.topic.lastMemLog with
  | none => rfl
  | some m =>
    have hle := h.lastMemLog m hm
    have hoff := offset_nextLog appliIndex data hc
    simp only [decide_eq_false_iff_not, Int64.le_iff_toInt_le]
    omega

theorem SessionInv.fresh (h : SessionInv s parts) (hc : s.topic.lastSeq.toNat + 1 < 2 ^ 32) :
    (s.nextLog appliIndex data).offset ∉ Assoc.keys parts := by
  intro hmem
  have hle := h.bases _ hmem
  rw [offset_nextLog appliIndex data hc] at hle
  omega

theorem SessionInv.sent {parts' : Parts} {t' : Topic} {ls : List Log} {b : Int64}
    {segments : List Int64} (h : SessionInv s parts) (hc : s.topic.lastSeq.toNat + 1 < 2 ^ 32)
    (ht : Target s.allocated parts (s.nextLog appliIndex data) b parts' segments)
    (ha : Appended s.allocated (s.nextLog appliIndex data) segments t')
    {parts₂ : Parts} (hlay : Layout t' parts₂) (hkeys : Assoc.keys parts₂ = Assoc.keys parts')
    (hsingle : Assoc.keys parts₂ = [0] → parts₂ = [(0,ls)])
    (hls : ∀ l ∈ ls, l ∈ s.appended ∨
      l = s.nextLog appliIndex data ∧ data.length ≤ logMaxSize)
    (hasc : ls.Pairwise fun a b => a.offset.toInt < b.offset.toInt) :
    SessionInv ⟨t',ls,false⟩ parts₂ := by
  have hoff := offset_nextLog appliIndex data hc
  have hseq : (t'.lastSeq.toNat : Int) = s.topic.lastSeq.toNat + 1 := by
    have hone : (1 : UInt32).toNat = 1 := rfl
    rw [ha.lastSeq, remember_allocated, UInt32.toNat_add, hone, Nat.mod_eq_of_lt hc]
    push_cast
    rfl
  refine ⟨hlay,?_,hsingle,?_,?_,?_,hasc,?_,?_,?_⟩
  · intro x hx
    rw [hkeys] at hx
    show x ∈ t'.segments
    rw [ha.segments_eq]
    exact ht.mem_segments h.segments x hx
  · intro x hx
    rw [hkeys] at hx
    show x.toInt ≤ (t'.lastSeq.toNat : Int)
    rcases ht.keys_sub x hx with hx | rfl
    · have hle := h.bases x hx
      omega
    · omega
  · intro l hl
    rcases hls l hl with hl | ⟨rfl,hd⟩
    · exact h.small l hl
    · exact hd
  · intro l hl
    rcases hls l hl with hl | ⟨rfl,-⟩
    · exact h.positive l hl
    · omega
  · intro l hl
    show l.offset.toInt ≤ (t'.lastSeq.toNat : Int)
    rcases hls l hl with hl | ⟨rfl,-⟩
    · have hle := h.bounded l hl
      omega
    · omega
  · intro m hm
    have hm' : t'.lastMemLog = some m := hm
    rw [ha.lastMemLog] at hm'
    obtain rfl := Option.some.inj hm'
    show _ ≤ (t'.lastSeq.toNat : Int)
    omega
  · exact fun hfalse => absurd hfalse (by simp)

theorem SessionInv.send (h : SessionInv s parts) (hc : s.topic.lastSeq.toNat + 1 < 2 ^ 32) :
    ∃ s' parts', sessionStep s (.send appliIndex data) = .ok s' ∧ SessionInv s' parts' := by
  obtain ⟨b,parts₁,segments,t',ht,ha,hsmall,hlarge⟩ := h.allocated.appendLog
    (h.alreadyAppended appliIndex data hc)
  have hfresh := h.fresh appliIndex data hc
  have hdata : (s.nextLog appliIndex data).data = data := rfl
  rw [sessionStep_send]
  rcases Nat.lt_or_ge logMaxSize data.length with hbig | hfits
  · obtain ⟨⟨e,he⟩,hlay⟩ := hlarge hbig
    rw [he]
    refine ⟨_,parts₁,rfl,h.sent appliIndex data hc ht ha hlay rfl ?_ (fun l hl => Or.inl hl) h.ascending⟩
    intro hk
    obtain ⟨rfl,-,hk'⟩ := ht.single h.allocated hfresh hk
    exact h.single hk'
  · obtain ⟨hok,hlay⟩ := hsmall hfits
    have hpos := length_wrap_pos (s.nextLog appliIndex data)
    rw [hok, Session.finish, if_neg (by omega)]
    refine ⟨_,_,rfl,h.sent appliIndex data hc ht ha hlay (keys_grow (ht.mem_keys h.allocated)) ?_ ?_ ?_⟩
    · intro hk
      rw [keys_grow (ht.mem_keys h.allocated)] at hk
      obtain ⟨rfl,rfl,hk'⟩ := ht.single h.allocated hfresh hk
      rw [h.single hk']
      simp [Parts.grow, Assoc.get, Assoc.put]
    · intro l hl
      rcases List.mem_append.mp hl with hl | hl
      · exact Or.inl hl
      · exact Or.inr ⟨List.mem_singleton.mp hl,hfits⟩
    · rw [List.pairwise_append]
      refine ⟨h.ascending,List.pairwise_singleton _ _,?_⟩
      intro x hx y hy
      rw [List.mem_singleton.mp hy, offset_nextLog appliIndex data hc]
      have hle := h.bounded x hx
      omega

end Sent

def lastOffset (ls : List Log) : UInt32 :=
  match ls.getLast? with
  | some l => l.offset.toUInt64.toUInt32
  | none => 0

theorem readAtPosition_last (init : List Log) {l : Log} (hl : l.data.length ≤ logMaxSize) :
    readAtPosition (joined (init ++ [l])) (joined init).length = .ok (l.offset,l.data.length) := by
  have hdrop : (joined (init ++ [l])).drop (joined init).length = l.wrap ++ [] := by
    rw [joined_append, List.drop_left]
    simp
  exact readAtPosition_wrap hdrop hl

theorem readSegmentNames_logs : readSegmentNames ["logs"] ["logs"] = .ok [] := by decide

def reopenedTopic (segmentMaxBytes : Int) (dir : TopicDir) (sg : Segment) (lastSeq : UInt32) :
    Topic :=
  { segmentMaxBytes := segmentMaxBytes
    dir := dir
    objects := [sg]
    segments := [0]
    activeSegment := 0
    segmentCache := [(0,0)]
    lastSeq := lastSeq
    lastMemLog := none }

theorem layout_reopenedTopic {dir : TopicDir} {ls : List Log} {sg : Segment}
    (segmentMaxBytes : Int) (lastSeq : UInt32) (h : DirLayout dir [(0,ls)])
    (hb : sg.baseOffset = 0) (hi : entrySize ∣ sg.index.position) :
    Layout (reopenedTopic segmentMaxBytes dir sg lastSeq) [(0,ls)] := by
  refine ⟨h,?_,sg,ls,rfl,?_⟩
  · intro x hx
    rw [List.mem_singleton.mp hx]
    exact hi
  · simp [hb, Assoc.get]

theorem newTopic_single {dir : TopicDir} {ls : List Log} (segmentMaxBytes : Int)
    (h : DirLayout dir [(0,ls)]) (hls : ∀ l ∈ ls, l.data.length ≤ logMaxSize)
    (hrec : Segment.Recoverable ls) (hlen : ls.length ≠ 1) :
    ∃ dir' sg, newTopic dir segmentMaxBytes =
        .ok (reopenedTopic segmentMaxBytes dir' sg (lastOffset ls)) ∧
      Layout (reopenedTopic segmentMaxBytes dir' sg (lastOffset ls)) [(0,ls)] := by
  obtain ⟨sg,dir',hopen,hdir,hbase,hpos,hidx,-⟩ := h.openSegment 0
  have hparts : Parts.opened 0 [(0,ls)] = [(0,ls)] := by simp [Parts.opened, Assoc.get, Assoc.put]
  rw [hparts] at hdir
  have hget : Assoc.get (0 : Int64) [(0,ls)] = some ls := by rw [Assoc.get, if_pos rfl]
  obtain ⟨files,hfiles,hlog,hal⟩ := hdir.get hget
  have hsane := Segment.sanityCheck_joined hlog hls hrec hpos
  have hsort : sortSegments [] = [] := rfl
  refine ⟨dir',{ sg with position := (joined ls).length },?_,
    layout_reopenedTopic segmentMaxBytes _ hdir hbase hidx⟩
  rw [newTopic, h.names, readSegmentNames_logs, ok_bind]
  simp only [hsort, if_true, List.getLastD_cons, List.getLastD_nil, hopen, ok_bind, hfiles,
    Option.getD_some, hsane, orPanic, Assoc.put_get hfiles]
  rcases List.eq_nil_or_concat ls with rfl | ⟨init,l,rfl⟩
  · rfl
  · rw [List.concat_eq_append] at *
    have hinit : (joined init).length ≠ 0 := by
      have hle := length_le_joined init
      simp only [List.length_append, List.length_cons, List.length_nil] at hlen
      omega
    have hread := readAtPosition_last init (hls l (by simp))
    rw [List.dropLast_concat, if_neg hinit, hlog, hread]
    simp [lastOffset, reopenedTopic, Outcome.pure_eq]

structure Opened (dir : TopicDir) (segmentMaxBytes : Int) (t : Topic) (dir₁ : TopicDir)
    (s s' : Segment) (last : Nat) (files : SegmentFiles) : Prop where
  segment : dir.openSegment 0 = .ok (s,dir₁)
  checked : s.sanityCheck ((Assoc.get 0 dir₁.logs).getD .empty) = .ok (last,s',files)
  topic : t = reopenedTopic segmentMaxBytes { dir₁ with logs := Assoc.put 0 files dir₁.logs } s'
    t.lastSeq
  lastSeq : if last = 0 then t.lastSeq = 0
    else ∃ offset n, readAtPosition files.log last = .ok (offset,n) ∧
      t.lastSeq = offset.toUInt64.toUInt32

theorem orPanic_eq_ok {α : Type} {x : Outcome α} {a : α} : orPanic x = .ok a ↔ x = .ok a := by
  cases x <;> simp [orPanic]

theorem newTopic_opened {dir : TopicDir} {segmentMaxBytes : Int} {t : Topic}
    (hn : dir.names = ["logs"]) (h : newTopic dir segmentMaxBytes = .ok t) :
    ∃ dir₁ s s' last files, Opened dir segmentMaxBytes t dir₁ s s' last files := by
  have hsort : sortSegments [] = [] := rfl
  rw [newTopic, hn, readSegmentNames_logs, ok_bind] at h
  simp only [hsort, if_true, List.getLastD_cons, List.getLastD_nil] at h
  obtain ⟨⟨s,dir₁⟩,hopen,h⟩ := bind_eq_ok.mp h
  obtain ⟨⟨last,s',files⟩,hcheck,h⟩ := bind_eq_ok.mp h
  have hchecked := orPanic_eq_ok.mp hcheck
  simp only [Outcome.pure_eq, ok_bind] at h
  split at h
  · rename_i hz
    obtain rfl := Outcome.ok.inj h
    refine ⟨dir₁,s,s',last,files,⟨hopen,hchecked,rfl,?_⟩⟩
    rw [if_pos hz]
    rfl
  · rename_i hz
    obtain ⟨⟨offset,n⟩,hread,h⟩ := bind_eq_ok.mp h
    obtain rfl := Outcome.ok.inj h
    refine ⟨dir₁,s,s',last,files,⟨hopen,hchecked,rfl,?_⟩⟩
    rw [if_neg hz]
    exact ⟨offset,n,orPanic_eq_ok.mp hread,rfl⟩

theorem lastOffset_eq_largest {s : Session} {parts : Parts} (h : SessionInv s parts) :
    ((lastOffset s.appended).toNat : Int) = largestOffset s.appended := by
  rcases List.eq_nil_or_concat s.appended with hnil | ⟨init,l,hcat⟩
  · rw [hnil]
    rfl
  · rw [List.concat_eq_append] at hcat
    have hl : l ∈ s.appended := by simp [hcat]
    have hpos := h.positive l hl
    have hbound := h.bounded l hl
    have hlt := s.topic.lastSeq.toNat_lt
    have hasc := h.ascending
    have hcast := toNat_toUInt64 l.offset
    rw [hcat, List.pairwise_append] at hasc
    rw [hcat, largestOffset_append init l (by omega)
      (fun x hx => le_of_lt (hasc.2.2 x hx l (by simp)))]
    simp only [lastOffset, List.getLast?_concat, UInt64.toNat_toUInt32]
    omega

theorem SessionInv.reopen {s : Session} {parts : Parts} (h : SessionInv s parts)
    (hc : Survivable s .reopen) :
    ∃ s' parts', sessionStep s .reopen = .ok s' ∧ SessionInv s' parts' := by
  obtain ⟨hkeys,hlen,hrec⟩ := hc
  have hpkeys : Assoc.keys parts = [0] := by
    rw [← Assoc.keys_mapVal joined, ← h.layout.dir.logs, Assoc.keys_mapVal, hkeys]
  have hdir := h.layout.close
  rw [h.single hpkeys] at hdir
  obtain ⟨dir,sg,hnew,hlay⟩ := newTopic_single s.topic.segmentMaxBytes hdir h.small hrec hlen
  have hseq := lastOffset_eq_largest h
  have hstep : sessionStep s .reopen = .ok
      ⟨reopenedTopic s.topic.segmentMaxBytes dir sg (lastOffset s.appended),s.appended,true⟩ := by
    rw [sessionStep, hnew, ok_bind]
    rfl
  refine ⟨_,_,hstep,hlay,fun b hb => hb,fun _ => rfl,?_,h.small,h.positive,h.ascending,?_,?_,
    fun _ => hseq⟩
  · intro b hb
    rw [List.mem_singleton.mp hb]
    exact Int.natCast_nonneg _
  · intro l hl
    rw [show ((reopenedTopic s.topic.segmentMaxBytes dir sg (lastOffset s.appended)).lastSeq.toNat :
      Int) = largestOffset s.appended from hseq]
    exact le_largestOffset hl
  · exact fun m hm => absurd hm (by simp [reopenedTopic])

def Session.Sound (s : Session) : Prop := ∃ parts, SessionInv s parts

theorem Session.Sound.step (s : Session) (a : SessionStep) (h : s.Sound) (hc : Survivable s a) :
    ∃ s', sessionStep s a = .ok s' ∧ s'.Sound := by
  obtain ⟨parts,h⟩ := h
  cases a with
  | send appliIndex data =>
    obtain ⟨s',parts',hs,hinv⟩ := h.send appliIndex data hc
    exact ⟨s',hs,parts',hinv⟩
  | reopen =>
    obtain ⟨s',parts',hs,hinv⟩ := h.reopen hc
    exact ⟨s',hs,parts',hinv⟩

theorem sequence_numbers_survive (segmentMaxBytes : Int) (steps : List SessionStep)
    (h : Run.Meets sessionStep Survivable (.initial segmentMaxBytes) steps) :
    Run.Always sessionStep SeqSurvives (.initial segmentMaxBytes) steps := by
  have hinit : (Session.initial segmentMaxBytes).Sound := ⟨_,sessionInv_initial segmentMaxBytes⟩
  apply Run.always_of_invariant _ Session.Sound.step hinit h
  rintro s ⟨parts,hs⟩
  exact hs.survives

def fewMessages (s : Session) : SessionStep → Bool
  | .send _ _ => s.topic.lastSeq.toNat + 1 < 2 ^ 32
  | .reopen => Assoc.keys s.topic.dir.logs = [0] ∧ s.appended.length ≠ 1 ∧
      (joined s.appended).length ≤ Segment.warmStart

theorem survivable_of_fewMessages (s : Session) (a : SessionStep) (h : fewMessages s a = true) :
    Survivable s a := by
  cases a with
  | send appliIndex data =>
    have hlt : s.topic.lastSeq.toNat + 1 < 2 ^ 32 := of_decide_eq_true h
    exact hlt
  | reopen =>
    obtain ⟨hkeys,hlen,hfull⟩ := of_decide_eq_true h
    exact ⟨hkeys,hlen,.full hfull⟩

def restartSteps : List SessionStep := [.send 0 [1],.send 0 [2],.reopen,.send 0 [3]]

theorem restart_survives : Run.Always sessionStep SeqSurvives (.initial 4096) restartSteps :=
  sequence_numbers_survive 4096 restartSteps
    (Run.Meets.imp survivable_of_fewMessages (by decide))

theorem single_message_seq_reused :
    ¬ Run.Always sessionStep SeqSurvives (.initial 4096) [.send 0 [1],.reopen] := by
  rintro ⟨-,s₁,⟨⟩,-,s₂,⟨⟩,h⟩
  exact absurd (h.lastSeq rfl) (by decide)

end LiMaoIM.Db

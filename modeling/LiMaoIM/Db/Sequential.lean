import LiMaoIM.Db.TopicCache
import LiMaoIM.Db.ConcurrentAppend
import LiMaoIM.Db.Reopen
import LiMaoIM.Db.Store

namespace LiMaoIM.Db

open Outcome

structure Contiguous (t : Topic) : Prop where
  bases : (Assoc.keys t.dir.logs).Pairwise (· < ·)
  numbers : (storedLogs t).map (fun l => l.offset.toInt) =
    (List.range' 1 t.getLastSeq.toNat).map fun n : Nat => (n : Int)

structure Sequential (t : Topic) (parts : Parts) : Prop where
  layout : Layout t parts
  arranged : Arranged parts
  active : ∃ front b p s, parts = front ++ [(b,p)] ∧ t.objects[t.activeSegment]? = some s ∧
    s.baseOffset = b
  lastSeq : t.lastSeq.toNat = parts.flat.length
  memory : ∀ m, t.lastMemLog = some m → 0 ≤ m.offset.toInt ∧ m.offset.toInt ≤ parts.flat.length
  unused : t.lastMemLog = none → ∃ p, parts = [(0,p)]

theorem Numbered.map_offset {n : Nat} {ls : List Log} (h : Numbered n ls) :
    ls.map (fun l => l.offset.toInt) = (List.range' (n + 1) ls.length).map fun k : Nat => (k : Int) := by
  induction ls generalizing n with
  | nil => rfl
  | cons l ls ih =>
    obtain ⟨hl,hrest⟩ := h
    rw [List.map_cons, ih hrest, List.length_cons, List.range'_succ, List.map_cons, hl]
    push_cast
    rfl

theorem Placed.ascending {n : Nat} {parts : Parts} (h : Placed n parts) :
    (Assoc.keys parts).Pairwise (· < ·) := by
  induction parts generalizing n with
  | nil => exact List.Pairwise.nil
  | cons e parts ih =>
    obtain ⟨b,p⟩ := e
    obtain ⟨hb,hp,hrest⟩ := h
    have hpos := List.length_pos_of_ne_nil hp
    rw [Assoc.keys_cons]
    refine List.Pairwise.cons (fun c hc => ?_) (ih hrest)
    have hlt := (hrest.lt_key hc).1
    rw [Int64.lt_iff_toInt_lt]
    push_cast at hlt
    omega

theorem Arranged.ascending {parts : Parts} (h : Arranged parts) :
    (Assoc.keys parts).Pairwise (· < ·) := by
  obtain ⟨p,rest,rfl,hrest⟩ := h.placed
  rw [Assoc.keys_cons]
  refine List.Pairwise.cons (fun c hc => ?_) hrest.ascending
  have hlt := (hrest.lt_key hc).1
  have hz : (0 : Int64).toInt = 0 := rfl
  rw [Int64.lt_iff_toInt_lt]
  omega

section Topics

variable {t : Topic} {parts : Parts} {log : Log}

theorem Sequential.contiguous (h : Sequential t parts) : Contiguous t := by
  constructor
  · have hkeys := congrArg Assoc.keys h.layout.dir.logs
    rw [Assoc.keys_mapVal, Assoc.keys_mapVal] at hkeys
    rw [hkeys]
    exact h.arranged.ascending
  · rw [storedLogs_layout h.layout h.arranged.small, h.arranged.numbered.map_offset,
      Topic.getLastSeq, h.lastSeq]

theorem sequential_freshTopic (segmentMaxBytes : Int) :
    Sequential (freshTopic segmentMaxBytes) [(0,[])] := by
  refine ⟨layout_freshTopic segmentMaxBytes,⟨⟨[],[],rfl,trivial⟩,trivial,?_⟩,
    ⟨[],0,[],freshSegment 0,rfl,rfl,rfl⟩,rfl,?_,fun _ => ⟨_,rfl⟩⟩
  · intro l hl
    cases hl
  · intro m hm
    cases hm

theorem Sequential.alreadyAppended_next (h : Sequential t parts)
    (ho : log.offset.toInt = parts.flat.length + 1) (seq : UInt32) :
    ({ t with lastSeq := seq } : Topic).alreadyAppended log = false := by
  rw [Topic.alreadyAppended]
  split
  · rename_i m hm
    have hle := (h.memory m hm).2
    apply decide_eq_false
    rw [Int64.le_iff_toInt_le]
    omega
  · rfl

theorem appendLog_eq_active {s : Segment} (h : Layout t parts)
    (hs : t.objects[t.activeSegment]? = some s) (hm : t.alreadyAppended log = false) :
    (t.needRoll s = false ∧ Topic.appendLog log t = Topic.appendActive log (Topic.remember log t)) ∨
      ∃ s₀ dir, t.needRoll s = true ∧ s₀.baseOffset = log.offset ∧
        Layout (Topic.rolled log s₀ dir (Topic.remember log t)) (parts.opened log.offset) ∧
        Topic.appendLog log t =
          Topic.appendActive log (Topic.rolled log s₀ dir (Topic.remember log t)) := by
  cases hr : t.needRoll s with
  | false => exact Or.inl ⟨rfl,Topic.appendLog_stay hs hm hr⟩
  | true =>
    obtain ⟨s₀,dir,hopen,hd,hb,-,hi,-⟩ := h.dir.openSegment log.offset
    exact Or.inr ⟨s₀,dir,rfl,hb,(h.remember log).rolled hd hb hi,Topic.appendLog_roll hs hm hr hopen⟩

theorem Layout.appendActive_last {front : Parts} {b : Int64} {p : List Log} {s : Segment}
    (h : Layout t (front ++ [(b,p)])) (hs : t.objects[t.activeSegment]? = some s)
    (hb : s.baseOffset = b) (hfresh : b ∉ Assoc.keys front) (hl : log.data.length ≤ logMaxSize) :
    ∃ t' s', Topic.appendActive log t = (.ok log.wrap.length,t') ∧
      Layout t' (front ++ [(b,p ++ [log])]) ∧ t'.objects[t'.activeSegment]? = some s' ∧
      s'.baseOffset = b ∧ t'.lastSeq = t.lastSeq ∧ t'.lastMemLog = t.lastMemLog := by
  obtain ⟨s',files,happ,hbase,hlay⟩ := h.appendActive hs hl
  have hget : Assoc.get b (front ++ [(b,p)]) = some p := by
    have hsame : Assoc.put b p (front ++ [(b,p)]) = front ++ [(b,p)] := Assoc.put_last hfresh
    rw [← hsame]
    exact Assoc.get_put_self
  have hgrow : Parts.grow s.baseOffset log (front ++ [(b,p)]) = front ++ [(b,p ++ [log])] := by
    rw [Parts.grow, hb, hget, Option.getD_some, Assoc.put_last hfresh]
  rw [hgrow] at hlay
  refine ⟨_,s',happ,hlay,?_,hbase.trans hb,rfl,rfl⟩
  have hlt := (List.getElem?_eq_some_iff.mp hs).1
  simp [Topic.store, hlt]

theorem Sequential.appended {front : Parts} {b : Int64} {p : List Log} {s : Segment} {t' : Topic}
    (hlay : Layout t' (front ++ [(b,p ++ [log])])) (harr : Arranged (front ++ [(b,p ++ [log])]))
    (hs : t'.objects[t'.activeSegment]? = some s) (hb : s.baseOffset = b)
    (ho : log.offset.toInt = (Parts.flat (front ++ [(b,p)])).length + 1)
    (hlast : (t'.lastSeq.toNat : Int) = log.offset.toInt) (hmem : t'.lastMemLog = some log) :
    Sequential t' (front ++ [(b,p ++ [log])]) := by
  have hlen : (Parts.flat (front ++ [(b,p ++ [log])])).length =
      (Parts.flat (front ++ [(b,p)])).length + 1 := by
    simp [Parts.flat]
    omega
  refine ⟨hlay,harr,⟨front,b,_,s,rfl,hs,hb⟩,?_,?_,?_⟩
  · omega
  · intro m hm
    rw [hmem] at hm
    cases hm
    omega
  · intro hnone
    rw [hmem] at hnone
    cases hnone

theorem Sequential.send (h : Sequential t parts) (hroom : t.lastSeq.toNat + 1 < 2 ^ 32)
    {m : Message} (hseq : m.messageSeq = t.lastSeq + 1)
    (hfits : (marshalMessage m).length ≤ logMaxSize) :
    ∃ n t' parts', Topic.appendLog m.toLog t.nextOffset.2 = (.ok n,t') ∧ Sequential t' parts' ∧
      t'.lastSeq = t.lastSeq + 1 := by
  have hnext := lastSeq_next hroom
  have ho : m.toLog.offset.toInt = parts.flat.length + 1 := by
    rw [m.toInt_offset, hseq, hnext, h.lastSeq]
    push_cast
    rfl
  have hl : m.toLog.data.length ≤ logMaxSize := hfits
  have hlayout : Layout t.nextOffset.2 parts := ⟨h.layout.dir,h.layout.aligned,h.layout.active⟩
  have hremember : (Topic.remember m.toLog t.nextOffset.2).lastSeq = t.lastSeq + 1 := by
    rw [Topic.remember, m.seq_offset, hseq]
    exact ite_self _
  have hoffset : ((t.lastSeq + 1).toNat : Int) = m.toLog.offset.toInt := by
    rw [m.toInt_offset, hseq]
  have hm : t.nextOffset.2.alreadyAppended m.toLog = false := h.alreadyAppended_next ho (t.lastSeq + 1)
  obtain ⟨front,b,p,s,rfl,hs,hb⟩ := h.active
  rcases appendLog_eq_active hlayout hs hm with ⟨-,heq⟩ | ⟨s₀,dir,-,hb₀,hlay,heq⟩
  · obtain ⟨t',s',happ,hlay,hs',hb',hseq',hmem'⟩ := (hlayout.remember m.toLog).appendActive_last hs hb
      h.arranged.last_fresh hl
    refine ⟨_,t',front ++ [(b,p ++ [m.toLog])],heq.trans happ,?_,hseq'.trans hremember⟩
    exact Sequential.appended hlay (h.arranged.extend ho hl) hs' hb' ho
      (by rw [hseq', hremember, hoffset]) hmem'
  · have hfresh := h.arranged.next_fresh ho
    rw [Parts.opened, Assoc.get_eq_none_iff.mpr hfresh, Option.getD_none,
      Assoc.put_of_not_mem hfresh] at hlay
    obtain ⟨t',s',happ,hlay,hs',hb',hseq',hmem'⟩ := hlay.appendActive_last
      (by simp [Topic.rolled]) hb₀ hfresh hl
    refine ⟨_,t',front ++ [(b,p)] ++ [(m.toLog.offset,[m.toLog])],heq.trans happ,?_,
      hseq'.trans hremember⟩
    refine Sequential.appended hlay (h.arranged.roll ho hl) hs' hb' ?_
      (by rw [hseq']; exact (congrArg (fun n : UInt32 => (n.toNat : Int)) hremember).trans hoffset)
      hmem'
    rw [ho]
    simp [Parts.flat]

theorem sequential_unstored {p : List Log} {s : Segment} (hlay : Layout t [(0,p)])
    (harr : Arranged [(0,p)]) (hs : t.objects[t.activeSegment]? = some s) (hb : s.baseOffset = 0)
    (hlast : t.lastSeq.toNat = (Parts.flat [(0,p)]).length) (hmem : t.lastMemLog = some log)
    (ho : log.offset.toInt = 0) : Sequential t [(0,p)] := by
  refine ⟨hlay,harr,⟨[],0,p,s,rfl,hs,hb⟩,hlast,?_,fun _ => ⟨p,rfl⟩⟩
  intro m hm
  rw [hmem] at hm
  cases hm
  rw [ho]
  exact ⟨le_rfl,Int.natCast_nonneg _⟩

theorem Sequential.store_zero (h : Sequential t parts) {m : Message} (hseq : m.messageSeq = 0)
    (hskip : t.lastMemLog ≠ none ∨ logMaxSize < (marshalMessage m).length) :
    ∃ r t' parts', Topic.appendLog m.toLog t = (r,t') ∧ Sequential t' parts' := by
  have ho : m.toLog.offset.toInt = 0 := by
    rw [m.toInt_offset, hseq]
    rfl
  obtain ⟨front,b,p,s,hparts,hs,hb⟩ := h.active
  cases hmem : t.lastMemLog with
  | some l =>
    have hdone : t.alreadyAppended m.toLog = true := by
      rw [Topic.alreadyAppended, hmem]
      simp only [decide_eq_true_eq, Int64.le_iff_toInt_le]
      rw [ho]
      exact (h.memory l hmem).1
    exact ⟨_,t,parts,Topic.appendLog_skip hs hdone,h⟩
  | none =>
    have hlarge : logMaxSize < m.toLog.data.length := hskip.resolve_left (fun hne => hne hmem)
    obtain ⟨stored,rfl⟩ := h.unused hmem
    have hfresh : t.alreadyAppended m.toLog = false := by
      rw [Topic.alreadyAppended, hmem]
    have hzero : m.toLog.offset = 0 := Int64.toInt_inj.mp ho
    have hbase : s.baseOffset = 0 := by
      rw [hb]
      cases front with
      | nil =>
        cases hparts
        rfl
      | cons e front => simp at hparts
    have hlast : (Topic.remember m.toLog t).lastSeq.toNat = (Parts.flat [(0,stored)]).length := by
      rw [Topic.remember, m.seq_offset, hseq, if_neg (by simp)]
      exact h.lastSeq
    have hopened : Parts.opened 0 [(0,stored)] = [(0,stored)] := by
      simp [Parts.opened, Assoc.get, Assoc.put]
    have harr := h.arranged
    rcases appendLog_eq_active h.layout hs hfresh with ⟨-,heq⟩ | ⟨s₀,dir,-,hb₀,hlay,heq⟩
    · obtain ⟨e,he⟩ := Segment.appendLog_large s (Topic.files (Topic.remember m.toLog t) s) hlarge
      refine ⟨_,_,[(0,stored)],heq.trans (Topic.appendActive_error hs he),?_⟩
      exact sequential_unstored (h.layout.remember m.toLog) harr hs hbase hlast rfl ho
    · rw [hzero, hopened] at hlay
      obtain ⟨e,he⟩ := Segment.appendLog_large s₀
        (Topic.files (Topic.rolled m.toLog s₀ dir (Topic.remember m.toLog t)) s₀) hlarge
      have hs₀ : (Topic.rolled m.toLog s₀ dir (Topic.remember m.toLog t)).objects[(Topic.rolled
          m.toLog s₀ dir (Topic.remember m.toLog t)).activeSegment]? = some s₀ := by
        simp [Topic.rolled]
      refine ⟨_,_,[(0,stored)],heq.trans (Topic.appendActive_error hs₀ he),?_⟩
      exact sequential_unstored hlay harr hs₀ (hb₀.trans hzero) hlast rfl ho

structure Reopens (t : Topic) : Prop where
  segment : Assoc.keys t.dir.logs = [0]
  several : (storedLogs t).length ≠ 1
  recoverable : Segment.Recoverable (storedLogs t)

theorem reopens_of_small {x : Option Topic}
    (h : x.all (fun t => Assoc.keys t.dir.logs = [0] ∧ (storedLogs t).length ≠ 1 ∧
      (joined (storedLogs t)).length ≤ Segment.warmStart) = true) (t : Topic) (ht : x = some t) :
    Reopens t := by
  subst ht
  obtain ⟨hseg,hlen,hsmall⟩ := of_decide_eq_true h
  exact ⟨hseg,hlen,.full hsmall⟩

theorem Numbered.lastOffset {ls : List Log} (h : Numbered 0 ls) (hlt : ls.length < 2 ^ 32) :
    (lastOffset ls).toNat = ls.length := by
  rcases List.eq_nil_or_concat ls with rfl | ⟨init,l,rfl⟩
  · rfl
  · rw [List.concat_eq_append] at h hlt ⊢
    obtain ⟨-,hl,-⟩ := numbered_append.mp h
    have hoff := toNat_toUInt64 l.offset
    simp only [Db.lastOffset, List.getLast?_append, List.getLast?_singleton, Option.some_or]
    rw [UInt64.toNat_toUInt32, List.length_append, List.length_singleton]
    rw [List.length_append, List.length_singleton] at hlt
    omega

theorem Sequential.reopen (h : Sequential t parts) (hr : Reopens t) (segmentMaxBytes : Int) :
    ∃ t', newTopic t.close segmentMaxBytes = .ok t' ∧ Sequential t' parts := by
  have hkeys := congrArg Assoc.keys h.layout.dir.logs
  rw [Assoc.keys_mapVal, Assoc.keys_mapVal, hr.segment] at hkeys
  obtain ⟨p,rest,rfl,-⟩ := h.arranged.placed
  obtain rfl : rest = [] := by
    cases rest with
    | nil => rfl
    | cons e rest =>
      have hlength := congrArg List.length hkeys
      simp [Assoc.keys] at hlength
  have hflat : Parts.flat [(0,p)] = p := by simp [Parts.flat]
  have hstored := storedLogs_layout h.layout h.arranged.small
  rw [hflat] at hstored
  have hlen := h.lastSeq
  rw [hflat] at hlen
  have hsmall := h.arranged.small
  have hnum := h.arranged.numbered
  rw [hflat] at hsmall hnum
  obtain ⟨dir,sg,hnew,hlay⟩ := newTopic_single segmentMaxBytes h.layout.close hsmall
    (hstored ▸ hr.recoverable) (hstored ▸ hr.several)
  refine ⟨_,hnew,hlay,h.arranged,?_,?_,?_,fun _ => ⟨p,rfl⟩⟩
  · obtain ⟨s,ls,hs,hls⟩ := hlay.active
    have hb := Assoc.mem_keys_of_get hls
    exact ⟨[],0,p,s,rfl,hs,List.mem_singleton.mp hb⟩
  · rw [hflat]
    exact hnum.lastOffset (hlen ▸ t.lastSeq.toNat_lt)
  · intro m hm
    cases hm

end Topics

def Store.evict (slot : Nat) (topic : Bytes) : Exec Store Unit := fun st =>
  match Assoc.get (slot,topic) st.topics with
  | none => (.ok (),st)
  | some t =>
      match newTopic t.close st.segmentMaxBytes with
      | .ok t' => (.ok (),st.putTopic slot topic t')
      | .error e => (.error e,st)
      | .panic e => (.panic e,st)

def Store.topicAt (st : Store) (slot : Nat) (topic : Bytes) : Topic :=
  (Assoc.get (slot,topic) st.topics).getD (freshTopic st.segmentMaxBytes)

def ChannelTopic (db : FileDB) (slot : Nat) (topic : Bytes) : Prop :=
  ∃ channelID channelType, db.slotNumForChannel channelID channelType = .ok slot ∧
    topicName channelID channelType = topic

def ChannelsSequential (st : Store) : Prop :=
  ∀ slot topic, ChannelTopic st.db slot topic → ∃ parts, Sequential (st.topicAt slot topic) parts

def Message.Fits (m : Message) : Prop := (marshalMessage m).length ≤ logMaxSize

instance (m : Message) : Decidable m.Fits := inferInstanceAs (Decidable (_ ≤ _))

section Stores

variable {st : Store} {slot slot' : Nat} {topic topic' : Bytes} {t : Topic}

theorem Store.getTopic_eq (st : Store) (slot : Nat) (topic : Bytes) :
    st.getTopic slot topic = .ok (st.topicAt slot topic) := by
  rw [Store.getTopic, Store.topicAt]
  cases Assoc.get (slot,topic) st.topics with
  | none => rfl
  | some t => rfl

theorem Store.onTopic_eq {α : Type} (slot : Nat) (topic : Bytes) (x : Exec Topic α) (st : Store) :
    Store.onTopic slot topic x st = ((x (st.topicAt slot topic)).1,
      st.putTopic slot topic (x (st.topicAt slot topic)).2) :=
  Store.onTopic_ok (st.getTopic_eq slot topic)

@[simp] theorem Store.topicAt_putTopic_self : (st.putTopic slot topic t).topicAt slot topic = t := by
  simp [Store.topicAt, Store.putTopic]

theorem Store.topicAt_putTopic_ne (h : (slot',topic') ≠ (slot,topic)) :
    (st.putTopic slot topic t).topicAt slot' topic' = st.topicAt slot' topic' := by
  simp only [Store.topicAt, Store.putTopic, Assoc.get_put_ne h]

theorem Store.putTopic_putTopic {t' : Topic} :
    (st.putTopic slot topic t).putTopic slot topic t' = st.putTopic slot topic t' := by
  simp only [Store.putTopic, Assoc.put_put]

theorem ChannelsSequential.putTopic (h : ChannelsSequential st)
    (ht : ChannelTopic st.db slot topic → ∃ parts, Sequential t parts) :
    ChannelsSequential (st.putTopic slot topic t) := by
  intro slot' topic' hc
  rcases eq_or_ne (slot',topic') (slot,topic) with heq | hne
  · cases heq
    rw [Store.topicAt_putTopic_self]
    exact ht hc
  · rw [Store.topicAt_putTopic_ne hne]
    exact h slot' topic' hc

theorem channelsSequential_newStore (slotCount : Nat) (segmentMaxBytes : Int) :
    ChannelsSequential (newStore slotCount segmentMaxBytes) :=
  fun _ _ _ => ⟨_,sequential_freshTopic segmentMaxBytes⟩

theorem isBlank_topicName (channelID : Bytes) (channelType : UInt8) :
    Bytes.isBlank (topicName channelID channelType) = false := by
  rw [topicName]
  cases hd : Bytes.decimal channelType.toNat with
  | nil =>
    have hpos := Bytes.length_decimal_pos channelType.toNat
    rw [hd] at hpos
    cases hpos
  | cons b bs =>
    have hb := Bytes.mem_decimal (n := channelType.toNat) (b := b) (by rw [hd]; exact List.mem_cons_self)
    exact Bytes.isBlank_cons hb.1 hb.2 _

theorem Store.nextOffset_eq (slot : Nat) (topic : Bytes) (st : Store) :
    Store.nextOffset slot topic st = (.ok ((st.topicAt slot topic).lastSeq + 1),
      st.putTopic slot topic (st.topicAt slot topic).nextOffset.2) := by
  rw [Store.nextOffset, Store.onTopic_eq]
  rfl

theorem Store.appendMessageTo_next {n : Nat} {m : Message} {t' : Topic}
    (h : Topic.appendLog m.toLog (st.topicAt slot topic).nextOffset.2 = (.ok n,t')) :
    Store.appendMessageTo slot topic m
      (st.putTopic slot topic (st.topicAt slot topic).nextOffset.2) =
        (.ok n,st.putTopic slot topic t') := by
  rw [Store.appendMessageTo, Store.onTopic_eq, Store.topicAt_putTopic_self, h,
    Store.putTopic_putTopic]

section Channel

variable {m : Message} (h : ChannelsSequential st)
  (hslot : st.db.slotNumForChannel m.channelID m.channelType = .ok slot)
include h hslot

theorem ChannelsSequential.channel :
    ∃ parts, Sequential (st.topicAt slot (topicName m.channelID m.channelType)) parts :=
  h _ _ ⟨_,_,hslot,rfl⟩

theorem ChannelsSequential.channelSend
    (hroom : (st.topicAt slot (topicName m.channelID m.channelType)).lastSeq.toNat + 1 < 2 ^ 32)
    (hseq : m.messageSeq = (st.topicAt slot (topicName m.channelID m.channelType)).lastSeq + 1)
    (hfits : m.Fits) :
    ∃ st₁ n st₂, Store.getNextMessageSeq m.channelID m.channelType st = (.ok m.messageSeq,st₁) ∧
      Store.appendMessage m st₁ = (.ok n,st₂) ∧ ChannelsSequential st₂ := by
  obtain ⟨parts,hs⟩ := h.channel hslot
  obtain ⟨n,t',parts',happ,hs',-⟩ := hs.send hroom hseq hfits
  have hnext : Store.getNextMessageSeq m.channelID m.channelType st = (.ok m.messageSeq,
      st.putTopic slot (topicName m.channelID m.channelType)
        (st.topicAt slot (topicName m.channelID m.channelType)).nextOffset.2) := by
    rw [Store.getNextMessageSeq, Exec.get_bind, hslot, Exec.bind_of_ok (Exec.lift_apply _),
      Store.nextOffset_eq, hseq]
  have hdb : (st.putTopic slot (topicName m.channelID m.channelType)
      (st.topicAt slot (topicName m.channelID m.channelType)).nextOffset.2).db = st.db := rfl
  refine ⟨_,n,st.putTopic slot (topicName m.channelID m.channelType) t',hnext,?_,
    h.putTopic fun _ => ⟨parts',hs'⟩⟩
  rw [Store.appendMessage, Exec.get_bind, hdb, hslot, Exec.bind_of_ok (Exec.lift_apply _)]
  exact Store.appendMessageTo_next happ

end Channel

theorem ChannelsSequential.storeZero {m : Message} (h : ChannelsSequential st)
    (hseq : m.messageSeq = 0)
    (hskip : ∀ slot, st.db.slotNumForChannel m.channelID m.channelType = .ok slot →
      (st.topicAt slot (topicName m.channelID m.channelType)).lastMemLog ≠ none ∨ ¬ m.Fits) :
    ChannelsSequential (Store.appendMessage m st).2 := by
  rw [Store.appendMessage, Exec.get_bind]
  cases hslot : st.db.slotNumForChannel m.channelID m.channelType with
  | ok slot =>
    obtain ⟨parts,hs⟩ := h.channel hslot
    obtain ⟨r,t',parts',happ,hs'⟩ :=
      hs.store_zero hseq ((hskip slot hslot).imp_right Nat.lt_of_not_le)
    rw [Exec.bind_of_ok (Exec.lift_apply _), Store.appendMessageTo, Store.onTopic_eq, happ]
    exact h.putTopic fun _ => ⟨parts',hs'⟩
  | error e =>
    rw [Exec.bind_of_error (Exec.lift_apply _)]
    exact h
  | panic e =>
    rw [Exec.bind_of_panic (Exec.lift_apply _)]
    exact h

theorem getNextMessageSeq_failed {id : Bytes} {ty : UInt8}
    (h : ∀ slot, st.db.slotNumForChannel id ty ≠ .ok slot) :
    ∃ r, Store.getNextMessageSeq id ty st = (r,st) ∧ ∀ seq, r ≠ .ok seq := by
  rw [Store.getNextMessageSeq, Exec.get_bind]
  exact Exec.lift_bind_failed h

theorem getUserNextMessageSeq_failed {uid : Bytes} (h : ∀ slot, st.db.slotNum uid ≠ .ok slot) :
    ∃ r, Store.getUserNextMessageSeq uid st = (r,st) ∧ ∀ seq, r ≠ .ok seq := by
  rw [Store.getUserNextMessageSeq, Exec.get_bind]
  exact Exec.lift_bind_failed h

theorem appendMessageOfUser_state {m : Message} (hslot : st.db.slotNum m.queueUID = .ok slot)
    (t : Topic) : ∃ r t', Store.appendMessageOfUser m (st.putTopic slot m.queueUID t) =
      (r,st.putTopic slot m.queueUID t') := by
  have hdb : (st.putTopic slot m.queueUID t).db = st.db := rfl
  rw [Store.appendMessageOfUser]
  split
  · exact ⟨_,t,rfl⟩
  · rw [Exec.get_bind, hdb, hslot, Exec.bind_of_ok (Exec.lift_apply _), Store.appendMessageTo,
      Store.onTopic_eq, Store.putTopic_putTopic]
    exact ⟨_,_,rfl⟩

theorem ChannelsSequential.userSend {m : Message} (h : ChannelsSequential st)
    (hslot : st.db.slotNum m.queueUID = .ok slot)
    (hseq : m.messageSeq = (st.topicAt slot m.queueUID).lastSeq + 1)
    (hfits : ChannelTopic st.db slot m.queueUID →
      m.Fits ∧ (st.topicAt slot m.queueUID).lastSeq.toNat + 1 < 2 ^ 32) :
    ∃ st₁ r t', Store.getUserNextMessageSeq m.queueUID st = (.ok m.messageSeq,st₁) ∧
      Store.appendMessageOfUser m st₁ = (r,st.putTopic slot m.queueUID t') ∧
      ChannelsSequential (st.putTopic slot m.queueUID t') ∧
      (ChannelTopic st.db slot m.queueUID → t'.lastSeq = m.messageSeq) := by
  have hnext : Store.getUserNextMessageSeq m.queueUID st = (.ok m.messageSeq,
      st.putTopic slot m.queueUID (st.topicAt slot m.queueUID).nextOffset.2) := by
    rw [Store.getUserNextMessageSeq, Exec.get_bind, hslot, Exec.bind_of_ok (Exec.lift_apply _),
      Store.nextOffset_eq, hseq]
  by_cases hc : ChannelTopic st.db slot m.queueUID
  · obtain ⟨parts,hs⟩ := h _ _ hc
    obtain ⟨hfit,hroom⟩ := hfits hc
    obtain ⟨n,t',parts',happ,hs',hlast⟩ := hs.send hroom hseq hfit
    refine ⟨_,.ok n,t',hnext,?_,h.putTopic fun _ => ⟨parts',hs'⟩,fun _ => hlast.trans hseq.symm⟩
    have hblank : Bytes.isBlank m.queueUID = false := by
      obtain ⟨id,ty,-,hname⟩ := hc
      rw [← hname]
      exact isBlank_topicName id ty
    have hdb : (st.putTopic slot m.queueUID (st.topicAt slot m.queueUID).nextOffset.2).db = st.db :=
      rfl
    rw [Store.appendMessageOfUser, hblank, if_neg (by decide), Exec.get_bind, hdb, hslot,
      Exec.bind_of_ok (Exec.lift_apply _)]
    exact Store.appendMessageTo_next happ
  · obtain ⟨r,t',happ⟩ := appendMessageOfUser_state hslot (st.topicAt slot m.queueUID).nextOffset.2
    exact ⟨_,r,t',hnext,happ,h.putTopic fun hc' => absurd hc' hc,fun hc' => absurd hc' hc⟩

theorem ChannelsSequential.evict (h : ChannelsSequential st)
    (hr : ∀ t, Assoc.get (slot,topic) st.topics = some t → ChannelTopic st.db slot topic → Reopens t) :
    ChannelsSequential (Store.evict slot topic st).2 := by
  rw [Store.evict]
  split
  · exact h
  · rename_i t ht
    have hkeep : ∀ t', newTopic t.close st.segmentMaxBytes = .ok t' →
        ChannelTopic st.db slot topic → ∃ parts, Sequential t' parts := by
      intro t' hnew hc
      obtain ⟨parts,hs⟩ := h slot topic hc
      rw [Store.topicAt, ht, Option.getD_some] at hs
      obtain ⟨t₁,hnew₁,hs₁⟩ := hs.reopen (hr t ht hc) st.segmentMaxBytes
      rw [hnew] at hnew₁
      cases hnew₁
      exact ⟨parts,hs₁⟩
    split
    · rename_i t' hnew
      exact h.putTopic (hkeep t' hnew)
    · exact h
    · exact h

theorem appendMessage_db (m : Message) (st : Store) : (Store.appendMessage m st).2.db = st.db := by
  rw [Store.appendMessage, Exec.get_bind]
  cases hslot : st.db.slotNumForChannel m.channelID m.channelType with
  | ok slot => rw [Exec.bind_of_ok (Exec.lift_apply _), Store.appendMessageTo, Store.onTopic_eq]; rfl
  | error e => rw [Exec.bind_of_error (Exec.lift_apply _)]
  | panic e => rw [Exec.bind_of_panic (Exec.lift_apply _)]

theorem appendMessageOfUser_db (m : Message) (st : Store) :
    (Store.appendMessageOfUser m st).2.db = st.db := by
  rw [Store.appendMessageOfUser]
  split
  · rfl
  · rw [Exec.get_bind]
    cases hslot : st.db.slotNum m.queueUID with
    | ok slot => rw [Exec.bind_of_ok (Exec.lift_apply _), Store.appendMessageTo, Store.onTopic_eq]; rfl
    | error e => rw [Exec.bind_of_error (Exec.lift_apply _)]
    | panic e => rw [Exec.bind_of_panic (Exec.lift_apply _)]

theorem evict_db (slot : Nat) (topic : Bytes) (st : Store) : (Store.evict slot topic st).2.db = st.db := by
  rw [Store.evict]
  split
  · rfl
  · split <;> rfl

end Stores
end LiMaoIM.Db

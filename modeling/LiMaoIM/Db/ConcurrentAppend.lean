import LiMaoIM.Foundation.Run
import LiMaoIM.Db.Message
import LiMaoIM.Db.TopicLayout

namespace LiMaoIM.Db

open Outcome

inductive SenderState where
  | idle
  | allocated (seq : UInt32)
  | done
deriving DecidableEq

structure Sends where
  topic : Topic
  senders : Nat → SenderState
  acked : List Log

inductive SendStep where
  | next (sender : Nat)
  | append (sender : Nat)
deriving DecidableEq

def Sends.initial (segmentMaxBytes : Int) : Sends :=
  ⟨freshTopic segmentMaxBytes,fun _ => .idle,[]⟩

def sendStep (msgs : Nat → Message) (s : Sends) : SendStep → Outcome Sends
  | .next i =>
      match s.senders i with
      | .idle =>
          let (seq,topic) := s.topic.nextOffset
          .ok ⟨topic,Function.update s.senders i (.allocated seq),s.acked⟩
      | _ => .ok s
  | .append i =>
      match s.senders i with
      | .allocated seq =>
          let log := ((msgs i).withSeq seq).toLog
          match Topic.appendLog log s.topic with
          | (.ok _,topic) => .ok ⟨topic,Function.update s.senders i .done,s.acked ++ [log]⟩
          | (.error _,topic) => .ok ⟨topic,Function.update s.senders i .done,s.acked⟩
          | (.panic e,_) => .panic e
      | _ => .ok s

def storedLogs (t : Topic) : List Log := t.dir.logs.flatMap fun e => records e.2.log

structure AllStored (s : Sends) : Prop where
  stored : s.acked.Perm (storedLogs s.topic)
  once : s.acked.Nodup

def InOrder (s : Sends) : SendStep → Prop
  | .next _ => True
  | .append i => ∀ seq, s.senders i = .allocated seq →
      ∀ l ∈ s.acked, l.offset < seq.toUInt64.toInt64

structure SendInv (s : Sends) : Prop where
  layout : ∃ parts, Layout s.topic parts ∧ s.acked.Perm parts.flat
  small : ∀ l ∈ s.acked, l.data.length ≤ logMaxSize
  once : s.acked.Nodup
  latest : ∀ l ∈ s.acked, ∃ m, s.topic.lastMemLog = some m ∧ l.offset ≤ m.offset
  recorded : ∀ m, s.topic.lastMemLog = some m → m ∈ s.acked

theorem storedLogs_layout {t : Topic} {parts : Parts} (h : Layout t parts)
    (hs : ∀ l ∈ parts.flat, l.data.length ≤ logMaxSize) : storedLogs t = parts.flat := by
  have hmap : storedLogs t =
      (Assoc.mapVal SegmentFiles.log t.dir.logs).flatMap fun e => records e.2 := by
    rw [storedLogs, Assoc.mapVal, List.flatMap_map]
  rw [hmap, h.dir.logs, Assoc.mapVal, List.flatMap_map, Parts.flat]
  apply List.flatMap_congr
  intro p hp
  exact records_joined fun l hl => hs l (List.mem_flatMap.mpr ⟨p,hp,hl⟩)

theorem SendInv.allStored {s : Sends} (h : SendInv s) : AllStored s := by
  obtain ⟨parts,hlay,hperm⟩ := h.layout
  refine ⟨?_,h.once⟩
  rw [storedLogs_layout hlay fun l hl => h.small l (hperm.mem_iff.mpr hl)]
  exact hperm

theorem sendInv_initial (segmentMaxBytes : Int) : SendInv (.initial segmentMaxBytes) := by
  refine ⟨⟨_,layout_freshTopic segmentMaxBytes,List.Perm.refl _⟩,?_,List.nodup_nil,?_,?_⟩
  · intro l hl
    cases hl
  · intro l hl
    cases hl
  · intro m hm
    cases hm

section Step

variable {msgs : Nat → Message} {s : Sends}

theorem SendInv.next (h : SendInv s) (seq : UInt32) (senders : Nat → SenderState) :
    SendInv ⟨{ s.topic with lastSeq := seq },senders,s.acked⟩ := by
  obtain ⟨parts,hlay,hperm⟩ := h.layout
  exact ⟨⟨parts,⟨hlay.dir,hlay.aligned,hlay.active⟩,hperm⟩,h.small,h.once,h.latest,h.recorded⟩

theorem SendInv.append (h : SendInv s) {log : Log} (hl : log.data.length ≤ logMaxSize)
    (hlt : ∀ l ∈ s.acked, l.offset < log.offset) (senders : Nat → SenderState) :
    ∃ n topic, Topic.appendLog log s.topic = (.ok n,topic) ∧
      SendInv ⟨topic,senders,s.acked ++ [log]⟩ := by
  obtain ⟨parts,hlay,hperm⟩ := h.layout
  have hm : s.topic.alreadyAppended log = false := by
    rw [Topic.alreadyAppended]
    cases hlast : s.topic.lastMemLog with
    | none => rfl
    | some m => simpa using hlt m (h.recorded m hlast)
  obtain ⟨b,parts₁,segments,t',htarget,happ,hsmall,-⟩ := hlay.appendLog hm
  obtain ⟨heq,hlay'⟩ := hsmall hl
  refine ⟨_,t',heq,⟨_,hlay',?_⟩,?_,?_,?_,?_⟩
  · have hg := (Parts.flat_grow b log parts₁).trans (htarget.flat_perm.append_right [log])
    exact (hperm.append_right [log]).trans hg.symm
  · intro l hmem
    rcases List.mem_append.mp hmem with hmem | hmem
    · exact h.small l hmem
    · rw [List.mem_singleton.mp hmem]
      exact hl
  · apply h.once.append (List.nodup_singleton log)
    intro x hx hx'
    rw [List.mem_singleton] at hx'
    subst hx'
    exact Int64.lt_irrefl (hlt x hx)
  · intro l hmem
    refine ⟨log,happ.lastMemLog,?_⟩
    rcases List.mem_append.mp hmem with hmem | hmem
    · exact Int64.le_of_lt (hlt l hmem)
    · rw [List.mem_singleton.mp hmem]
      exact Int64.le_refl _
  · intro m hlast
    rw [happ.lastMemLog] at hlast
    simp [Option.some.inj hlast]

theorem sendStep_inOrder (hmsgs : ∀ i, (marshalMessage (msgs i)).length ≤ logMaxSize) (a : SendStep)
    (h : SendInv s) (hc : InOrder s a) : ∃ s', sendStep msgs s a = .ok s' ∧ SendInv s' := by
  cases a with
  | next i =>
    cases hi : s.senders i with
    | idle => exact ⟨_,by simp only [sendStep, hi]; rfl,h.next _ _⟩
    | allocated seq => exact ⟨s,by simp only [sendStep, hi],h⟩
    | done => exact ⟨s,by simp only [sendStep, hi],h⟩
  | append i =>
    cases hi : s.senders i with
    | idle => exact ⟨s,by simp only [sendStep, hi],h⟩
    | done => exact ⟨s,by simp only [sendStep, hi],h⟩
    | allocated seq =>
      have hl : ((msgs i).withSeq seq).toLog.data.length ≤ logMaxSize := by
        rw [Message.toLog, length_marshalMessage_withSeq]
        exact hmsgs i
      obtain ⟨n,topic,heq,hinv⟩ := h.append hl (hc seq hi) (Function.update s.senders i .done)
      exact ⟨_,by simp only [sendStep, hi, heq],hinv⟩

theorem sendStep_outOfOrder {s' : Sends} (a : SendStep) (h : SendInv s) (hc : ¬ InOrder s a)
    (hstep : sendStep msgs s a = .ok s') : ¬ AllStored s' := by
  cases a with
  | next i => exact absurd trivial hc
  | append i =>
    simp only [InOrder, not_forall] at hc
    obtain ⟨seq,hi,l,hl,hnot⟩ := hc
    obtain ⟨m,hlast,hle⟩ := h.latest l hl
    have hm : s.topic.alreadyAppended ((msgs i).withSeq seq).toLog = true := by
      rw [Topic.alreadyAppended, hlast]
      exact decide_eq_true (Int64.le_trans (Int64.not_lt.mp hnot) hle)
    obtain ⟨parts,hlay,-⟩ := h.layout
    obtain ⟨g,ls,hs,-⟩ := hlay.active
    simp only [sendStep, hi, Topic.appendLog_skip hs hm, Outcome.ok.injEq] at hstep
    subst hstep
    rintro ⟨hstored,-⟩
    have h1 : (s.acked ++ [((msgs i).withSeq seq).toLog]).length = (storedLogs s.topic).length :=
      hstored.length_eq
    have h2 := h.allStored.stored.length_eq
    rw [List.length_append, List.length_singleton] at h1
    omega

end Step

theorem concurrent_sends_stored_iff (segmentMaxBytes : Int) (msgs : Nat → Message)
    (schedule : List SendStep) (hmsgs : ∀ i, (marshalMessage (msgs i)).length ≤ logMaxSize) :
    Run.Always (sendStep msgs) AllStored (.initial segmentMaxBytes) schedule ↔
      Run.Meets (sendStep msgs) InOrder (.initial segmentMaxBytes) schedule :=
  Run.always_iff_meets (fun _ h => h.allStored) (fun _ a h hc => sendStep_inOrder hmsgs a h hc)
    (fun _ a _ h hc hstep => sendStep_outOfOrder a h hc hstep) (sendInv_initial segmentMaxBytes)

def hello : Message :=
  ⟨0,0,0,0,7,0,[],0,Bytes.ofString "u1",[],Bytes.ofString "c1",2,Bytes.ofString "hello"⟩

theorem ordered_sends_stored :
    Run.Always (sendStep fun _ => hello) AllStored (.initial 1048576)
      [.next 0,.next 1,.append 0,.append 1] := by
  refine (concurrent_sends_stored_iff 1048576 (fun _ => hello) _ (fun _ => by decide)).mpr ?_
  refine ⟨trivial,fun s₁ h₁ => ⟨trivial,fun s₂ h₂ => ⟨?_,fun s₃ h₃ => ⟨?_,fun _ _ => trivial⟩⟩⟩⟩
  · cases h₁
    cases h₂
    intro seq _ l hl
    cases hl
  · cases h₁
    cases h₂
    cases h₃
    intro seq hseq l hl
    cases hseq
    rw [List.mem_singleton.mp hl]
    decide

theorem crossed_sends_lose_a_message :
    (∀ _ : Nat, (marshalMessage hello).length < logMaxSize) ∧
      ¬ Run.Always (sendStep fun _ => hello) AllStored (.initial 1048576)
        [.next 0,.next 1,.append 1,.append 0] := by
  refine ⟨fun _ => by decide,fun h => ?_⟩
  obtain ⟨s,hrun,hacked,hstored⟩ : ∃ s, Run.run (sendStep fun _ => hello) (.initial 1048576)
      [.next 0,.next 1,.append 1,.append 0] = .ok s ∧ s.acked.length = 2 ∧
        (storedLogs s.topic).length = 1 := ⟨_,rfl,rfl,by decide⟩
  have hlen := (h.last hrun).stored.length_eq
  omega

end LiMaoIM.Db

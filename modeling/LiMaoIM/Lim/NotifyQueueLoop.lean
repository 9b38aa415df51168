import LiMaoIM.Db.NotifyQueue
import LiMaoIM.Foundation.Run
import LiMaoIM.Lim.PersonChannel

namespace LiMaoIM.Lim

open Outcome Db

structure NotifyOptions where
  webhookOn : Bool
  isCluster : Bool
  messageNotifyMaxCount : Int

inductive NotifyStage where
  | scanning
  | posting (messages : List Db.Message)
  | removing (messages : List Db.Message)

structure NotifyNode where
  applied : Nat
  queue : NotifyQueue
  stage : NotifyStage

structure NotifyCluster where
  log : List NotifyCommand
  nodes : Nat → NotifyNode
  posts : List (List MessageResp × Option Nat)

namespace NotifyCluster

def initial : NotifyCluster := ⟨[],fun _ => ⟨0,.empty,.scanning⟩,[]⟩

def setNode (n : Nat) (node : NotifyNode) (s : NotifyCluster) : NotifyCluster :=
  { s with nodes := Function.update s.nodes n node }

def setStage (n : Nat) (stage : NotifyStage) (s : NotifyCluster) : NotifyCluster :=
  s.setNode n { s.nodes n with stage := stage }

def doCommand (cmd : NotifyCommand) (s : NotifyCluster) : NotifyCluster :=
  { s with log := s.log ++ [cmd] }

def applyNext (n : Nat) (s : NotifyCluster) : NotifyCluster :=
  match s.log[(s.nodes n).applied]? with
  | some cmd => s.setNode n
      { s.nodes n with
        applied := (s.nodes n).applied + 1
        queue := (s.nodes n).queue.apply cmd }
  | none => s

def scan (opts : NotifyOptions) (n : Nat) (isLeader : Bool) (s : NotifyCluster) : NotifyCluster :=
  if ¬ opts.webhookOn ∨ ¬ opts.isCluster ∨ ¬ isLeader then s
  else
    match (s.nodes n).queue.getMessagesOfNotifyQueue opts.messageNotifyMaxCount with
    | [] => s
    | messages => s.setStage n (.posting messages)

def post (n : Nat) (messages : List Db.Message) (status : Option Nat) (s : NotifyCluster) :
    NotifyCluster :=
  let s := { s with posts := s.posts ++ [(messages.map MessageResp.ofMessage,status)] }
  if status = some 200 then s.setStage n (.removing messages) else s.setStage n .scanning

def remove (n : Nat) (messages : List Db.Message) (proposed : Bool) (s : NotifyCluster) :
    NotifyCluster :=
  if proposed then (s.doCommand (.remove (messages.map (·.messageID)))).setStage n .scanning
  else s.setStage n .scanning

inductive Event where
  | append (m : Db.Message)
  | apply (n : Nat)
  | scan (n : Nat) (isLeader : Bool)
  | post (n : Nat) (status : Option Nat)
  | remove (n : Nat) (proposed : Bool)
  | restart (n : Nat)

def step (opts : NotifyOptions) (s : NotifyCluster) : Event → Outcome NotifyCluster
  | .append m => .ok (if opts.webhookOn then s.doCommand (.append m) else s)
  | .apply n => .ok (s.applyNext n)
  | .scan n isLeader =>
      match (s.nodes n).stage with
      | .scanning => .ok (s.scan opts n isLeader)
      | _ => .ok s
  | .post n status =>
      match (s.nodes n).stage with
      | .posting messages => .ok (s.post n messages status)
      | _ => .ok s
  | .remove n proposed =>
      match (s.nodes n).stage with
      | .removing messages => .ok (s.remove n messages proposed)
      | _ => .ok s
  | .restart n => .ok (s.setStage n .scanning)

def stored (s : NotifyCluster) : List NotifyCommand := s.log.map NotifyCommand.throughJSON

def pending (s : NotifyCluster) : List Db.Message := (NotifyQueue.replay s.log).messages

def Bounded (s : NotifyCluster) : Prop := (Outbox.accepted s.log).length < 2 ^ 64

instance (s : NotifyCluster) : Decidable s.Bounded := inferInstanceAs (Decidable (_ < _))

def Distinct (s : NotifyCluster) : Prop :=
  ((Outbox.accepted s.log).map (·.messageID)).Nodup

def Answered (s : NotifyCluster) (m : Db.Message) : Prop :=
  ∃ body, (body,some 200) ∈ s.posts ∧ MessageResp.ofMessage m ∈ body

structure Fits (s : NotifyCluster) (node : NotifyNode) : Prop where
  replica : ∃ p, p <+: s.log ∧ p.length = node.applied ∧ node.queue = NotifyQueue.replay p
  posting : ∀ messages, node.stage = .posting messages →
    Outbox.Scanned Db.Message.messageID s.stored messages
  removing : ∀ messages, node.stage = .removing messages →
    Outbox.Scanned Db.Message.messageID s.stored messages ∧
      (messages.map MessageResp.ofMessage,some 200) ∈ s.posts

structure Good (s : NotifyCluster) : Prop where
  nodes : ∀ n, Fits s (s.nodes n)
  posts : ∀ body status, (body,status) ∈ s.posts → ∃ messages,
    Outbox.Scanned Db.Message.messageID s.stored messages ∧
      body = messages.map MessageResp.ofMessage
  removes : ∀ messageIDs, .remove messageIDs ∈ s.stored → ∃ messages : List Db.Message,
    messageIDs = messages.map (·.messageID) ∧
      (messages.map MessageResp.ofMessage,some 200) ∈ s.posts
  ordered : s.Distinct → ∀ p, p <+: s.stored → Outbox.InOrder Db.Message.messageID p
  answered : s.Distinct →
    ∀ m ∈ (Outbox.accepted s.stored).take (Outbox.removed Db.Message.messageID s.stored),
      s.Answered m

section Steps

variable {s s' : NotifyCluster} {n : Nat}

theorem good_initial : Good initial where
  nodes _ := ⟨⟨[],List.prefix_rfl,rfl,rfl⟩,fun _ h => (nomatch h),fun _ h => nomatch h⟩
  posts _ _ h := absurd h List.not_mem_nil
  removes _ h := absurd h List.not_mem_nil
  ordered _ p hp := by
    obtain rfl := List.prefix_nil.mp hp
    exact Outbox.inOrder_nil
  answered _ m hm := absurd hm (by simp [stored,initial,Outbox.accepted])

theorem Good.setNode (h : Good s) {node : NotifyNode} (hnode : Fits s node) :
    Good (s.setNode n node) where
  nodes k := by
    have hfits : Fits s ((s.setNode n node).nodes k) := by
      by_cases hk : k = n
      · subst hk
        simpa [NotifyCluster.setNode] using hnode
      · simpa [NotifyCluster.setNode,hk] using h.nodes k
    exact ⟨hfits.replica,hfits.posting,hfits.removing⟩
  posts := h.posts
  removes := h.removes
  ordered := h.ordered
  answered := h.answered

theorem Good.setStage (h : Good s) {stage : NotifyStage}
    (hposting : ∀ messages, stage = .posting messages →
      Outbox.Scanned Db.Message.messageID s.stored messages)
    (hremoving : ∀ messages, stage = .removing messages →
      Outbox.Scanned Db.Message.messageID s.stored messages ∧
        (messages.map MessageResp.ofMessage,some 200) ∈ s.posts) : Good (s.setStage n stage) :=
  h.setNode ⟨(h.nodes n).replica,hposting,hremoving⟩

theorem Good.idle (h : Good s) : Good (s.setStage n .scanning) :=
  h.setStage (fun _ heq => nomatch heq) fun _ heq => nomatch heq

theorem Good.applyNext (h : Good s) : Good (s.applyNext n) := by
  rw [NotifyCluster.applyNext]
  split
  · rename_i cmd hcmd
    obtain ⟨p,hp,hlen,hqueue⟩ := (h.nodes n).replica
    refine h.setNode ⟨⟨p ++ [cmd],?_,by simp [hlen],by simp [hqueue]⟩,(h.nodes n).posting,
      (h.nodes n).removing⟩
    obtain ⟨rest,hrest⟩ := hp
    rw [← hlen,← hrest,List.getElem?_append_right le_rfl,Nat.sub_self] at hcmd
    cases rest with
    | nil => cases hcmd
    | cons c rest =>
      obtain rfl : c = cmd := Option.some.inj hcmd
      exact ⟨rest,by simpa using hrest⟩
  · exact h

theorem scanned_replica (h : Good s) (hbound : s.Bounded) (count : Int) :
    Outbox.Scanned Db.Message.messageID s.stored
      ((s.nodes n).queue.getMessagesOfNotifyQueue count) := by
  obtain ⟨p,hp,-,hqueue⟩ := (h.nodes n).replica
  have hlen : (Outbox.accepted p).length < 2 ^ 64 :=
    Nat.lt_of_le_of_lt (Outbox.accepted_mono hp).length_le hbound
  refine ⟨p.map NotifyCommand.throughJSON,hp.map _,?_⟩
  rw [hqueue,NotifyQueue.getMessagesOfNotifyQueue_eq,(NotifyQueue.messages_replay hlen).1]
  exact List.take_prefix _ _

theorem Good.scan (h : Good s) (hbound : s.Bounded) (opts : NotifyOptions) (isLeader : Bool) :
    Good (s.scan opts n isLeader) := by
  have hscanned := scanned_replica (n := n) h hbound opts.messageNotifyMaxCount
  rw [NotifyCluster.scan]
  split
  · exact h
  · split
    · exact h
    · refine h.setStage (fun messages heq => ?_) fun _ heq => nomatch heq
      obtain rfl := NotifyStage.posting.inj heq
      exact hscanned

theorem Good.record (h : Good s) {messages : List Db.Message}
    (hscanned : Outbox.Scanned Db.Message.messageID s.stored messages) (status : Option Nat) :
    Good { s with posts := s.posts ++ [(messages.map MessageResp.ofMessage,status)] } where
  nodes k := ⟨(h.nodes k).replica,(h.nodes k).posting,fun batch hstage =>
    ((h.nodes k).removing batch hstage).imp_right (List.mem_append_left _)⟩
  posts body st hmem := by
    rcases List.mem_append.mp hmem with hold | hnew
    · exact h.posts body st hold
    · obtain ⟨rfl,-⟩ := Prod.mk.inj (List.mem_singleton.mp hnew)
      exact ⟨messages,hscanned,rfl⟩
  removes messageIDs hmem := by
    obtain ⟨batch,heq,hposted⟩ := h.removes messageIDs hmem
    exact ⟨batch,heq,List.mem_append_left _ hposted⟩
  ordered := h.ordered
  answered hdistinct m hm := by
    obtain ⟨body,hposted,hbody⟩ := h.answered hdistinct m hm
    exact ⟨body,List.mem_append_left _ hposted,hbody⟩

theorem Good.post (h : Good s) {messages : List Db.Message}
    (hscanned : Outbox.Scanned Db.Message.messageID s.stored messages) (status : Option Nat) :
    Good (s.post n messages status) := by
  have hrecord := h.record hscanned status
  rw [NotifyCluster.post]
  split
  · rename_i hok
    subst hok
    refine hrecord.setStage (fun _ heq => nomatch heq) fun batch heq => ?_
    obtain rfl := NotifyStage.removing.inj heq
    exact ⟨hscanned,List.mem_append_right _ (List.mem_singleton_self _)⟩
  · exact hrecord.idle

theorem stored_doCommand (cmd : NotifyCommand) (s : NotifyCluster) :
    (s.doCommand cmd).stored = s.stored ++ [cmd.throughJSON] := by
  simp [stored,doCommand]

theorem distinct_stored (h : s.Distinct) :
    ((Outbox.accepted s.stored).map (·.messageID)).Nodup := by
  have hids : (Outbox.accepted s.stored).map (·.messageID) =
      (Outbox.accepted s.log).map (·.messageID) := by
    simp [stored,accepted_throughJSON,Message.throughJSON,Function.comp_def]
  rwa [hids]

theorem Distinct.before {cmd : NotifyCommand} (h : (s.doCommand cmd).Distinct) : s.Distinct := by
  have hlonger : Outbox.accepted s.log <+: Outbox.accepted (s.log ++ [cmd]) :=
    Outbox.accepted_mono (List.prefix_append _ _)
  exact h.sublist (hlonger.sublist.map _)

theorem Fits.doCommand {node : NotifyNode} (h : Fits s node) (cmd : NotifyCommand) :
    Fits (s.doCommand cmd) node := by
  have hgrown : s.stored <+: (s.doCommand cmd).stored := by
    rw [stored_doCommand]
    exact List.prefix_append _ _
  obtain ⟨p,hp,hrest⟩ := h.replica
  exact ⟨⟨p,hp.trans (List.prefix_append _ _),hrest⟩,
    fun messages hstage => (h.posting messages hstage).mono hgrown,
    fun messages hstage => (h.removing messages hstage).imp_left (·.mono hgrown)⟩

theorem Good.grow (h : Good s) (cmd : NotifyCommand)
    (hremoves : ∀ messageIDs, cmd.throughJSON = .remove messageIDs → ∃ messages : List Db.Message,
      messageIDs = messages.map (·.messageID) ∧
        (messages.map MessageResp.ofMessage,some 200) ∈ s.posts)
    (hordered : s.Distinct → Outbox.InOrder Db.Message.messageID (s.stored ++ [cmd.throughJSON]))
    (hanswered : s.Distinct → ∀ m ∈ (Outbox.accepted (s.stored ++ [cmd.throughJSON])).take
      (Outbox.removed Db.Message.messageID (s.stored ++ [cmd.throughJSON])), s.Answered m) :
    Good (s.doCommand cmd) where
  nodes k := (h.nodes k).doCommand cmd
  posts body status hmem := by
    obtain ⟨messages,hscanned,hbody⟩ := h.posts body status hmem
    refine ⟨messages,hscanned.mono ?_,hbody⟩
    rw [stored_doCommand]
    exact List.prefix_append _ _
  removes messageIDs hmem := by
    rw [stored_doCommand] at hmem
    rcases List.mem_append.mp hmem with hold | hnew
    · exact h.removes messageIDs hold
    · exact hremoves messageIDs (List.mem_singleton.mp hnew).symm
  ordered hdistinct p hp := by
    rw [stored_doCommand] at hp
    rcases List.prefix_concat_iff.mp hp with rfl | hearlier
    · exact hordered hdistinct.before
    · exact h.ordered hdistinct.before p hearlier
  answered hdistinct m hm := by
    rw [stored_doCommand] at hm
    exact hanswered hdistinct.before m hm

theorem Good.append (h : Good s) (m : Db.Message) : Good (s.doCommand (.append m)) := by
  refine h.grow (.append m) (fun _ heq => nomatch heq)
    (fun hdistinct => (h.ordered hdistinct _ List.prefix_rfl).append _) fun hdistinct x hx => ?_
  have hcount : Outbox.removed Db.Message.messageID s.stored ≤
      (Outbox.accepted s.stored).length := Nat.sub_le _ _
  simp only [NotifyCommand.throughJSON,Outbox.removed_append,Outbox.accepted_append] at hx
  rw [List.take_append_of_le_length hcount] at hx
  exact h.answered hdistinct x hx

theorem Good.remove (h : Good s) {messages : List Db.Message}
    (hscanned : Outbox.Scanned Db.Message.messageID s.stored messages)
    (hposted : (messages.map MessageResp.ofMessage,some 200) ∈ s.posts) :
    Good (s.doCommand (.remove (messages.map (·.messageID)))) := by
  obtain ⟨p,hp,hbatch⟩ := hscanned.earlier
  have hstep (hdistinct : s.Distinct) :=
    (h.ordered hdistinct _ List.prefix_rfl).remove (distinct_stored hdistinct) hp hbatch
      (h.ordered hdistinct p hp)
  refine h.grow _ (fun messageIDs heq => ⟨messages,?_,hposted⟩)
    (fun hdistinct => (hstep hdistinct).1) fun hdistinct m hm => ?_
  · cases heq
    rfl
  · have hcount := (hstep hdistinct).2
    simp only [NotifyCommand.throughJSON,hcount,Outbox.accepted_append,Outbox.accepted,
      List.append_nil] at hm
    rcases Outbox.mem_take_block (Outbox.removed_mono hp) hm with hold | hnew
    · exact h.answered hdistinct m hold
    · rw [← Outbox.Scanned.block hbatch hp (h.ordered hdistinct p hp)] at hnew
      exact ⟨_,hposted,List.mem_map_of_mem hnew⟩

theorem step_log {opts : NotifyOptions} {a : Event} (hs : s.step opts a = .ok s') :
    s.log <+: s'.log := by
  cases a with
  | append m =>
    obtain rfl := Outcome.ok.inj hs
    split
    · exact List.prefix_append _ _
    · exact List.prefix_rfl
  | apply n =>
    obtain rfl := Outcome.ok.inj hs
    rw [NotifyCluster.applyNext]
    split
    · exact List.prefix_rfl
    · exact List.prefix_rfl
  | scan n isLeader =>
    rw [step] at hs
    split at hs
    · obtain rfl := Outcome.ok.inj hs
      rw [NotifyCluster.scan]
      split
      · exact List.prefix_rfl
      · split
        · exact List.prefix_rfl
        · exact List.prefix_rfl
    · exact Outcome.ok.inj hs ▸ List.prefix_rfl
  | post n status =>
    rw [step] at hs
    split at hs
    · obtain rfl := Outcome.ok.inj hs
      rw [NotifyCluster.post]
      split
      · exact List.prefix_rfl
      · exact List.prefix_rfl
    · exact Outcome.ok.inj hs ▸ List.prefix_rfl
  | remove n proposed =>
    rw [step] at hs
    split at hs
    · obtain rfl := Outcome.ok.inj hs
      rw [NotifyCluster.remove]
      split
      · exact List.prefix_append _ _
      · exact List.prefix_rfl
    · exact Outcome.ok.inj hs ▸ List.prefix_rfl
  | restart n => exact Outcome.ok.inj hs ▸ List.prefix_rfl

theorem good_step {opts : NotifyOptions} {a : Event} (h : Good s) (hbound : s.Bounded)
    (hs : s.step opts a = .ok s') : Good s' := by
  cases a with
  | append m =>
    obtain rfl := Outcome.ok.inj hs
    split
    · exact h.append m
    · exact h
  | apply n => exact Outcome.ok.inj hs ▸ h.applyNext
  | scan n isLeader =>
    rw [step] at hs
    split at hs
    · exact Outcome.ok.inj hs ▸ h.scan hbound opts isLeader
    · exact Outcome.ok.inj hs ▸ h
  | post n status =>
    rw [step] at hs
    split at hs
    · rename_i messages hstage
      exact Outcome.ok.inj hs ▸ h.post ((h.nodes n).posting messages hstage) status
    · exact Outcome.ok.inj hs ▸ h
  | remove n proposed =>
    rw [step] at hs
    split at hs
    · rename_i messages hstage
      obtain ⟨hscanned,hposted⟩ := (h.nodes n).removing messages hstage
      obtain rfl := Outcome.ok.inj hs
      rw [NotifyCluster.remove]
      split
      · exact (h.remove hscanned hposted).idle
      · exact h.idle
    · exact Outcome.ok.inj hs ▸ h
  | restart n => exact Outcome.ok.inj hs ▸ h.idle

theorem pending_eq (h : s.Bounded) :
    s.pending = Outbox.replay Db.Message.messageID s.stored := (NotifyQueue.messages_replay h).1

structure Notified (s : NotifyCluster) : Prop where
  kept : ∀ m ∈ Outbox.accepted s.log, m.throughJSON ∈ s.pending ∨
    ∃ body, (body,some 200) ∈ s.posts ∧ ∃ r ∈ body, r.messageID = m.messageID
  inOrder : s.Distinct → ∃ finished waiting, Outbox.accepted s.log = finished ++ waiting ∧
    s.pending = waiting.map Message.throughJSON ∧ ∀ m ∈ finished, s.Answered m.throughJSON
  posted : s.Distinct → ∀ body status, (body,status) ∈ s.posts → ∃ before batch after,
    Outbox.accepted s.log = before ++ batch ++ after ∧
      body = batch.map fun m => MessageResp.ofMessage m.throughJSON

theorem Good.notified (h : Good s) (hbound : s.Bounded) : Notified s := by
  have hpending := pending_eq hbound
  have haccepted : Outbox.accepted s.stored = (Outbox.accepted s.log).map Message.throughJSON :=
    accepted_throughJSON s.log
  refine ⟨fun m hm => ?_,fun hdistinct => ?_,fun hdistinct body status hmem => ?_⟩
  · have hstored : m.throughJSON ∈ Outbox.accepted s.stored :=
      haccepted ▸ List.mem_map_of_mem hm
    have hkept : m.throughJSON ∈ Outbox.replay Message.messageID s.stored ∨
        ∃ ks, .remove ks ∈ s.stored ∧ m.throughJSON.messageID ∈ ks :=
      Outbox.kept_or_removed hstored
    rcases hkept with hin | ⟨ks,hks,hkey⟩
    · exact Or.inl (hpending ▸ hin)
    · obtain ⟨messages,rfl,hposted⟩ := h.removes ks hks
      obtain ⟨x,hx,hid⟩ := List.mem_map.mp hkey
      exact Or.inr ⟨_,hposted,_,List.mem_map_of_mem hx,hid⟩
  · have horder := h.ordered hdistinct _ List.prefix_rfl
    refine ⟨(Outbox.accepted s.log).take (Outbox.removed Db.Message.messageID s.stored),
      (Outbox.accepted s.log).drop (Outbox.removed Db.Message.messageID s.stored),
      (List.take_append_drop _ _).symm,?_,fun m hm => h.answered hdistinct _ ?_⟩
    · rw [hpending,horder,haccepted,List.map_drop]
    · rw [haccepted,← List.map_take]
      exact List.mem_map_of_mem hm
  · obtain ⟨messages,hscanned,rfl⟩ := h.posts body status hmem
    obtain ⟨p,hp,hbatch⟩ := hscanned.earlier
    have hblock := Outbox.Scanned.block hbatch hp (h.ordered hdistinct p hp)
    rw [haccepted,← List.map_drop,← List.map_take] at hblock
    refine ⟨(Outbox.accepted s.log).take (Outbox.removed Db.Message.messageID p),
      ((Outbox.accepted s.log).drop (Outbox.removed Db.Message.messageID p)).take messages.length,
      ((Outbox.accepted s.log).drop (Outbox.removed Db.Message.messageID p)).drop messages.length,
      ?_,?_⟩
    · rw [List.append_assoc,List.take_append_drop,List.take_append_drop]
    · rw [hblock]
      simp [Function.comp_def]

def noticedMessage (messageID : Int64) : Db.Message :=
  ⟨0x41,0,0,0,messageID,1,Bytes.ofString "n",1700000000,Bytes.ofString "u",[],Bytes.ofString "g",2,
    Bytes.ofString "hi"⟩

def leaderHandsOver : List Event :=
  [.append (noticedMessage 1),.append (noticedMessage 2),.apply 0,.apply 0,.scan 0 true,
    .post 0 (some 200),.apply 1,.scan 1 true,.append (noticedMessage 3),.post 1 (some 500),
    .remove 0 true,.apply 1,.scan 1 true,.post 1 (some 200),.remove 1 true]

end Steps

end NotifyCluster

end LiMaoIM.Lim

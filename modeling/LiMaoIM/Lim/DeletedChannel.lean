import LiMaoIM.Lim.ChannelApi

namespace LiMaoIM.Lim

open Outcome Db

structure Deleted (s : LiMao) (id : Bytes) (ty : UInt8) : Prop where
  channel : (s.getChannel id ty).1 = none
  messages : ∀ offset limit, (Store.getMessages id ty offset limit s.messages).1 = .ok []

structure Lifecycle where
  server : LiMao
  created : List (Bytes × UInt8)

def createdAfter (created : List (Bytes × UInt8)) : ChannelOp → Outcome Unit → List (Bytes × UInt8)
  | .create req, .ok () => (req.channelID,req.channelType) :: created
  | .delete id ty, .ok () => created.filter fun c => ¬ c = (id,ty)
  | _, _ => created

def lifecycleStep (s : Lifecycle) (op : ChannelOp) : Outcome Lifecycle :=
  .ok ⟨(op.handle s.server).2,createdAfter s.created op (op.handle s.server).1⟩

def Lifecycle.start (opts : ChannelOptions) (systemUIDs : List Bytes)
    (records : List ((Bytes × UInt8) × ChannelInfo)) (lists : ChannelLists) (messages : Store) :
    Lifecycle :=
  ⟨.start opts systemUIDs records lists messages,records.map Prod.fst⟩

def UncreatedDeleted (s : Lifecycle) : Prop :=
  ∀ id ty, isTmpChannel id = false → ty ≠ channelTypePerson → (id,ty) ∉ s.created →
    Deleted s.server id ty

theorem uncreated_never_deleted (opts : ChannelOptions) (systemUIDs : List Bytes)
    (records : List ((Bytes × UInt8) × ChannelInfo)) (lists : ChannelLists) (messages : Store)
    (ops : List ChannelOp) :
    Run.Always lifecycleStep
      (fun s => ∀ id ty, isTmpChannel id = false → ty ≠ channelTypePerson → (id,ty) ∉ s.created →
        ¬ Deleted s.server id ty)
      (.start opts systemUIDs records lists messages) ops := by
  have hnever : ∀ (s : LiMao) id ty, isTmpChannel id = false → ¬ Deleted s id ty := by
    intro s id ty ht hdel
    obtain ⟨s',hget,-⟩ := LiMao.getChannel_some ht s ty
    have hnone := hdel.channel
    rw [hget] at hnone
    cases hnone
  apply Run.always_of_step
  · exact fun s op _ => ⟨_,rfl,fun id ty ht _ _ => hnever _ id ty ht⟩
  · exact fun id ty ht _ _ => hnever _ id ty ht

def groupDeleted : List ChannelOp := [.create ⟨[0x67],2,[],[[0x61]]⟩,.delete [0x67] 2]

theorem deleted_group_returned :
    ¬ Run.Always lifecycleStep UncreatedDeleted
      (.start serverOptions [] [] (fun _ => []) (newStore 256 4096)) groupDeleted := by
  intro h
  obtain ⟨s,hrun,hc,hne⟩ : ∃ s, Run.run lifecycleStep
      (.start serverOptions [] [] (fun _ => []) (newStore 256 4096)) groupDeleted = .ok s ∧
        ([0x67],2) ∉ s.created ∧ (s.server.getChannel [0x67] 2).1 ≠ none :=
    ⟨_,rfl,by decide +kernel,by decide +kernel⟩
  exact hne (h.last hrun [0x67] 2 (by decide) (by decide) hc).channel

section Retained

variable {st st' : Store} {id : Bytes} {ty : UInt8}

structure SameTopics (st st' : Store) : Prop where
  db : st'.db = st.db
  topics : ∀ slot topic, st'.getTopic slot topic = st.getTopic slot topic

theorem SameTopics.rfl : SameTopics st st := ⟨Eq.refl _,fun _ _ => Eq.refl _⟩

theorem SameTopics.trans {st'' : Store} (h : SameTopics st st') (h' : SameTopics st' st'') :
    SameTopics st st'' :=
  ⟨h'.db.trans h.db,fun slot topic => (h'.topics slot topic).trans (h.topics slot topic)⟩

theorem SameTopics.getMessages (h : SameTopics st st') (id : Bytes) (ty : UInt8) (offset : UInt32)
    (limit : UInt64) : (Store.getMessages id ty offset limit st').1 =
      (Store.getMessages id ty offset limit st).1 := by
  simp only [Store.getMessages, Exec.get_bind]
  cases hslot : st.db.slotNumForChannel id ty with
  | ok slot =>
    rw [h.db, hslot, Exec.bind_of_ok (Exec.lift_apply _), Exec.bind_of_ok (Exec.lift_apply _)]
    simp only [Store.onTopic, h.topics]
    cases st.getTopic slot (topicName id ty) with
    | ok t => rfl
    | error e => rfl
    | panic e => rfl
  | error e => rw [h.db, hslot]; rfl
  | panic e => rw [h.db, hslot]; rfl

theorem sameTopics_deleteMessages (st : Store) (id : Bytes) (ty : UInt8) :
    SameTopics st (Store.deleteMessages id ty st).2 := by
  simp only [Store.deleteMessages, Exec.get_bind]
  cases st.db.slotNumForChannel id ty with
  | ok slot =>
    rw [Exec.bind_of_ok (Exec.lift_apply _)]
    simp only [Store.onTopic]
    cases htopic : st.getTopic slot (topicName id ty) with
    | ok t =>
      refine ⟨rfl,fun slot' topic' => ?_⟩
      rcases eq_or_ne (slot',topic') (slot,topicName id ty) with heq | hne
      · cases heq
        rw [htopic]
        exact Store.getTopic_putTopic_self
      · exact Store.getTopic_putTopic_ne hne
    | error e => exact SameTopics.rfl
    | panic e => exact SameTopics.rfl
  | error e => exact SameTopics.rfl
  | panic e => exact SameTopics.rfl

theorem messages_channelDelete (s : LiMao) (id : Bytes) (ty : UInt8) :
    (channelDelete id ty s).2.messages = (Store.deleteMessages id ty s.messages).2 := by
  rcases hrun : Store.deleteMessages id ty s.messages with ⟨r,m⟩
  have hon : onMessages (Store.deleteMessages id ty) (deleteChannelRecord id ty s) =
      (r,{ deleteChannelRecord id ty s with messages := m }) := by
    simp only [onMessages, deleteChannelRecord, hrun]
  rw [channelDelete, Exec.modify_bind]
  cases r with
  | ok u =>
    rw [Exec.bind_of_ok hon]
    rfl
  | error e => rw [Exec.bind_of_error hon]
  | panic e => rw [Exec.bind_of_panic hon]

theorem messages_accessListHandler (check : Outcome Unit) (req : AccessListReq)
    (store : ChannelLists → ChannelLists) (update : Channel → Channel) (s : LiMao) :
    (accessListHandler check req store update s).2.messages = s.messages := by
  rcases accessListHandler_cases check req store update s with heq | ⟨-,-,heq⟩ | ⟨-,c,s',-,hheld⟩
  · rw [heq]
  · rw [heq]
    rfl
  · exact hheld.messages

theorem messages_addSubscriber (req : SubscriberAddReq) (s : LiMao) :
    (addSubscriber req s).2.messages = s.messages := by
  by_cases hacc : req.Accepted
  · rcases addSubscriber_cases hacc s with ⟨-,heq⟩ | ⟨c,s',-,hheld,heq⟩
    · rw [heq]
    · have hexist : (req.existSubscribers c s').2.messages = s'.messages := by
        rw [SubscriberAddReq.existSubscribers]
        split
        · rfl
        · rfl
      have hnew : ∀ exist (r : LiMao), (req.storeNew exist r).messages = r.messages := by
        intro exist r
        simp only [SubscriberAddReq.storeNew]
        split
        · rfl
        · rfl
      rw [heq, hnew, hexist, hheld.messages]
  · rw [addSubscriber_rejected hacc]

theorem messages_removeSubscriber (req : SubscriberRemoveReq) (s : LiMao) :
    (removeSubscriber req s).2.messages = s.messages := by
  rcases removeSubscriber_cases req s with heq | ⟨-,heq⟩ | ⟨-,c,s',-,hheld,heq⟩
  · rw [heq]
  · rw [heq]
    rfl
  · rw [heq]
    exact hheld.messages

theorem messages_channelCreateOrUpdate (req : ChannelCreateReq) (s : LiMao) :
    (channelCreateOrUpdate req s).2.messages = s.messages := by
  rcases channelCreateOrUpdate_cases req s with heq | ⟨-,heq⟩
  · rw [heq]
  · rw [heq]
    rfl

theorem messages_getChannel (s : LiMao) (id : Bytes) (ty : UInt8) :
    (s.getChannel id ty).2.messages = s.messages := by
  rcases s.getChannel_cases id ty with ⟨-,hget⟩ | ⟨c,s',hget,hheld⟩
  · rw [hget]
  · rw [hget]
    exact hheld.messages

theorem sameTopics_handle (s : LiMao) (op : ChannelOp) :
    SameTopics s.messages (op.handle s).2.messages := by
  have hsame : ∀ {st : Store}, st = s.messages → SameTopics s.messages st := by
    rintro st rfl
    exact SameTopics.rfl
  cases op with
  | create req => exact hsame (messages_channelCreateOrUpdate req s)
  | addSubscriber req => exact hsame (messages_addSubscriber req s)
  | removeSubscriber req => exact hsame (messages_removeSubscriber req s)
  | delete id ty =>
    have hdel := sameTopics_deleteMessages s.messages id ty
    rw [← messages_channelDelete] at hdel
    exact hdel
  | blacklistAdd req => exact hsame (messages_accessListHandler _ req _ _ s)
  | blacklistSet req => exact hsame (messages_accessListHandler _ req _ _ s)
  | blacklistRemove req => exact hsame (messages_accessListHandler _ req _ _ s)
  | whitelistAdd req => exact hsame (messages_accessListHandler _ req _ _ s)
  | whitelistSet req => exact hsame (messages_accessListHandler _ req _ _ s)
  | whitelistRemove req => exact hsame (messages_accessListHandler _ req _ _ s)
  | get id ty => exact hsame (messages_getChannel s id ty)

theorem messages_survive_api (s : LiMao) (ops : List ChannelOp) :
    Run.Always apiStep (fun s' => ∀ id ty offset limit,
      (Store.getMessages id ty offset limit s'.messages).1 =
        (Store.getMessages id ty offset limit s.messages).1) s ops := by
  have hinv : Run.Always apiStep (fun s' => SameTopics s.messages s'.messages) s ops := by
    apply Run.always_of_step (fun s' op h => ⟨_,rfl,h.trans (sameTopics_handle s' op)⟩)
    exact SameTopics.rfl
  exact hinv.imp fun s' h id ty offset limit => h.getMessages id ty offset limit

end Retained
end LiMaoIM.Lim

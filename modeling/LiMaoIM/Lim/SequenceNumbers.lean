import LiMaoIM.Foundation.Run
import LiMaoIM.Db.Sequential
import LiMaoIM.Lim.Send

namespace LiMaoIM.Lim

open Outcome Proto

inductive SendOp where
  | packet (fromUID : Bytes) (fromDeviceFlag : DeviceFlag) (p : SendPacket) (input : SendInput)
  | request (req : MessageSendReq) (channelID : Bytes) (channelType : UInt8) (clientMsgNo : Bytes)
      (input : SendInput)
  | evict (slot : Nat) (topic : Bytes)

def SendOp.toTmpChannel : SendOp → Bool
  | .packet _ _ p _ => isTmpChannel p.channelID
  | .request _ channelID _ _ _ => isTmpChannel channelID
  | .evict _ _ => false

def SendOp.handle : SendOp → Exec Dispatch Unit
  | .packet fromUID fromDeviceFlag p input => do
      let _ ← handleSendPacketWithFrom fromUID fromDeviceFlag p input
      pure ()
  | .request req channelID channelType clientMsgNo input => do
      Exec.lift req.check
      sendMessageToChannel req channelID channelType clientMsgNo input
  | .evict slot topic => onStore (Db.Store.evict slot topic)

def dispatchStep (d : Dispatch) (op : SendOp) : Outcome Dispatch := .ok (op.handle d).2

def SequencesContiguous (d : Dispatch) : Prop :=
  ∀ channelID channelType slot t,
    d.lim.messages.db.slotNumForChannel channelID channelType = .ok slot →
    d.lim.messages.getTopic slot (Db.topicName channelID channelType) = .ok t → Db.Contiguous t

def FitsChannel (st : Db.Store) (m : Db.Message) : Prop :=
  (st.db.slotNumForChannel m.channelID m.channelType).All fun slot => m.Fits ∧
    (st.topicAt slot (Db.topicName m.channelID m.channelType)).lastSeq.toNat + 1 < 2 ^ 32

instance (st : Db.Store) (m : Db.Message) : Decidable (FitsChannel st m) :=
  inferInstanceAs (Decidable (Outcome.All _ _))

def LeavesChannel (st : Db.Store) (m : Db.Message) : Prop :=
  (st.db.slotNumForChannel m.channelID m.channelType).All fun slot =>
    (st.topicAt slot (Db.topicName m.channelID m.channelType)).lastMemLog ≠ none ∨ ¬ m.Fits

def FitsQueues (st : Db.Store) (m : Message) (subscribers : List Bytes) : Prop :=
  m.queued = true → ∀ uid ∈ subscribers, ∀ slot, st.db.slotNum uid = .ok slot →
    Db.ChannelTopic st.db slot uid → (queuedMessage m uid 0).Fits ∧
      (st.topicAt slot uid).lastSeq.toNat + subscribers.count uid < 2 ^ 32

def packetRecord (fromUID : Bytes) (flag : DeviceFlag) (p : SendPacket) (input : SendInput) :
    Db.Message :=
  storedMessage (sentMessage fromUID flag p input 0) (sendChannelID fromUID p)

def requestRecord (req : MessageSendReq) (id : Bytes) (ty : UInt8) (no : Bytes) (input : SendInput) :
    Db.Message :=
  storedMessage (requestedMessage req id ty no input 0) (requestedChannelID req id ty)

def KeepsContiguous (d : Dispatch) : SendOp → Prop
  | .packet fromUID flag p input => ∀ c, Passes d fromUID p c →
      (p.framer.noPersist = false → p.framer.syncOnce = false →
        FitsChannel d.lim.messages (packetRecord fromUID flag p input)) ∧
      FitsQueues d.lim.messages (sentMessage fromUID flag p input 0) (c.recipients [])
  | .request req id ty no input => req.check = .ok () →
      ∀ c, (d.lim.getChannel (requestedChannelID req id ty) ty).1 = some c →
        (req.header.syncOnce ≠ 1 →
          (req.header.noPersist = 0 → FitsChannel d.lim.messages (requestRecord req id ty no input)) ∧
          (req.header.noPersist ≠ 0 → req.header.noPersist ≠ 1 →
            LeavesChannel d.lim.messages (requestRecord req id ty no input))) ∧
        FitsQueues d.lim.messages (requestedMessage req id ty no input 0)
          (c.recipients (requestedMessage req id ty no input 0).subscribers)
  | .evict slot topic => ∀ t, Assoc.get (slot,topic) d.lim.messages.topics = some t →
      Db.ChannelTopic d.lim.messages.db slot topic → Db.Reopens t

theorem sequencesContiguous_of_sequential {d : Dispatch}
    (h : Db.ChannelsSequential d.lim.messages) : SequencesContiguous d := by
  intro id ty slot t hslot ht
  obtain ⟨parts,hs⟩ := h slot _ ⟨id,ty,hslot,rfl⟩
  rw [Db.Store.getTopic_eq] at ht
  cases ht
  exact hs.contiguous

section Queues

variable {st : Db.Store} {m : Message} {d : Dispatch}

theorem fits_queuedMessage {uid : Bytes} {seq : UInt32} :
    (queuedMessage m uid seq).Fits ↔ (queuedMessage m uid 0).Fits := by
  have heq : queuedMessage m uid seq = (queuedMessage m uid 0).withSeq seq := rfl
  rw [Db.Message.Fits, heq, Db.length_marshalMessage_withSeq]
  rfl

theorem storeToUserQueue_keeps (uid : Bytes) (h : Db.ChannelsSequential st)
    (hfits : ∀ slot, st.db.slotNum uid = .ok slot → Db.ChannelTopic st.db slot uid →
      (queuedMessage m uid 0).Fits ∧ (st.topicAt slot uid).lastSeq.toNat + 1 < 2 ^ 32) :
    Db.ChannelsSequential (storeToUserQueue m uid st).2 ∧ (storeToUserQueue m uid st).2.db = st.db ∧
      ∀ slot topic, Db.ChannelTopic st.db slot topic →
        ((storeToUserQueue m uid st).2.topicAt slot topic).lastSeq.toNat ≤
          (st.topicAt slot topic).lastSeq.toNat + if topic = uid then 1 else 0 := by
  by_cases hstuck : ∀ slot, st.db.slotNum uid ≠ .ok slot
  · obtain ⟨r,hrun,hr⟩ := Db.getUserNextMessageSeq_failed hstuck
    rw [storeToUserQueue, Exec.bind_of_failed hrun hr]
    exact ⟨h,rfl,fun _ _ _ => Nat.le_add_right _ _⟩
  · simp only [not_forall, not_not] at hstuck
    obtain ⟨slot,hslot⟩ := hstuck
    obtain ⟨st₁,r,t',hnext,happ,hseq,hlast⟩ := h.userSend (m := queuedMessage m uid
      ((st.topicAt slot uid).lastSeq + 1)) hslot rfl fun hc => by
        obtain ⟨hfit,hroom⟩ := hfits slot hslot hc
        exact ⟨fits_queuedMessage.mpr hfit,hroom⟩
    replace hnext : Db.Store.getUserNextMessageSeq uid st =
      (.ok ((st.topicAt slot uid).lastSeq + 1),st₁) := hnext
    have hrun : (storeToUserQueue m uid st).2 = st.putTopic slot uid t' := by
      rw [storeToUserQueue, Exec.bind_of_ok hnext]
      cases r with
      | ok n => rw [Exec.bind_of_ok happ]; rfl
      | error e => rw [Exec.bind_of_error happ]; rfl
      | panic e => rw [Exec.bind_of_panic happ]; rfl
    rw [hrun]
    refine ⟨hseq,rfl,fun slot' topic hc => ?_⟩
    rcases eq_or_ne (slot',topic) (slot,uid) with heq | hne
    · cases heq
      rw [Db.Store.topicAt_putTopic_self, if_pos rfl, hlast hc]
      exact (Db.lastSeq_next (hfits slot hslot hc).2).le
    · rw [Db.Store.topicAt_putTopic_ne hne]
      exact Nat.le_add_right _ _

theorem FitsQueues.tail {uid : Bytes} {subscribers : List Bytes} (hq : m.queued = true)
    (h : FitsQueues st m (uid :: subscribers)) {st' : Db.Store} (hdb : st'.db = st.db)
    (hbound : ∀ slot topic, Db.ChannelTopic st.db slot topic →
      (st'.topicAt slot topic).lastSeq.toNat ≤
        (st.topicAt slot topic).lastSeq.toNat + if topic = uid then 1 else 0) :
    FitsQueues st' m subscribers := by
  intro _ uid' hu slot hslot hc
  rw [hdb] at hslot hc
  obtain ⟨hfit,hroom⟩ := h hq uid' (List.mem_cons_of_mem _ hu) slot hslot hc
  refine ⟨hfit,?_⟩
  have hle := hbound slot uid' hc
  rw [List.count_cons] at hroom
  by_cases heq : uid' = uid
  · subst heq
    simp only [beq_self_eq_true] at hle hroom
    omega
  · rw [if_neg heq] at hle
    omega

theorem storeMessageToUserQueueIfNeed_keeps (subscribers : List Bytes) (seqs : List (Bytes × UInt32))
    (h : Db.ChannelsSequential d.lim.messages) (hfits : FitsQueues d.lim.messages m subscribers) :
    Db.ChannelsSequential
      (storeMessageToUserQueueIfNeed m subscribers seqs d).2.lim.messages := by
  induction subscribers generalizing d seqs with
  | nil => exact h
  | cons uid subscribers ih =>
    rw [storeMessageToUserQueueIfNeed]
    split
    · rename_i hq
      obtain ⟨hkeep,hdb,hbound⟩ := storeToUserQueue_keeps (m := m) uid h fun slot hslot hc => by
        obtain ⟨hfit,hroom⟩ := hfits hq uid List.mem_cons_self slot hslot hc
        rw [List.count_cons_self] at hroom
        exact ⟨hfit,by omega⟩
      have hrest := hfits.tail hq hdb hbound
      rcases hrun : storeToUserQueue m uid d.lim.messages with ⟨r,st'⟩
      rw [hrun] at hkeep hrest
      have hon : onStore (storeToUserQueue m uid) d =
          (r,{ d with lim := { d.lim with messages := st' } }) := by
        simp only [onStore, onServer, onMessages, hrun]
      cases r with
      | ok seq =>
        rw [Exec.bind_of_ok hon]
        exact ih _ hkeep hrest
      | error e =>
        rw [Exec.bind_of_error hon]
        exact hkeep
      | panic e =>
        rw [Exec.bind_of_panic hon]
        exact hkeep
    · rename_i hq
      rw [storeMessageToUserQueueIfNeed_skip (by simpa using hq)]
      exact h

theorem putMessage_keeps (c : Channel) (h : Db.ChannelsSequential d.lim.messages)
    (hfits : FitsQueues d.lim.messages m (c.recipients m.subscribers)) :
    Db.ChannelsSequential (putMessage c m d).2.lim.messages := by
  have hkeep := storeMessageToUserQueueIfNeed_keeps (c.recipients m.subscribers) [] h hfits
  rw [putMessage, Exec.ignoreError_state, handleLocalSubscribersMessage]
  rcases hrun : storeMessageToUserQueueIfNeed m (c.recipients m.subscribers) [] d with ⟨r,d'⟩
  rw [hrun] at hkeep
  cases r with
  | ok seqs =>
    rw [Exec.bind_of_ok hrun]
    exact hkeep
  | error e =>
    rw [Exec.bind_of_error hrun]
    exact hkeep
  | panic e =>
    rw [Exec.bind_of_panic hrun]
    exact hkeep

end Queues

section Channels

variable {d : Dispatch}

theorem onStore_of {α : Type} {x : Exec Db.Store α} {r : Outcome α} {st : Db.Store}
    (h : x d.lim.messages = (r,st)) :
    onStore x d = (r,{ d with lim := { d.lim with messages := st } }) := by
  simp only [onStore, onServer, onMessages, h]

theorem attempt_failed {α β : Type} {x : Exec Dispatch α} {f : Except String α → Exec Dispatch β}
    {r : Outcome α} (h : x d = (r,d)) (hr : ∀ a, r ≠ .ok a)
    (hf : ∀ e, (f (.error e) d).2 = d) : ((Exec.attempt x >>= f) d).2 = d := by
  cases r with
  | ok a => exact absurd rfl (hr a)
  | error e =>
    rw [Exec.bind_of_ok (Exec.attempt_of_error h)]
    exact hf e
  | panic e => rw [Exec.bind_of_panic (Exec.attempt_of_panic h)]

theorem append_keeps {β : Type} {m : Db.Message}
    (hkeep : Db.ChannelsSequential (Db.Store.appendMessage m d.lim.messages).2)
    {unstored : String → Exec Dispatch β} {rest : Exec Dispatch β}
    (hfail : ∀ e d', (unstored e d').2 = d')
    (hrest : ∀ d', Db.ChannelsSequential d'.lim.messages →
      Db.ChannelsSequential (rest d').2.lim.messages) :
    Db.ChannelsSequential ((do
      match ← Exec.attempt (onStore (Db.Store.appendMessage m)) with
      | .error e => unstored e
      | .ok _ => rest : Exec Dispatch β) d).2.lim.messages := by
  rcases hrun : Db.Store.appendMessage m d.lim.messages with ⟨r,st⟩
  rw [hrun] at hkeep
  cases r with
  | ok n =>
    rw [Exec.bind_of_ok (Exec.attempt_of_ok (onStore_of hrun))]
    exact hrest _ hkeep
  | error e =>
    rw [Exec.bind_of_ok (Exec.attempt_of_error (onStore_of hrun))]
    simp only [hfail]
    exact hkeep
  | panic e =>
    rw [Exec.bind_of_panic (Exec.attempt_of_panic (onStore_of hrun))]
    exact hkeep

theorem store_keeps {β : Type} (record : UInt32 → Db.Message) (alloc : Prop)
    (stored : UInt32 → Prop) [Decidable alloc] [DecidablePred stored]
    (hrecord : ∀ seq, record seq = (record 0).withSeq seq) (hsame : ∀ seq, stored seq ↔ stored 0)
    (h : Db.ChannelsSequential d.lim.messages)
    (halloc : alloc → stored 0 ∧ FitsChannel d.lim.messages (record 0))
    (hzero : ¬ alloc → stored 0 → LeavesChannel d.lim.messages (record 0))
    {unallocated : String → Exec Dispatch β} {unstored : UInt32 → String → Exec Dispatch β}
    {rest : UInt32 → Exec Dispatch β} (hun : ∀ e d', (unallocated e d').2 = d')
    (hfail : ∀ seq e d', (unstored seq e d').2 = d')
    (hrest : ∀ seq d', Db.ChannelsSequential d'.lim.messages → (¬ stored 0 → d' = d ∧ seq = 0) →
      Db.ChannelsSequential (rest seq d').2.lim.messages) :
    Db.ChannelsSequential ((do
      match ← Exec.attempt (if alloc then
          onStore (Db.Store.getNextMessageSeq (record 0).channelID (record 0).channelType)
        else pure 0) with
      | .error e => unallocated e
      | .ok seq =>
          match ← Exec.attempt (if stored seq then
              onStore (Db.Store.appendMessage (record seq))
            else pure 0) with
          | .error e => unstored seq e
          | .ok _ => rest seq : Exec Dispatch β) d).2.lim.messages := by
  by_cases ha : alloc
  · obtain ⟨hs,hfits⟩ := halloc ha
    rw [if_pos ha]
    by_cases hstuck : ∀ slot,
        d.lim.messages.db.slotNumForChannel (record 0).channelID (record 0).channelType ≠ .ok slot
    · obtain ⟨r,hrun,hr⟩ := Db.getNextMessageSeq_failed hstuck
      rw [attempt_failed (onStore_of hrun) hr fun e => hun e d]
      exact h
    · simp only [not_forall, not_not] at hstuck
      obtain ⟨slot,hslot⟩ := hstuck
      obtain ⟨hfit,hroom⟩ := Outcome.all_iff.mp hfits slot hslot
      obtain ⟨seq,hseq⟩ : ∃ seq, (d.lim.messages.topicAt slot (Db.topicName (record 0).channelID
          (record 0).channelType)).lastSeq + 1 = seq := ⟨_,rfl⟩
      have hfit' : (record seq).Fits := by
        rw [hrecord, Db.Message.Fits, Db.length_marshalMessage_withSeq]
        exact hfit
      rw [hrecord] at hfit'
      obtain ⟨st₁,n,st₂,hnext,happ,hkeep⟩ := h.channelSend (m := (record 0).withSeq seq) hslot hroom
        hseq.symm hfit'
      replace hnext : Db.Store.getNextMessageSeq (record 0).channelID (record 0).channelType
          d.lim.messages = (.ok seq,st₁) := hnext
      rw [← hrecord] at happ
      rw [Exec.bind_of_ok (Exec.attempt_of_ok (onStore_of hnext))]
      simp only [if_pos ((hsame seq).mpr hs)]
      rw [Exec.bind_of_ok (Exec.attempt_of_ok (onStore_of happ))]
      exact hrest _ _ hkeep fun hns => absurd hs hns
  · rw [if_neg ha, Exec.bind_of_ok (Exec.attempt_of_ok (Exec.pure_apply _))]
    by_cases hs : stored 0
    · have hkeep := h.storeZero (m := record 0) (by rw [hrecord]; rfl)
        (Outcome.all_iff.mp (hzero ha hs))
      simp only [if_pos hs]
      exact append_keeps hkeep (hfail 0) fun d' hd' => hrest 0 d' hd' fun hns => absurd hs hns
    · simp only [if_neg hs]
      rw [Exec.bind_of_ok (Exec.attempt_of_ok (Exec.pure_apply _))]
      exact hrest _ _ h fun _ => ⟨rfl,rfl⟩

theorem sendThrough_keeps {c : Channel} {fromUID : Bytes} {flag : DeviceFlag} {p : SendPacket}
    {input : SendInput} (h : Db.ChannelsSequential d.lim.messages)
    (hfits : p.framer.noPersist = false → p.framer.syncOnce = false →
      FitsChannel d.lim.messages (packetRecord fromUID flag p input))
    (hqueues : FitsQueues d.lim.messages (sentMessage fromUID flag p input 0) (c.recipients [])) :
    Db.ChannelsSequential (sendThrough c fromUID flag p input d).2.lim.messages := by
  have hstored : ∀ seq, (!p.framer.noPersist && !p.framer.syncOnce) = true →
      (sentMessage fromUID flag p input seq).queued = false := by
    intro seq hs
    simp only [Bool.and_eq_true, Bool.not_eq_true'] at hs
    simp [Message.queued, sentMessage, hs.2]
  rw [sendThrough]
  refine store_keeps (fun seq =>
      storedMessage (sentMessage fromUID flag p input seq) (sendChannelID fromUID p))
    ((!p.framer.noPersist && !p.framer.syncOnce) = true)
    (fun _ => (!p.framer.noPersist && !p.framer.syncOnce) = true)
    (fun _ => rfl) (fun _ => Iff.rfl) h (fun hs => ⟨hs,?_⟩) (fun hns hs => absurd hs hns) (fun _ _ => rfl)
    (fun _ _ _ => rfl) ?_
  · simp only [Bool.and_eq_true, Bool.not_eq_true'] at hs
    exact hfits hs.1 hs.2
  · intro seq d' h' hsame
    obtain ⟨queue,hnotify⟩ := notifyIfNeed_eq
      (storedMessage (sentMessage fromUID flag p input seq) (sendChannelID fromUID p)) d'
    rw [Exec.bind_of_ok hnotify, Exec.bind_pure_state]
    apply putMessage_keeps
    · exact h'
    · by_cases hs : (!p.framer.noPersist && !p.framer.syncOnce) = true
      · intro hq
        rw [hstored seq hs] at hq
        cases hq
      · obtain ⟨rfl,rfl⟩ := hsame hs
        exact hqueues

theorem requestThrough_keeps {c : Channel} {req : MessageSendReq} {id : Bytes} {ty : UInt8}
    {no : Bytes} {input : SendInput} (h : Db.ChannelsSequential d.lim.messages)
    (ht : isTmpChannel id = false)
    (hfits : req.header.syncOnce ≠ 1 →
      (req.header.noPersist = 0 → FitsChannel d.lim.messages (requestRecord req id ty no input)) ∧
      (req.header.noPersist ≠ 0 → req.header.noPersist ≠ 1 →
        LeavesChannel d.lim.messages (requestRecord req id ty no input)))
    (hqueues : FitsQueues d.lim.messages (requestedMessage req id ty no input 0)
      (c.recipients (requestedMessage req id ty no input 0).subscribers)) :
    Db.ChannelsSequential (requestThrough c req id ty no input d).2.lim.messages := by
  have hstored : ∀ seq, (!(requestedMessage req id ty no input seq).recvPacket.framer.noPersist &&
      !(requestedMessage req id ty no input seq).recvPacket.framer.syncOnce &&
        !isTmpChannel id) = true ↔ req.header.noPersist ≠ 1 ∧ req.header.syncOnce ≠ 1 := by
    intro seq
    simp [requestedMessage, intToBool, ht]
  rw [requestThrough]
  refine store_keeps (fun seq =>
      storedMessage (requestedMessage req id ty no input seq) (requestedChannelID req id ty))
    (req.header.noPersist = 0 ∧ req.header.syncOnce ≠ 1)
    (fun seq => (!(requestedMessage req id ty no input seq).recvPacket.framer.noPersist &&
      !(requestedMessage req id ty no input seq).recvPacket.framer.syncOnce &&
        !isTmpChannel id) = true)
    (fun _ => rfl) (fun seq => (hstored seq).trans (hstored 0).symm) h ?_ ?_ (fun _ _ => rfl)
    (fun _ _ _ => rfl) ?_
  · rintro ⟨hpersist,hsync⟩
    exact ⟨(hstored 0).mpr ⟨by omega,hsync⟩,(hfits hsync).1 hpersist⟩
  · intro hna hs
    obtain ⟨hpersist,hsync⟩ := (hstored 0).mp hs
    exact (hfits hsync).2 (fun hz => hna ⟨hz,hsync⟩) hpersist
  · intro seq d' h' hsame
    obtain ⟨queue,hnotify⟩ := notifyIfNeed_eq
      (storedMessage (requestedMessage req id ty no input seq) (requestedChannelID req id ty)) d'
    rw [Exec.bind_of_ok hnotify]
    apply putMessage_keeps
    · exact h'
    · by_cases hs : req.header.noPersist ≠ 1 ∧ req.header.syncOnce ≠ 1
      · intro hq
        simp [Message.queued, requestedMessage, intToBool, hs.2] at hq
      · obtain ⟨rfl,rfl⟩ := hsame fun hst => hs ((hstored 0).mp hst)
        exact hqueues

theorem packet_keeps {fromUID : Bytes} {flag : DeviceFlag} {p : SendPacket} {input : SendInput}
    (h : Db.ChannelsSequential d.lim.messages)
    (hc : KeepsContiguous d (.packet fromUID flag p input)) :
    Db.ChannelsSequential (handleSendPacketWithFrom fromUID flag p input d).2.lim.messages := by
  rcases handleSend_cases d fromUID flag p input with ⟨r,d',heq,hlook,-⟩ | ⟨c,d',heq,hlook,hpass⟩
  · rw [heq, hlook.messages]
    exact h
  · obtain ⟨hfits,hqueues⟩ := hc c hpass
    rw [heq]
    rw [← hlook.messages] at h hfits hqueues
    exact sendThrough_keeps h hfits hqueues

theorem request_keeps {req : MessageSendReq} {id : Bytes} {ty : UInt8} {no : Bytes}
    {input : SendInput} (h : Db.ChannelsSequential d.lim.messages) (ht : isTmpChannel id = false)
    (hcheck : req.check = .ok ()) (hc : KeepsContiguous d (.request req id ty no input)) :
    Db.ChannelsSequential (sendMessageToChannel req id ty no input d).2.lim.messages := by
  have hlook := looked_getChannel d (requestedChannelID req id ty) ty
  rw [sendMessageToChannel,
    Exec.bind_of_ok (onServer_getChannel d (requestedChannelID req id ty) ty)]
  cases hget : (d.lim.getChannel (requestedChannelID req id ty) ty).1 with
  | none =>
    rw [← hlook.messages] at h
    exact h
  | some c =>
    obtain ⟨hfits,hqueues⟩ := hc hcheck c hget
    rw [← hlook.messages] at h hfits hqueues
    exact requestThrough_keeps h ht hfits hqueues

theorem dispatchStep_keeps (d : Dispatch) (op : SendOp) (h : Db.ChannelsSequential d.lim.messages)
    (hc : op.toTmpChannel = false ∧ KeepsContiguous d op) :
    ∃ d', dispatchStep d op = .ok d' ∧ Db.ChannelsSequential d'.lim.messages := by
  refine ⟨_,rfl,?_⟩
  obtain ⟨ht,hc⟩ := hc
  cases op with
  | packet fromUID flag p input =>
    rw [SendOp.handle, Exec.bind_pure_state]
    exact packet_keeps h hc
  | request req id ty no input =>
    rw [SendOp.handle]
    cases hcheck : req.check with
    | ok u =>
      rw [Exec.bind_of_ok (Exec.lift_apply _)]
      exact request_keeps h ht hcheck hc
    | error e =>
      rw [Exec.bind_of_error (Exec.lift_apply _)]
      exact h
    | panic e =>
      rw [Exec.bind_of_panic (Exec.lift_apply _)]
      exact h
  | evict slot topic =>
    have hkeep := h.evict hc
    rcases hrun : Db.Store.evict slot topic d.lim.messages with ⟨r,st⟩
    rw [hrun] at hkeep
    rw [SendOp.handle, onStore_of hrun]
    exact hkeep

end Channels

def groupDispatch : Dispatch :=
  ⟨.start serverOptions [] [] (ChannelLists.add ⟨.subscribers,[0x67],2⟩ [[0x61]] fun _ => [])
    (Db.newStore 256 4096),false,[],[]⟩

def groupPacket : SendPacket :=
  { msgKey := [], clientSeq := 1, clientMsgNo := [0x6E], channelID := [0x67], channelType := 2,
    payload := [7] }

def groupRequest (noPersist : Int) : MessageSendReq :=
  ⟨⟨noPersist,0,0⟩,[0x6E],[],[0x67],2,[],[7]⟩

def sentThenRequested : List SendOp :=
  [.packet [0x61] 0 groupPacket ⟨1,0,[]⟩,.request (groupRequest 0) [0x67] 2 [0x6E] ⟨2,0,[]⟩,
    .evict (Db.slotOf 256 [0x67]) (Db.topicName [0x67] 2)]

end LiMaoIM.Lim

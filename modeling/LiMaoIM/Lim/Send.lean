import LiMaoIM.Lim.ChannelApi
import LiMaoIM.Lim.Connect

namespace LiMaoIM.Lim

open Outcome Proto

def reasonSubscriberNotExist : ReasonCode := 3

def reasonNotAllowSend : ReasonCode := 11

def deviceFlagSystem : DeviceFlag := 2

structure Message where
  recvPacket : RecvPacket
  toUID : Bytes
  subscribers : List Bytes
  fromDeviceFlag : DeviceFlag
  toClientID : Int64

structure Delivery where
  message : Message
  subscriberSeqMap : List (Bytes × UInt32)
  subscribers : List Bytes

structure Dispatch where
  lim : LiMao
  webhookOn : Bool
  notifyQueue : List Db.Message
  deliveryMsgPool : List Delivery

structure SendInput where
  messageID : Int64
  now : Int32
  uuid : Bytes

structure SendResult where
  messageID : Int64
  messageSeq : UInt32
  reasonCode : ReasonCode
  err : Option String
deriving DecidableEq

structure MessageHeader where
  noPersist : Int
  redDot : Int
  syncOnce : Int

structure MessageSendReq where
  header : MessageHeader
  clientMsgNo : Bytes
  fromUID : Bytes
  channelID : Bytes
  channelType : UInt8
  subscribers : List Bytes
  payload : Bytes

def MessageSendReq.check (m : MessageSendReq) : Outcome Unit :=
  if m.payload.length ≤ 0 then .error "payload不能为空！" else .ok ()

def intToBool (b : Int) : Bool := b = 1

def removeRepeatedElement (arr : List Bytes) : List Bytes := arr.dedup

def onServer {α : Type} (x : Exec LiMao α) : Exec Dispatch α := fun d =>
  ((x d.lim).1,{ d with lim := (x d.lim).2 })

def onStore {α : Type} (x : Exec Db.Store α) : Exec Dispatch α := onServer (onMessages x)

def appendMessageOfNotifyQueue (m : Db.Message) : Exec Dispatch Unit :=
  Exec.modify fun d => { d with notifyQueue := d.notifyQueue ++ [m] }

def startDeliveryMsg (m : Message) (subscriberSeqMap : List (Bytes × UInt32))
    (subscribers : List Bytes) : Exec Dispatch Unit :=
  Exec.modify fun d =>
    { d with deliveryMsgPool := d.deliveryMsgPool ++ [⟨m,subscriberSeqMap,subscribers⟩] }

def queuedChannelID (m : Message) : Bytes :=
  if m.recvPacket.channelType = channelTypePerson ∧ m.recvPacket.channelID = m.toUID then
    m.recvPacket.fromUID
  else m.recvPacket.channelID

def queuedFramer (m : Message) (subscriber : Bytes) : Framer :=
  if subscriber = m.recvPacket.fromUID then { m.recvPacket.framer with redDot := false }
  else m.recvPacket.framer

def queuedMessage (m : Message) (subscriber : Bytes) (seq : UInt32) : Db.Message where
  header := toFixHeaderUint8 (queuedFramer m subscriber).packetType (queuedFramer m subscriber)
  appliIndex := 0
  version := 0
  setting := m.recvPacket.setting.toUint8
  messageID := m.recvPacket.messageID
  messageSeq := seq
  clientMsgNo := m.recvPacket.clientMsgNo
  timestamp := m.recvPacket.timestamp
  fromUID := m.recvPacket.fromUID
  queueUID := subscriber
  channelID := queuedChannelID m
  channelType := m.recvPacket.channelType
  payload := m.recvPacket.payload

def Message.queued (m : Message) : Bool :=
  m.recvPacket.framer.syncOnce && !m.recvPacket.framer.noPersist

def storeToUserQueue (m : Message) (subscriber : Bytes) : Exec Db.Store UInt32 := do
  let seq ← Db.Store.getUserNextMessageSeq subscriber
  let _ ← Db.Store.appendMessageOfUser (queuedMessage m subscriber seq)
  pure seq

def storeMessageToUserQueueIfNeed (m : Message) :
    List Bytes → List (Bytes × UInt32) → Exec Dispatch (List (Bytes × UInt32))
  | [], subscriberSeqMap => pure subscriberSeqMap
  | subscriber :: subscribers, subscriberSeqMap =>
      if m.queued then do
        let seq ← onStore (storeToUserQueue m subscriber)
        storeMessageToUserQueueIfNeed m subscribers (Assoc.put subscriber seq subscriberSeqMap)
      else storeMessageToUserQueueIfNeed m subscribers subscriberSeqMap

def handleLocalSubscribersMessage (m : Message) (subscribers : List Bytes) : Exec Dispatch Unit := do
  let subscriberSeqMap ← storeMessageToUserQueueIfNeed m subscribers []
  startDeliveryMsg m subscriberSeqMap subscribers

def putMessage (c : Channel) (m : Message) : Exec Dispatch Unit :=
  Exec.ignoreError () (handleLocalSubscribersMessage m (c.recipients m.subscribers))

def storedMessage (m : Message) (channelID : Bytes) : Db.Message where
  header := toFixHeaderUint8 .recv m.recvPacket.framer
  appliIndex := 0
  version := 0
  setting := m.recvPacket.setting.toUint8
  messageID := m.recvPacket.messageID
  messageSeq := m.recvPacket.messageSeq
  clientMsgNo := m.recvPacket.clientMsgNo
  timestamp := m.recvPacket.timestamp
  fromUID := m.recvPacket.fromUID
  queueUID := []
  channelID := channelID
  channelType := m.recvPacket.channelType
  payload := m.recvPacket.payload

def notifyIfNeed (m : Db.Message) : Exec Dispatch Unit := do
  let d ← Exec.get
  if d.webhookOn then appendMessageOfNotifyQueue m else pure ()

def allowSendOfPersonChannel (fromUID toUID : Bytes) : Exec Dispatch Bool := do
  match ← onServer (getChannel fromUID channelTypePerson) with
  | some fromChannel => do
      let d ← Exec.get
      pure (fromChannel.allow d.lim.systemUIDs toUID)
  | none => pure false

def getSendChannel (fromUID channelID : Bytes) (channelType : UInt8) :
    Exec Dispatch (Option Channel × ReasonCode) := do
  match ← onServer (getChannel channelID channelType) with
  | none => pure (none,reasonError)
  | some channel => do
      let d ← Exec.get
      if d.lim.opts.testMode then pure (some channel,reasonSuccess)
      else if ¬ channel.allow d.lim.systemUIDs fromUID then pure (none,reasonNotAllowSend)
      else if channel.info.channelType ≠ channelTypePerson ∧ ¬ channel.isSubscriber fromUID then
        pure (none,reasonNotAllowSend)
      else pure (some channel,reasonSuccess)

def sentMessage (fromUID : Bytes) (fromDeviceFlag : DeviceFlag) (p : SendPacket) (input : SendInput)
    (messageSeq : UInt32) : Message where
  recvPacket :=
    { framer := { redDot := p.framer.redDot, syncOnce := p.framer.syncOnce,
                  noPersist := p.framer.noPersist }
      setting := p.setting
      msgKey := []
      messageID := input.messageID
      messageSeq := messageSeq
      clientMsgNo := p.clientMsgNo
      timestamp := input.now
      fromUID := fromUID
      channelID := p.channelID
      channelType := p.channelType
      payload := p.payload }
  toUID := []
  subscribers := []
  fromDeviceFlag := fromDeviceFlag
  toClientID := 0

def sendChannelID (fromUID : Bytes) (p : SendPacket) : Bytes :=
  if p.channelType = channelTypePerson then getFakeChannelIDWith fromUID p.channelID else p.channelID

def sendThrough (channel : Channel) (fromUID : Bytes) (fromDeviceFlag : DeviceFlag) (p : SendPacket)
    (input : SendInput) : Exec Dispatch SendResult := do
  let stored := !p.framer.noPersist && !p.framer.syncOnce
  match ← Exec.attempt (if stored then
      onStore (Db.Store.getNextMessageSeq (sendChannelID fromUID p) p.channelType)
    else pure 0) with
  | .error e => pure ⟨input.messageID,0,reasonError,some e⟩
  | .ok messageSeq =>
      let message := sentMessage fromUID fromDeviceFlag p input messageSeq
      let messageD := storedMessage message (sendChannelID fromUID p)
      match ← Exec.attempt (if stored then onStore (Db.Store.appendMessage messageD) else pure 0) with
      | .error e => pure ⟨input.messageID,messageSeq,reasonError,some e⟩
      | .ok _ => do
          notifyIfNeed messageD
          putMessage channel message
          pure ⟨input.messageID,messageSeq,reasonSuccess,none⟩

def allowSend (fromUID : Bytes) (p : SendPacket) : Exec Dispatch Bool :=
  if p.channelType = channelTypePerson then allowSendOfPersonChannel fromUID p.channelID
  else pure true

def handleSendPacketWithFrom (fromUID : Bytes) (fromDeviceFlag : DeviceFlag) (p : SendPacket)
    (input : SendInput) : Exec Dispatch SendResult := do
  let allow ← allowSend fromUID p
  if ¬ allow then pure ⟨0,0,reasonNotAllowSend,some "不允许发送!"⟩
  else
    match ← getSendChannel fromUID (sendChannelID fromUID p) p.channelType with
    | (none,_) => pure ⟨input.messageID,0,reasonSubscriberNotExist,none⟩
    | (some channel,_) => sendThrough channel fromUID fromDeviceFlag p input

def requestedMessage (req : MessageSendReq) (channelID : Bytes) (channelType : UInt8)
    (clientMsgNo : Bytes) (input : SendInput) (messageSeq : UInt32) : Message where
  recvPacket :=
    { framer := { redDot := intToBool req.header.redDot, syncOnce := intToBool req.header.syncOnce,
                  noPersist := intToBool req.header.noPersist }
      msgKey := []
      messageID := input.messageID
      messageSeq := messageSeq
      clientMsgNo := if Bytes.isBlank clientMsgNo then input.uuid else clientMsgNo
      timestamp := input.now
      fromUID := req.fromUID
      channelID := channelID
      channelType := channelType
      payload := req.payload }
  toUID := []
  subscribers := if 0 < req.subscribers.length then removeRepeatedElement req.subscribers
    else req.subscribers
  fromDeviceFlag := deviceFlagSystem
  toClientID := 0

def requestedChannelID (req : MessageSendReq) (channelID : Bytes) (channelType : UInt8) : Bytes :=
  if channelType = channelTypePerson ∧ req.fromUID ≠ [] then getFakeChannelIDWith req.fromUID channelID
  else channelID

def requestThrough (channel : Channel) (req : MessageSendReq) (channelID : Bytes)
    (channelType : UInt8) (clientMsgNo : Bytes) (input : SendInput) : Exec Dispatch Unit := do
  match ← Exec.attempt (if req.header.noPersist = 0 ∧ req.header.syncOnce ≠ 1 then
      onStore (Db.Store.getNextMessageSeq (requestedChannelID req channelID channelType) channelType)
    else pure 0) with
  | .error _ => Exec.lift (.error "获取频道消息序列号失败！")
  | .ok messageSeq =>
      let msg := requestedMessage req channelID channelType clientMsgNo input messageSeq
      let messageDBModel := storedMessage msg (requestedChannelID req channelID channelType)
      match ← Exec.attempt (if !msg.recvPacket.framer.noPersist && !msg.recvPacket.framer.syncOnce &&
          !isTmpChannel channelID then onStore (Db.Store.appendMessage messageDBModel) else pure 0) with
      | .error _ => Exec.lift (.error "Failed to save history message")
      | .ok _ => do
          notifyIfNeed messageDBModel
          putMessage channel msg

def sendMessageToChannel (req : MessageSendReq) (channelID : Bytes) (channelType : UInt8)
    (clientMsgNo : Bytes) (input : SendInput) : Exec Dispatch Unit := do
  match ← onServer (getChannel (requestedChannelID req channelID channelType) channelType) with
  | none => Exec.lift (.error "频道信息不存在！")
  | some channel => requestThrough channel req channelID channelType clientMsgNo input

structure Untouched (d d' : Dispatch) : Prop where
  messages : d'.lim.messages = d.lim.messages
  notifyQueue : d'.notifyQueue = d.notifyQueue
  deliveryMsgPool : d'.deliveryMsgPool = d.deliveryMsgPool

structure Looked (d d' : Dispatch) : Prop extends Untouched d d' where
  opts : d'.lim.opts = d.lim.opts
  systemUIDs : d'.lim.systemUIDs = d.lim.systemUIDs
  channels : ∀ id ty, (d'.lim.getChannel id ty).1 = (d.lim.getChannel id ty).1

section Effects

variable {d : Dispatch} {fromUID : Bytes} {p : SendPacket} {c : Channel}

theorem Looked.refl (d : Dispatch) : Looked d d := ⟨⟨rfl,rfl,rfl⟩,rfl,rfl,fun _ _ => rfl⟩

theorem Looked.trans {d d₁ d₂ : Dispatch} (h : Looked d d₁) (h' : Looked d₁ d₂) : Looked d d₂ :=
  ⟨⟨h'.messages.trans h.messages,h'.notifyQueue.trans h.notifyQueue,
    h'.deliveryMsgPool.trans h.deliveryMsgPool⟩,h'.opts.trans h.opts,
    h'.systemUIDs.trans h.systemUIDs,fun id ty => (h'.channels id ty).trans (h.channels id ty)⟩

theorem looked_getChannel (d : Dispatch) (id : Bytes) (ty : UInt8) :
    Looked d { d with lim := (d.lim.getChannel id ty).2 } := by
  have hstable := d.lim.getChannel_stable id ty
  rcases d.lim.getChannel_cases id ty with ⟨-,hget⟩ | ⟨c,s',hget,hheld⟩
  · rw [hget]
    exact Looked.refl d
  · rw [hget] at hstable ⊢
    exact ⟨⟨hheld.messages,rfl,rfl⟩,hheld.opts,hheld.systemUIDs,hstable⟩

theorem onServer_getChannel (d : Dispatch) (id : Bytes) (ty : UInt8) :
    onServer (getChannel id ty) d =
      (.ok (d.lim.getChannel id ty).1,{ d with lim := (d.lim.getChannel id ty).2 }) := rfl

structure Passes (d : Dispatch) (fromUID : Bytes) (p : SendPacket) (c : Channel) : Prop where
  own : p.channelType = channelTypePerson → ∃ own,
    (d.lim.getChannel fromUID channelTypePerson).1 = some own ∧
      own.allow d.lim.systemUIDs p.channelID = true
  channel : (d.lim.getChannel (sendChannelID fromUID p) p.channelType).1 = some c
  allow : d.lim.opts.testMode = false → c.allow d.lim.systemUIDs fromUID = true
  member : d.lim.opts.testMode = false → c.info.channelType ≠ channelTypePerson →
    c.isSubscriber fromUID = true

theorem allowSendOfPersonChannel_eq (d : Dispatch) (fromUID toUID : Bytes) :
    ∃ b d', allowSendOfPersonChannel fromUID toUID d = (.ok b,d') ∧ Looked d d' ∧
      (b = true ↔ ∃ own, (d.lim.getChannel fromUID channelTypePerson).1 = some own ∧
        own.allow d.lim.systemUIDs toUID = true) := by
  have hlook := looked_getChannel d fromUID channelTypePerson
  rw [allowSendOfPersonChannel, Exec.bind_of_ok (onServer_getChannel d fromUID channelTypePerson)]
  cases hget : (d.lim.getChannel fromUID channelTypePerson).1 with
  | none => exact ⟨false,_,rfl,hlook,by simp⟩
  | some own =>
    refine ⟨_,_,rfl,hlook,?_⟩
    rw [hlook.systemUIDs]
    simp

theorem allowSend_eq (d : Dispatch) (fromUID : Bytes) (p : SendPacket) :
    ∃ b d', allowSend fromUID p d = (.ok b,d') ∧ Looked d d' ∧
      (b = true ↔ (p.channelType = channelTypePerson → ∃ own,
        (d.lim.getChannel fromUID channelTypePerson).1 = some own ∧
          own.allow d.lim.systemUIDs p.channelID = true)) := by
  rw [allowSend]
  split
  · rename_i hty
    obtain ⟨b,d₁,hrun,hlook,hb⟩ := allowSendOfPersonChannel_eq d fromUID p.channelID
    exact ⟨b,d₁,hrun,hlook,hb.trans ⟨fun h _ => h,fun h => h hty⟩⟩
  · rename_i hty
    exact ⟨true,d,rfl,Looked.refl d,by simp [hty]⟩

theorem getSendChannel_eq (d : Dispatch) (fromUID id : Bytes) (ty : UInt8) :
    ∃ r d', getSendChannel fromUID id ty d = (.ok r,d') ∧ Looked d d' ∧
      ∀ c, r.1 = some c ↔ (d.lim.getChannel id ty).1 = some c ∧
        (d.lim.opts.testMode = false → c.allow d.lim.systemUIDs fromUID = true ∧
          (c.info.channelType ≠ channelTypePerson → c.isSubscriber fromUID = true)) := by
  have hlook := looked_getChannel d id ty
  have hopts : (d.lim.getChannel id ty).2.opts = d.lim.opts := hlook.opts
  have hsys : (d.lim.getChannel id ty).2.systemUIDs = d.lim.systemUIDs := hlook.systemUIDs
  rw [getSendChannel, Exec.bind_of_ok (onServer_getChannel d id ty)]
  cases hget : (d.lim.getChannel id ty).1 with
  | none => exact ⟨_,_,rfl,hlook,by simp⟩
  | some channel =>
    simp only [Exec.get_bind, hopts, hsys]
    split
    · rename_i htest
      exact ⟨_,_,rfl,hlook,fun c => by simp [htest]⟩
    · rename_i htest
      have hmode : d.lim.opts.testMode = false := by simpa using htest
      split
      · rename_i hallow
        refine ⟨_,_,rfl,hlook,fun c => ⟨fun h => by simp at h,?_⟩⟩
        rintro ⟨hc,hpass⟩
        cases hc
        exact absurd (hpass hmode).1 hallow
      · rename_i hallow
        split
        · rename_i hsub
          refine ⟨_,_,rfl,hlook,fun c => ⟨fun h => by simp at h,?_⟩⟩
          rintro ⟨hc,hpass⟩
          cases hc
          exact absurd ((hpass hmode).2 hsub.1) hsub.2
        · rename_i hsub
          refine ⟨_,_,rfl,hlook,fun c => ⟨?_,fun h => h.1⟩⟩
          intro h
          cases h
          exact ⟨rfl,fun _ => ⟨by simpa using hallow,fun hty => by simpa [hty] using hsub⟩⟩

theorem handleSend_cases (d : Dispatch) (fromUID : Bytes) (flag : DeviceFlag) (p : SendPacket)
    (input : SendInput) :
    (∃ r d', handleSendPacketWithFrom fromUID flag p input d = (.ok r,d') ∧ Looked d d' ∧
        ∀ c, ¬ Passes d fromUID p c) ∨
      ∃ c d', handleSendPacketWithFrom fromUID flag p input d = sendThrough c fromUID flag p input d' ∧
        Looked d d' ∧ Passes d fromUID p c := by
  obtain ⟨allow,d₁,hallow,hlook,hiff⟩ := allowSend_eq d fromUID p
  rw [handleSendPacketWithFrom, Exec.bind_of_ok hallow]
  cases allow with
  | false =>
    left
    refine ⟨_,d₁,rfl,hlook,fun c hpass => ?_⟩
    exact absurd (hiff.mpr hpass.own) (by decide)
  | true =>
    obtain ⟨⟨found,reason⟩,d₂,hrun,hlook₂,hfound⟩ :=
      getSendChannel_eq d₁ fromUID (sendChannelID fromUID p) p.channelType
    rw [hlook.channels, hlook.opts, hlook.systemUIDs] at hfound
    rw [if_neg (by simp), Exec.bind_of_ok hrun]
    cases found with
    | none =>
      left
      refine ⟨_,d₂,rfl,hlook.trans hlook₂,fun c hpass => ?_⟩
      have hnone := (hfound c).mpr ⟨hpass.channel,fun hmode => ⟨hpass.allow hmode,hpass.member hmode⟩⟩
      cases hnone
    | some c =>
      right
      obtain ⟨hc,hpass⟩ := (hfound c).mp rfl
      exact ⟨c,d₂,rfl,hlook.trans hlook₂,hiff.mp rfl,hc,fun hm => (hpass hm).1,fun hm => (hpass hm).2⟩

theorem storeMessageToUserQueueIfNeed_skip {m : Message} (h : m.queued = false)
    (subscribers : List Bytes) (seqs : List (Bytes × UInt32)) (d : Dispatch) :
    storeMessageToUserQueueIfNeed m subscribers seqs d = (.ok seqs,d) := by
  induction subscribers with
  | nil => rfl
  | cons subscriber subscribers ih =>
    rw [storeMessageToUserQueueIfNeed, if_neg (by simp [h])]
    exact ih

theorem putMessage_skip {m : Message} (h : m.queued = false) (c : Channel) (d : Dispatch) :
    putMessage c m d = (.ok (),{ d with
      deliveryMsgPool := d.deliveryMsgPool ++ [⟨m,[],c.recipients m.subscribers⟩] }) := by
  rw [putMessage, Exec.ignoreError, handleLocalSubscribersMessage,
    Exec.bind_of_ok (storeMessageToUserQueueIfNeed_skip h _ _ d)]
  rfl

theorem notifyIfNeed_eq (m : Db.Message) (d : Dispatch) : ∃ queue,
    notifyIfNeed m d = (.ok (),{ d with notifyQueue := queue }) := by
  rw [notifyIfNeed, Exec.get_bind]
  split
  · exact ⟨_,rfl⟩
  · exact ⟨d.notifyQueue,rfl⟩

end Effects
end LiMaoIM.Lim

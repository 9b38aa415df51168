import LiMaoIM.Lim.Send
import LiMaoIM.Util.Aes

namespace LiMaoIM.Lim

open Outcome Proto

def reasonMsgKeyError : ReasonCode := 8

def reasonPayloadDecodeError : ReasonCode := 9

structure SendServices (σ : Type) where
  getChannel : Bytes → UInt8 → Exec σ (Option Channel)
  testMode : σ → Bool
  systemUIDs : σ → List Bytes
  getNextMessageSeq : Bytes → UInt8 → Exec σ UInt32
  appendMessage : Db.Message → Exec σ Unit
  notifyIfNeed : Db.Message → Exec σ Unit
  putMessage : Channel → Message → Exec σ Unit

structure Handling (σ : Type) where
  services : σ
  outbound : List (Int64 × Bytes)

namespace SendServices

variable {σ : Type}

def allowSendOfPersonChannel (svc : SendServices σ) (fromUID toUID : Bytes) : Exec σ Bool := do
  match ← Exec.attempt (svc.getChannel fromUID channelTypePerson) with
  | .error _ => Exec.lift (.error "获取发送者的频道失败！")
  | .ok none => pure false
  | .ok (some fromChannel) => do
      let s ← Exec.get
      pure (fromChannel.allow (svc.systemUIDs s) toUID)

def allowSend (svc : SendServices σ) (fromUID : Bytes) (p : SendPacket) : Exec σ Bool :=
  if p.channelType = channelTypePerson then svc.allowSendOfPersonChannel fromUID p.channelID
  else pure true

def getSendChannel (svc : SendServices σ) (fromUID channelID : Bytes) (channelType : UInt8) :
    Exec σ (Option Channel × ReasonCode × Option String) := do
  match ← Exec.attempt (svc.getChannel channelID channelType) with
  | .error e => pure (none,reasonError,some e)
  | .ok none => pure (none,reasonError,none)
  | .ok (some channel) => do
      let s ← Exec.get
      if svc.testMode s then pure (some channel,reasonSuccess,none)
      else if ¬ channel.allow (svc.systemUIDs s) fromUID then pure (none,reasonNotAllowSend,none)
      else if channel.info.channelType ≠ channelTypePerson ∧ ¬ channel.isSubscriber fromUID then
        pure (none,reasonNotAllowSend,none)
      else pure (some channel,reasonSuccess,none)

def publish (svc : SendServices σ) (channel : Channel) (message : Message) (messageD : Db.Message)
    (messageID : Int64) (messageSeq : UInt32) : Exec σ SendResult := do
  match ← Exec.attempt (svc.notifyIfNeed messageD) with
  | .error e => pure ⟨messageID,messageSeq,reasonError,some e⟩
  | .ok _ =>
      match ← Exec.attempt (svc.putMessage channel message) with
      | .error e => pure ⟨messageID,messageSeq,reasonError,some e⟩
      | .ok _ => pure ⟨messageID,messageSeq,reasonSuccess,none⟩

def nextMessageSeq (svc : SendServices σ) (fromUID : Bytes) (p : SendPacket) : Exec σ UInt32 :=
  if !p.framer.noPersist && !p.framer.syncOnce then
    svc.getNextMessageSeq (sendChannelID fromUID p) p.channelType
  else pure 0

def storeMessage (svc : SendServices σ) (p : SendPacket) (messageD : Db.Message) : Exec σ Unit :=
  if !p.framer.noPersist && !p.framer.syncOnce then svc.appendMessage messageD else pure ()

def sendThrough (svc : SendServices σ) (channel : Channel) (fromUID : Bytes)
    (fromDeviceFlag : DeviceFlag) (p : SendPacket) (input : SendInput) : Exec σ SendResult := do
  match ← Exec.attempt (svc.nextMessageSeq fromUID p) with
  | .error e => pure ⟨input.messageID,0,reasonError,some e⟩
  | .ok messageSeq =>
      let message := sentMessage fromUID fromDeviceFlag p input messageSeq
      let messageD := storedMessage message (sendChannelID fromUID p)
      match ← Exec.attempt (svc.storeMessage p messageD) with
      | .error e => pure ⟨input.messageID,messageSeq,reasonError,some e⟩
      | .ok _ => svc.publish channel message messageD input.messageID messageSeq

def handleSendPacketWithFrom (svc : SendServices σ) (fromUID : Bytes) (fromDeviceFlag : DeviceFlag)
    (p : SendPacket) (input : SendInput) : Exec σ SendResult := do
  match ← Exec.attempt (svc.allowSend fromUID p) with
  | .error _ => pure ⟨0,0,reasonError,some "判断个人频道是否允许发送消息失败！"⟩
  | .ok false => pure ⟨0,0,reasonNotAllowSend,some "不允许发送!"⟩
  | .ok true =>
      match ← svc.getSendChannel fromUID (sendChannelID fromUID p) p.channelType with
      | (_,reasonCode,some e) => pure ⟨input.messageID,0,reasonCode,some e⟩
      | (none,_,none) => pure ⟨input.messageID,0,reasonSubscriberNotExist,none⟩
      | (some channel,_,none) => svc.sendThrough channel fromUID fromDeviceFlag p input

end SendServices

def sendVerityString (p : SendPacket) : Bytes :=
  Bytes.decimal p.clientSeq.toNat ++ p.clientMsgNo ++ p.channelID ++
    Bytes.decimal p.channelType.toNat ++ p.payload

def md5 (bs : Bytes) : Bytes := Md5.hexString (Md5.sum bs)

theorem length_md5 (bs : Bytes) : (md5 bs).length = 32 := by
  rw [md5, Md5.length_hexString, Md5.length_sum]

section HandleSend

variable {σ : Type}

def onServices {α : Type} (x : Exec σ α) : Exec (Handling σ) α := fun h =>
  ((x h.services).1,{ h with services := (x h.services).2 })

def writeSendack (c : Client) (version : UInt8) (p : SendPacket) (messageID : Int64)
    (messageSeq : UInt32) (reasonCode : ReasonCode) : Exec (Handling σ) Unit :=
  Exec.modify fun h =>
    { h with
      outbound := h.outbound ++ [(c.conn,encodePacket
        (.sendack ⟨{},messageID,messageSeq,p.clientSeq,p.clientMsgNo,reasonCode⟩) version)] }

def handleLocalSend (svc : SendServices σ) (c : Client) (version : UInt8) (p : SendPacket)
    (input : SendInput) : Exec (Handling σ) Unit := do
  let r ← onServices (svc.handleSendPacketWithFrom c.uid c.deviceFlag p input)
  writeSendack c version p r.messageID r.messageSeq r.reasonCode

def handleSend (svc : SendServices σ) (mode : Aes.BlockMode) (c : Client) (version : UInt8)
    (p : SendPacket) (messageID : Int64) (input : SendInput) : Exec (Handling σ) Unit :=
  if 2 < version then
    match Util.aesEncryptPkcs7Base64 mode (sendVerityString p) c.aesKey c.aesIV with
    | .panic e => Exec.lift (.panic e)
    | .error _ => writeSendack c version p messageID 0 reasonMsgKeyError
    | .ok actMsgKey =>
        if p.msgKey ≠ md5 actMsgKey then writeSendack c version p messageID 0 reasonMsgKeyError
        else
          match Util.aesDecryptPkcs7Base64 mode p.payload c.aesKey c.aesIV with
          | .panic e => Exec.lift (.panic e)
          | .error _ => writeSendack c version p messageID 0 reasonPayloadDecodeError
          | .ok decodePayload =>
              handleLocalSend svc c version { p with payload := decodePayload } input
  else handleLocalSend svc c version p input

end HandleSend

namespace SendServices

variable {σ : Type} {svc : SendServices σ}

open Exec

structure Returns (svc : SendServices σ) : Prop where
  getChannel : ∀ id ty, (svc.getChannel id ty).Returns
  getNextMessageSeq : ∀ id ty, (svc.getNextMessageSeq id ty).Returns
  appendMessage : ∀ m, (svc.appendMessage m).Returns
  notifyIfNeed : ∀ m, (svc.notifyIfNeed m).Returns
  putMessage : ∀ c m, (svc.putMessage c m).Returns

theorem Returns.allowSend (hs : svc.Returns) (fromUID : Bytes) (p : SendPacket) :
    (svc.allowSend fromUID p).Returns := by
  rw [SendServices.allowSend]
  split
  · refine (hs.getChannel fromUID channelTypePerson).attempt.returns.bind fun found => ?_
    rcases found with e | _ | channel
    · exact Exec.Returns.error _
    · exact (Succeeds.pure _).returns
    · exact (Succeeds.get.bind fun s => Succeeds.pure _).returns
  · exact (Succeeds.pure true).returns

theorem Returns.getSendChannel (hs : svc.Returns) (fromUID id : Bytes) (ty : UInt8) :
    Succeeds (svc.getSendChannel fromUID id ty) := by
  refine (hs.getChannel id ty).attempt.bind fun found => ?_
  rcases found with e | _ | channel
  · exact Succeeds.pure _
  · exact Succeeds.pure _
  · refine Succeeds.get.bind fun s => ?_
    split
    · exact Succeeds.pure _
    · split
      · exact Succeeds.pure _
      · split
        · exact Succeeds.pure _
        · exact Succeeds.pure _

theorem Returns.publish (hs : svc.Returns) (channel : Channel) (message : Message)
    (messageD : Db.Message) (messageID : Int64) (messageSeq : UInt32) :
    Succeeds (svc.publish channel message messageD messageID messageSeq) := by
  refine (hs.notifyIfNeed messageD).attempt.bind fun notified => ?_
  rcases notified with e | _
  · exact Succeeds.pure _
  · refine (hs.putMessage channel message).attempt.bind fun put => ?_
    rcases put with e | _
    · exact Succeeds.pure _
    · exact Succeeds.pure _

theorem Returns.nextMessageSeq (hs : svc.Returns) (fromUID : Bytes) (p : SendPacket) :
    (svc.nextMessageSeq fromUID p).Returns := by
  rw [SendServices.nextMessageSeq]
  split
  · exact hs.getNextMessageSeq _ _
  · exact (Succeeds.pure 0).returns

theorem Returns.storeMessage (hs : svc.Returns) (p : SendPacket) (messageD : Db.Message) :
    (svc.storeMessage p messageD).Returns := by
  rw [SendServices.storeMessage]
  split
  · exact hs.appendMessage messageD
  · exact (Succeeds.pure ()).returns

theorem Returns.sendThrough (hs : svc.Returns) (channel : Channel) (fromUID : Bytes)
    (flag : DeviceFlag) (p : SendPacket) (input : SendInput) :
    Succeeds (svc.sendThrough channel fromUID flag p input) := by
  refine (hs.nextMessageSeq fromUID p).attempt.bind fun seq => ?_
  rcases seq with e | messageSeq
  · exact Succeeds.pure _
  · refine (hs.storeMessage p _).attempt.bind fun stored => ?_
    rcases stored with e | _
    · exact Succeeds.pure _
    · exact hs.publish _ _ _ _ _

theorem Returns.handleSendPacketWithFrom (hs : svc.Returns) (fromUID : Bytes) (flag : DeviceFlag)
    (p : SendPacket) (input : SendInput) :
    Succeeds (svc.handleSendPacketWithFrom fromUID flag p input) := by
  refine (hs.allowSend fromUID p).attempt.bind fun allowed => ?_
  rcases allowed with e | _ | _
  · exact Succeeds.pure _
  · exact Succeeds.pure _
  · refine (hs.getSendChannel fromUID (sendChannelID fromUID p) p.channelType).bind fun found => ?_
    rcases found with ⟨_ | channel,reasonCode,_ | e⟩
    · exact Succeeds.pure _
    · exact Succeeds.pure _
    · exact hs.sendThrough channel fromUID flag p input
    · exact Succeeds.pure _

end SendServices

def dispatchServices : SendServices Dispatch where
  getChannel id ty := onServer (getChannel id ty)
  testMode d := d.lim.opts.testMode
  systemUIDs d := d.lim.systemUIDs
  getNextMessageSeq id ty := onStore (Db.Store.getNextMessageSeq id ty)
  appendMessage m := do
    let _ ← onStore (Db.Store.appendMessage m)
    pure ()
  notifyIfNeed := notifyIfNeed
  putMessage := putMessage

section Dispatching

theorem attempt_getChannel (d : Dispatch) (id : Bytes) (ty : UInt8) :
    Exec.attempt (dispatchServices.getChannel id ty) d =
      (.ok (.ok (d.lim.getChannel id ty).1),{ d with lim := (d.lim.getChannel id ty).2 }) :=
  Exec.attempt_of_ok (onServer_getChannel d id ty)

theorem allowSend_dispatch (fromUID : Bytes) (p : SendPacket) (d : Dispatch) :
    dispatchServices.allowSend fromUID p d = allowSend fromUID p d := by
  rw [SendServices.allowSend, allowSend]
  split
  · rw [SendServices.allowSendOfPersonChannel, allowSendOfPersonChannel,
      Exec.bind_of_ok (attempt_getChannel d fromUID channelTypePerson),
      Exec.bind_of_ok (onServer_getChannel d fromUID channelTypePerson)]
    cases (d.lim.getChannel fromUID channelTypePerson).1 with
    | none => rfl
    | some channel => rfl
  · rfl

theorem getSendChannel_dispatch {fromUID id : Bytes} {ty : UInt8} {d d' : Dispatch}
    {r : Option Channel × ReasonCode} (h : getSendChannel fromUID id ty d = (.ok r,d')) :
    dispatchServices.getSendChannel fromUID id ty d = (.ok (r.1,r.2,none),d') := by
  rw [getSendChannel, Exec.bind_of_ok (onServer_getChannel d id ty)] at h
  rw [SendServices.getSendChannel, Exec.bind_of_ok (attempt_getChannel d id ty)]
  cases hget : (d.lim.getChannel id ty).1 with
  | none =>
    rw [hget] at h
    cases h
    rfl
  | some channel =>
    simp only [hget, Exec.get_bind] at h ⊢
    have hopts : dispatchServices.testMode { d with lim := (d.lim.getChannel id ty).2 } =
        (d.lim.getChannel id ty).2.opts.testMode := rfl
    have hsys : dispatchServices.systemUIDs { d with lim := (d.lim.getChannel id ty).2 } =
        (d.lim.getChannel id ty).2.systemUIDs := rfl
    simp only [hopts, hsys]
    split at h
    · rename_i htest
      rw [if_pos htest]
      cases h
      rfl
    · rename_i htest
      rw [if_neg htest]
      split at h
      · rename_i hallow
        rw [if_pos hallow]
        cases h
        rfl
      · rename_i hallow
        rw [if_neg hallow]
        split at h
        · rename_i hsub
          rw [if_pos hsub]
          cases h
          rfl
        · rename_i hsub
          rw [if_neg hsub]
          cases h
          rfl

theorem putMessage_no_error (c : Channel) (m : Message) (d : Dispatch) (e : String) :
    (putMessage c m d).1 ≠ .error e := by
  rw [putMessage, Exec.ignoreError]
  split
  · intro he
    cases he
  · intro he
    cases he
  · intro he
    cases he

theorem publish_dispatch (channel : Channel) (message : Message) (messageD : Db.Message)
    (messageID : Int64) (messageSeq : UInt32) (d : Dispatch) :
    dispatchServices.publish channel message messageD messageID messageSeq d =
      (notifyIfNeed messageD >>= fun _ => putMessage channel message >>= fun _ =>
        pure (SendResult.mk messageID messageSeq reasonSuccess none)) d := by
  obtain ⟨queue,hnotify⟩ := notifyIfNeed_eq messageD d
  have hattempt : Exec.attempt (dispatchServices.notifyIfNeed messageD) d =
      (.ok (.ok ()),{ d with notifyQueue := queue }) := Exec.attempt_of_ok hnotify
  have hput := Exec.attempt_bind (β := SendResult) (putMessage_no_error channel message)
    (g := fun r => match r with
      | .error e => pure (SendResult.mk messageID messageSeq reasonError (some e))
      | .ok _ => pure (SendResult.mk messageID messageSeq reasonSuccess none))
  rw [SendServices.publish, Exec.bind_of_ok hattempt, Exec.bind_of_ok hnotify]
  exact congrFun hput _

theorem sendThrough_dispatch (channel : Channel) (fromUID : Bytes) (flag : DeviceFlag)
    (p : SendPacket) (input : SendInput) (d : Dispatch) :
    dispatchServices.sendThrough channel fromUID flag p input d =
      sendThrough channel fromUID flag p input d := by
  have hstore : ∀ m, dispatchServices.storeMessage p m =
      (if !p.framer.noPersist && !p.framer.syncOnce then onStore (Db.Store.appendMessage m)
        else pure 0) >>= fun _ => pure () := by
    intro m
    rw [SendServices.storeMessage]
    split
    · rfl
    · rfl
  have hnext : dispatchServices.nextMessageSeq fromUID p =
      if !p.framer.noPersist && !p.framer.syncOnce then
        onStore (Db.Store.getNextMessageSeq (sendChannelID fromUID p) p.channelType)
      else pure 0 := rfl
  rw [SendServices.sendThrough, sendThrough, hnext]
  simp only [hstore]
  rcases hseq : Exec.attempt (if !p.framer.noPersist && !p.framer.syncOnce then
    onStore (Db.Store.getNextMessageSeq (sendChannelID fromUID p) p.channelType)
    else pure 0 : Exec Dispatch UInt32) d with ⟨r,d₁⟩
  cases r with
  | error e => rw [Exec.bind_of_error hseq, Exec.bind_of_error hseq]
  | panic e => rw [Exec.bind_of_panic hseq, Exec.bind_of_panic hseq]
  | ok r =>
    rw [Exec.bind_of_ok hseq, Exec.bind_of_ok hseq]
    cases r with
    | error e => rfl
    | ok messageSeq =>
      simp only
      generalize hm : storedMessage (sentMessage fromUID flag p input messageSeq)
        (sendChannelID fromUID p) = messageD
      rcases happend : (if !p.framer.noPersist && !p.framer.syncOnce then
        onStore (Db.Store.appendMessage messageD) else pure 0 : Exec Dispatch Nat) d₁ with ⟨a,d₂⟩
      cases a with
      | ok n =>
        have hdone := Exec.bind_of_ok (f := fun _ => (pure () : Exec Dispatch Unit)) happend
        rw [Exec.bind_of_ok (Exec.attempt_of_ok hdone),
          Exec.bind_of_ok (Exec.attempt_of_ok happend)]
        exact publish_dispatch channel _ messageD input.messageID messageSeq d₂
      | error e =>
        have hdone := Exec.bind_of_error (f := fun _ => (pure () : Exec Dispatch Unit)) happend
        rw [Exec.bind_of_ok (Exec.attempt_of_error hdone),
          Exec.bind_of_ok (Exec.attempt_of_error happend)]
      | panic e =>
        have hdone := Exec.bind_of_panic (f := fun _ => (pure () : Exec Dispatch Unit)) happend
        rw [Exec.bind_of_panic (Exec.attempt_of_panic hdone),
          Exec.bind_of_panic (Exec.attempt_of_panic happend)]

theorem handleSendPacketWithFrom_dispatch (fromUID : Bytes) (flag : DeviceFlag) (p : SendPacket)
    (input : SendInput) (d : Dispatch) :
    dispatchServices.handleSendPacketWithFrom fromUID flag p input d =
      handleSendPacketWithFrom fromUID flag p input d := by
  obtain ⟨allow,d₁,hallow,-,-⟩ := allowSend_eq d fromUID p
  have hattempt : Exec.attempt (dispatchServices.allowSend fromUID p) d = (.ok (.ok allow),d₁) :=
    Exec.attempt_of_ok ((allowSend_dispatch fromUID p d).trans hallow)
  rw [SendServices.handleSendPacketWithFrom, handleSendPacketWithFrom, Exec.bind_of_ok hattempt,
    Exec.bind_of_ok hallow]
  cases allow with
  | false => rfl
  | true =>
    obtain ⟨⟨found,reason⟩,d₂,hrun,-,-⟩ :=
      getSendChannel_eq d₁ fromUID (sendChannelID fromUID p) p.channelType
    rw [if_neg (by simp), Exec.bind_of_ok hrun]
    simp only
    rw [Exec.bind_of_ok (getSendChannel_dispatch hrun)]
    cases found with
    | none => rfl
    | some channel => exact sendThrough_dispatch channel fromUID flag p input d₂

end Dispatching
end LiMaoIM.Lim

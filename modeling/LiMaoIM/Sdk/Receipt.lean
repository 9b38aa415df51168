import LiMaoIM.Lim.Serving
import LiMaoIM.Sdk.Arrival
import LiMaoIM.Sdk.Handshake

namespace LiMaoIM.Sdk

open Outcome Proto Lim

structure Shows (sent got : RecvPacket) (payload : Bytes) : Prop where
  noPersist : got.framer.noPersist = sent.framer.noPersist
  redDot : got.framer.redDot = sent.framer.redDot
  syncOnce : got.framer.syncOnce = sent.framer.syncOnce
  messageID : got.messageID = sent.messageID
  messageSeq : got.messageSeq = sent.messageSeq
  clientMsgNo : got.clientMsgNo = sent.clientMsgNo
  timestamp : got.timestamp = sent.timestamp
  fromUID : got.fromUID = sent.fromUID
  channelID : got.channelID = sent.channelID
  channelType : got.channelType = sent.channelType
  payload : got.payload = payload

def arrivedRecv (v : UInt8) (p : RecvPacket) : RecvPacket :=
  { p with
    framer := { p.framer with
      packetType := .recv
      remainingLength := UInt32.ofNat (packetEncode (.recv p) v).length }
    setting := if 3 < v then p.setting else {} }

theorem decodedForm_recv {v : UInt8} (hv : 2 < v) (p : RecvPacket) :
    (Frame.recv p).decodedForm v = .recv (arrivedRecv v p) := by
  have hone : 1 < v := UInt8.lt_trans (by decide) hv
  rw [Frame.decodedForm,Frame.carry,if_pos hv,if_pos hone]
  rfl

structure Acknowledges (w : WrittenRecv) (ack : RecvackPacket) : Prop where
  decodes : ∃ got, decodePacket (encodePacket (.recvack ack) w.version) w.version =
      .ok (some (.recvack got),(encodePacket (.recvack ack) w.version).length) ∧
    RetryQueue.inFlightKey got.messageID w.client.getID = w.retryKey

theorem shows_arrived {v : UInt8} {sent p : RecvPacket} {payload : Bytes}
    (h : SameHeader sent p) :
    Shows sent { arrivedRecv v p with payload := payload } payload where
  noPersist := (congrArg Framer.noPersist h.framer :)
  redDot := (congrArg Framer.redDot h.framer :)
  syncOnce := (congrArg Framer.syncOnce h.framer :)
  messageID := h.messageID
  messageSeq := h.messageSeq
  clientMsgNo := h.clientMsgNo
  timestamp := h.timestamp
  fromUID := h.fromUID
  channelID := h.channelID
  channelType := h.channelType
  payload := rfl

theorem recvack_acknowledges {w : WrittenRecv} {ack : RecvackPacket}
    (h : ack.messageID = w.packet.messageID) : Acknowledges w ack := by
  have hlimits : Frame.WithinLimits w.version (.recvack ack) := by
    refine ⟨fun _ hs => absurd hs List.not_mem_nil,?_⟩
    have hlen : (packetEncode (.recvack ack) w.version).length = 12 := by
      rw [packetEncode,encodeRecvack,List.length_append,Encoder.writeInt64,Encoder.writeUint32,
        Bytes.length_putUint,Bytes.length_putUint]
    rw [hlen]
    decide
  have hdecode := decodePacket_encodePacket w.version (.recvack ack) [] hlimits
  rw [List.append_nil,Frame.decodedForm,Frame.carry] at hdecode
  refine ⟨_,hdecode,?_⟩
  rw [WrittenRecv.retryKey,← h]

namespace Session

theorem receive_opened (crypto : Crypto) {t : Session} {q : RecvPacket} {payload : Bytes}
    (honRecv : t.client.hasOnRecv = true)
    (hopen : Util.aesDecryptPkcs7Base64 Aes.cbc q.payload t.client.aesKey t.client.salt =
      .ok payload) :
    ∃ t', t.step crypto (.receive (.recv q)) = .ok t' ∧
      t'.received = t.received ++ [{ q with payload := payload }] ∧
      (t'.client.rw.failed = true ∨
        t'.client.written = t.client.written ++
          [.recvack ⟨q.framer,q.messageID,q.messageSeq⟩]) := by
  let client : Client :=
    { t.client with retryPingCount := 0, recvMsgCount := t.client.recvMsgCount + 1 }
  have hrun : t.step crypto (.receive (.recv q)) =
      ({ t with
        client := client
        received := t.received ++ [{ q with payload := payload }] } : Session).settle
          (ackRecv { q with payload := payload }) := by
    rw [step,handlePacket]
    simp only
    rw [handleRecvPacket]
    simp only
    rw [if_pos honRecv,hopen]
  rcases sendPacket_spec (.recvack ⟨q.framer,q.messageID,q.messageSeq⟩) client with
    ⟨c',hsend,hwrote⟩ | ⟨e,c',hsend,-,hfailed⟩
  · have hack : ackRecv { q with payload := payload } client = (.ok (),c') := hsend
    refine ⟨{ t with
      client := c'
      received := t.received ++ [{ q with payload := payload }] },?_,rfl,Or.inr hwrote.written⟩
    rw [hrun,settle]
    simp only
    rw [hack]
  · have hack : ackRecv { q with payload := payload } client = (.error e,c') := hsend
    refine ⟨{ t with
      client := c'
      received := t.received ++ [{ q with payload := payload }] },?_,rfl,Or.inl hfailed⟩
    rw [hrun,settle]
    simp only
    rw [hack]

def deviceEndpoints : Endpoints := ⟨ClientManager.empty.add deviceClient,fun _ => 4⟩

def greetingRecv : RecvPacket :=
  ⟨{},{},[],5,1,[],0,Bytes.ofString "v",Bytes.ofString "g",2,Bytes.ofString "hi"⟩

def greetingServed : List ServingEvent :=
  [.endpoints deviceEndpoints,.forwarded 0 greetingRecv [Bytes.ofString "u"],
    .deliver 0 ⟨5,fun _ => 0⟩]

def opensGreeting (w : WrittenRecv) (t : Session) : Bool :=
  t.client.hasOnRecv && decide (t.client.aesKey = w.client.aesKey) &&
    decide (t.client.salt = w.client.aesIV)

def greetsDevice (s : Serving) : Bool :=
  match s.outlets.written with
  | [w] => decide (2 < w.version) && decide (Frame.WithinLimits w.version (.recv w.packet)) &&
      Run.endsIn (opensGreeting w) (Run.run (step deviceCrypto)
        (.new ⟨4,Bytes.ofString "u",[]⟩ true) handshake)
  | _ => false

end Session

end LiMaoIM.Sdk

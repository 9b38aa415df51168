import LiMaoIM.Lim.HandleSend
import LiMaoIM.Lim.RetryQueue
import LiMaoIM.Lim.VerityString

namespace LiMaoIM.Lim

open Outcome Proto

structure WrittenRecv where
  client : Client
  version : UInt8
  packet : RecvPacket

def WrittenRecv.data (w : WrittenRecv) : Bytes := encodePacket (.recv w.packet) w.version

structure MsgOffline where
  message : RecvPacket
  toUIDs : List Bytes

structure Outlets where
  retryQueue : RetryQueue
  written : List WrittenRecv
  offline : List MsgOffline

structure Endpoints where
  clientManager : ClientManager
  version : Int64 → UInt8

structure DeliveryTimes where
  timeout : Int64
  now : Nat → Int64

def clientIsSelf (client : Client) (msg : Message) : Bool :=
  client.uid = msg.recvPacket.fromUID ∧ client.deviceFlag = msg.fromDeviceFlag

def getRecvClients (ends : Endpoints) (msg : Message) (subscriber : Bytes) : List Client :=
  (ends.clientManager.getClientsWithUID subscriber).filter fun client => ¬ clientIsSelf client msg

def deliveredChannelID (msg : Message) (subscriber : Bytes) : Bytes :=
  if msg.recvPacket.channelType = channelTypePerson ∧ msg.recvPacket.channelID = subscriber then
    msg.recvPacket.fromUID
  else msg.recvPacket.channelID

def deliveredSeq (msg : Message) (subscriberSeqMap : List (Bytes × UInt32)) (subscriber : Bytes) :
    UInt32 :=
  if 0 < subscriberSeqMap.length then
    let seq := (Assoc.get subscriber subscriberSeqMap).getD 0
    if seq ≠ 0 then seq else msg.recvPacket.messageSeq
  else msg.recvPacket.messageSeq

def addressed (msg : Message) (subscriberSeqMap : List (Bytes × UInt32)) (subscriber : Bytes)
    (recvClient : Client) : Message :=
  { msg with
    recvPacket :=
      { msg.recvPacket with messageSeq := deliveredSeq msg subscriberSeqMap subscriber }
    toUID := subscriber
    toClientID := recvClient.getID }

def recvPacketOf (newMsg : Message) (channelID : Bytes) : RecvPacket where
  framer := { redDot := newMsg.recvPacket.framer.redDot,
              syncOnce := newMsg.recvPacket.framer.syncOnce,
              noPersist := newMsg.recvPacket.framer.noPersist }
  setting := newMsg.recvPacket.setting
  msgKey := []
  messageID := newMsg.recvPacket.messageID
  messageSeq := newMsg.recvPacket.messageSeq
  clientMsgNo := newMsg.recvPacket.clientMsgNo
  timestamp := newMsg.recvPacket.timestamp
  fromUID := newMsg.recvPacket.fromUID
  channelID := channelID
  channelType := newMsg.recvPacket.channelType
  payload := newMsg.recvPacket.payload

def encryptRecv (mode : Aes.BlockMode) (recvClient : Client) (p : RecvPacket) :
    Outcome RecvPacket := do
  let payloadEnc ← Util.aesEncryptPkcs7Base64 mode p.payload recvClient.aesKey recvClient.aesIV
  let p := { p with payload := payloadEnc }
  let msgKeyBytes ← Util.aesEncryptPkcs7Base64 mode (recvVerityString p) recvClient.aesKey
    recvClient.aesIV
  pure { p with msgKey := md5 msgKeyBytes }

def sealRecv (mode : Aes.BlockMode) (recvClient : Client) (version : UInt8) (p : RecvPacket) :
    Outcome RecvPacket :=
  if 2 < version then encryptRecv mode recvClient p else pure p

def startInFlight (times : DeliveryTimes) (newMsg : Message) : Exec Outlets Unit := fun s =>
  match (s.retryQueue.alloc ⟨newMsg,0,0⟩).startInFlightTimeout times.timeout
      (times.now s.retryQueue.next) s.retryQueue.next with
  | .ok q => (.ok (),{ s with retryQueue := q })
  | .error e => (.error e,s)
  | .panic e => (.panic e,s)

def finishInFlight (clientID messageID : Int64) : Exec Outlets Unit := fun s =>
  match s.retryQueue.finishMessage clientID messageID with
  | .ok q => (.ok (),{ s with retryQueue := q })
  | .error _ => (.ok (),s)
  | .panic e => (.panic e,s)

section DeliveryMsg

variable (mode : Aes.BlockMode) (times : DeliveryTimes) (ends : Endpoints) (msg : Message)
  (subscriberSeqMap : List (Bytes × UInt32))

def writeRecv (recvClient : Client) (p : RecvPacket) : Exec Outlets Unit :=
  match sealRecv mode recvClient (ends.version recvClient.conn) p with
  | .ok packet => Exec.modify fun s =>
      { s with written := s.written ++ [⟨recvClient,ends.version recvClient.conn,packet⟩] }
  | .error _ => pure ()
  | .panic e => Exec.lift (.panic e)

def deliverToClient (subscriber : Bytes) (recvClient : Client) : Exec Outlets Unit :=
  if msg.toClientID ≠ 0 ∧ recvClient.getID ≠ msg.toClientID then pure ()
  else do
    let newMsg := addressed msg subscriberSeqMap subscriber recvClient
    startInFlight times newMsg
    writeRecv mode ends recvClient (recvPacketOf newMsg (deliveredChannelID msg subscriber))

def deliverToClients (subscriber : Bytes) : List Client → Exec Outlets Unit
  | [] => pure ()
  | recvClient :: recvClients => do
      deliverToClient mode times ends msg subscriberSeqMap subscriber recvClient
      deliverToClients subscriber recvClients

def deliverToSubscribers : List Bytes → Exec Outlets (List Bytes)
  | [] => pure []
  | subscriber :: subscribers =>
      match getRecvClients ends msg subscriber with
      | [] => do
          if msg.toClientID ≠ 0 then finishInFlight msg.toClientID msg.recvPacket.messageID
          else pure ()
          let offlineSubscribers ← deliverToSubscribers subscribers
          pure (if subscriber = msg.recvPacket.fromUID then offlineSubscribers
            else subscriber :: offlineSubscribers)
      | recvClients => do
          deliverToClients mode times ends msg subscriberSeqMap subscriber recvClients
          deliverToSubscribers subscribers

def deliveryMsg (subscribers : List Bytes) : Exec Outlets Unit := do
  let offlineSubscribers ← deliverToSubscribers mode times ends msg subscriberSeqMap subscribers
  if offlineSubscribers = [] then pure ()
  else Exec.modify fun s =>
    { s with offline := s.offline ++ [⟨msg.recvPacket,offlineSubscribers⟩] }

end DeliveryMsg

end LiMaoIM.Lim

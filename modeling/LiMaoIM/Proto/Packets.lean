import LiMaoIM.Proto.Codec

namespace LiMaoIM.Proto

open ByteReader Decoder Encoder

inductive PacketType where
  | reserved
  | connect
  | connack
  | send
  | sendack
  | recv
  | recvack
  | ping
  | pong
  | disconnect
  | unknown (v : UInt8)
deriving DecidableEq, Repr

def PacketType.ofUInt8 (v : UInt8) : PacketType :=
  if v = 0 then .reserved
  else if v = 1 then .connect
  else if v = 2 then .connack
  else if v = 3 then .send
  else if v = 4 then .sendack
  else if v = 5 then .recv
  else if v = 6 then .recvack
  else if v = 7 then .ping
  else if v = 8 then .pong
  else if v = 9 then .disconnect
  else .unknown v

def PacketType.toUInt8 : PacketType → UInt8
  | .reserved => 0
  | .connect => 1
  | .connack => 2
  | .send => 3
  | .sendack => 4
  | .recv => 5
  | .recvack => 6
  | .ping => 7
  | .pong => 8
  | .disconnect => 9
  | .unknown v => v

def PacketType.string : PacketType → String
  | .connect => "CONNECT"
  | .connack => "CONNACK"
  | .send => "SEND"
  | .sendack => "SENDACK"
  | .recv => "RECV"
  | .recvack => "RECVACK"
  | .ping => "PING"
  | .pong => "PONG"
  | .disconnect => "DISCONNECT"
  | _ => "UNKNOWN"

structure Framer where
  packetType : PacketType := .reserved
  remainingLength : UInt32 := 0
  noPersist : Bool := false
  redDot : Bool := false
  syncOnce : Bool := false
  dup : Bool := false
deriving DecidableEq, Repr

def encodeBool (b : Bool) : UInt8 := if b then 1 else 0

def toFixHeaderUint8 (t : PacketType) (f : Framer) : UInt8 :=
  (t.toUInt8 <<< 4) ||| ((encodeBool f.dup <<< 3) ||| (encodeBool f.syncOnce <<< 2) |||
    (encodeBool f.redDot <<< 1) ||| encodeBool f.noPersist)

def framerFromUint8 (v : UInt8) : Framer where
  packetType := PacketType.ofUInt8 (v >>> 4)
  noPersist := (0 : UInt8) < v &&& 0x01
  redDot := (0 : UInt8) < (v >>> 1) &&& 0x01
  syncOnce := (0 : UInt8) < (v >>> 2) &&& 0x01
  dup := (0 : UInt8) < (v >>> 3) &&& 0x01

structure Setting where
  receipt : Bool := false
deriving DecidableEq, Repr

def Setting.toUint8 (s : Setting) : UInt8 := encodeBool s.receipt <<< 7

def settingFromUint8 (v : UInt8) : Setting := ⟨(0 : UInt8) < (v >>> 7) &&& 0x01⟩

abbrev ReasonCode := UInt8

abbrev DeviceFlag := UInt8

structure ConnectPacket where
  framer : Framer := {}
  version : UInt8
  clientKey : Bytes
  deviceID : Bytes
  deviceFlag : DeviceFlag
  clientTimestamp : Int64
  uid : Bytes
  token : Bytes
deriving DecidableEq

def decodeConnect (frame : Framer) (_version : UInt8) : ByteReader ConnectPacket := do
  let version ← wrap "解码version失败！" uint8
  let clientKey ← when (2 < version) [] (wrap "解码ClientKey失败！" string)
  let deviceFlag ← wrap "解码DeviceFlag失败！" uint8
  let deviceID ← wrap "解码DeviceId失败！" string
  let clientTimestamp ← wrap "解码ClientTimestamp失败！" int64
  let uid ← wrap "解码UID失败！" string
  let token ← wrap "解码Token失败！" string
  pure ⟨frame,version,clientKey,deviceID,deviceFlag,clientTimestamp,uid,token⟩

def encodeConnect (p : ConnectPacket) (_version : UInt8) : Bytes :=
  writeUint8 p.version ++ ((if 2 < p.version then writeString p.clientKey else []) ++
    (writeUint8 p.deviceFlag ++ (writeString p.deviceID ++ (writeInt64 p.clientTimestamp ++
      (writeString p.uid ++ writeString p.token)))))

structure ConnackPacket where
  framer : Framer := {}
  serverKey : Bytes
  salt : Bytes
  timeDiff : Int64
  reasonCode : ReasonCode
deriving DecidableEq

def encodeConnack (p : ConnackPacket) (version : UInt8) : Bytes :=
  (if 2 < version then writeString p.serverKey else []) ++
    ((if 2 < version then writeString p.salt else []) ++
      (writeInt64 p.timeDiff ++ writeUint8 p.reasonCode))

def decodeConnack (frame : Framer) (version : UInt8) : ByteReader ConnackPacket := do
  let serverKey ← when (2 < version) [] (wrap "解码ServerKey失败！" string)
  let salt ← when (2 < version) [] (wrap "解码Salt失败！" string)
  let timeDiff ← wrap "解码TimeDiff失败！" int64
  let reasonCode ← wrap "解码ReasonCode失败！" uint8
  pure ⟨frame,serverKey,salt,timeDiff,reasonCode⟩

structure SendPacket where
  framer : Framer := {}
  setting : Setting := {}
  msgKey : Bytes
  clientSeq : UInt64
  clientMsgNo : Bytes
  channelID : Bytes
  channelType : UInt8
  payload : Bytes
deriving DecidableEq

def decodeSend (frame : Framer) (version : UInt8) : ByteReader SendPacket := do
  let setting ← when (3 < version) 0 (wrap "解码消息设置失败！" uint8)
  let msgKey ← when (2 < version) [] (wrap "解码MsgKey失败！" string)
  let clientSeq ← wrap "解码ClientSeq失败！" uint32
  let clientMsgNo ← when (1 < version) [] (wrap "解码ClientMsgNo失败！" string)
  let channelID ← wrap "解码ChannelId失败！" string
  let channelType ← wrap "解码ChannelType失败！" uint8
  let payload ← wrap "解码payload失败！" binaryAll
  pure ⟨frame,settingFromUint8 setting,msgKey,clientSeq.toUInt64,clientMsgNo,channelID,
    channelType,payload⟩

def encodeSend (p : SendPacket) (version : UInt8) : Bytes :=
  (if 3 < version then writeUint8 p.setting.toUint8 else []) ++
    ((if 2 < version then writeString p.msgKey else []) ++
      (writeUint32 p.clientSeq.toUInt32 ++
        ((if 1 < version then writeString p.clientMsgNo else []) ++
          (writeString p.channelID ++ (writeUint8 p.channelType ++ p.payload)))))

structure SendackPacket where
  framer : Framer := {}
  messageID : Int64
  messageSeq : UInt32
  clientSeq : UInt64
  clientMsgNo : Bytes
  reasonCode : ReasonCode
deriving DecidableEq

def decodeSendack (frame : Framer) (_version : UInt8) : ByteReader SendackPacket := do
  let clientSeq ← wrap "解码ClientSeq失败！" uint32
  let messageID ← wrap "解码MessageId失败！" int64
  let messageSeq ← wrap "解码MessageSeq失败！" uint32
  let reasonCode ← wrap "解码ChannelType失败！" uint8
  pure ⟨frame,messageID,messageSeq,clientSeq.toUInt64,[],reasonCode⟩

def encodeSendack (p : SendackPacket) (_version : UInt8) : Bytes :=
  writeUint32 p.clientSeq.toUInt32 ++ (writeInt64 p.messageID ++
    (writeUint32 p.messageSeq ++ writeUint8 p.reasonCode))

structure RecvPacket where
  framer : Framer := {}
  setting : Setting := {}
  msgKey : Bytes
  messageID : Int64
  messageSeq : UInt32
  clientMsgNo : Bytes
  timestamp : Int32
  fromUID : Bytes
  channelID : Bytes
  channelType : UInt8
  payload : Bytes
deriving DecidableEq

def decodeRecv (frame : Framer) (version : UInt8) : ByteReader RecvPacket := do
  let setting ← when (3 < version) 0 (wrap "解码消息设置失败！" uint8)
  let msgKey ← when (2 < version) [] (wrap "解码MsgKey失败！" string)
  let messageID ← wrap "解码MessageId失败！" int64
  let messageSeq ← wrap "解码MessageSeq失败！" uint32
  let clientMsgNo ← when (1 < version) [] (wrap "解码ClientMsgNo失败！" string)
  let timestamp ← wrap "解码Timestamp失败！" int32
  let channelID ← wrap "解码ChannelId失败！" string
  let channelType ← wrap "解码ChannelType失败！" uint8
  let fromUID ← wrap "解码FromUID失败！" string
  let payload ← wrap "解码payload失败！" binaryAll
  pure ⟨frame,settingFromUint8 setting,msgKey,messageID,messageSeq,clientMsgNo,timestamp,fromUID,
    channelID,channelType,payload⟩

def encodeRecv (p : RecvPacket) (version : UInt8) : Bytes :=
  (if 3 < version then writeUint8 p.setting.toUint8 else []) ++
    ((if 2 < version then writeString p.msgKey else []) ++
      (writeInt64 p.messageID ++ (writeUint32 p.messageSeq ++
        ((if 1 < version then writeString p.clientMsgNo else []) ++
          (writeInt32 p.timestamp ++ (writeString p.channelID ++
            (writeUint8 p.channelType ++ (writeString p.fromUID ++ p.payload))))))))

structure RecvackPacket where
  framer : Framer := {}
  messageID : Int64
  messageSeq : UInt32
deriving DecidableEq

def decodeRecvack (frame : Framer) (_version : UInt8) : ByteReader RecvackPacket := do
  let messageID ← wrap "解码MessageId失败！" int64
  let messageSeq ← wrap "解码MessageSeq失败！" uint32
  pure ⟨frame,messageID,messageSeq⟩

def encodeRecvack (p : RecvackPacket) (_version : UInt8) : Bytes :=
  writeInt64 p.messageID ++ writeUint32 p.messageSeq

structure DisconnectPacket where
  framer : Framer := {}
  reasonCode : ReasonCode
  reason : Bytes
deriving DecidableEq

def decodeDisConnect (frame : Framer) (_version : UInt8) : ByteReader DisconnectPacket := do
  let reasonCode ← wrap "解码reasonCode失败！" uint8
  let reason ← wrap "解码reason失败！" string
  pure ⟨frame,reasonCode,reason⟩

def encodeDisConnect (p : DisconnectPacket) (_version : UInt8) : Bytes :=
  writeUint8 p.reasonCode ++ writeString p.reason

inductive Frame where
  | connect (p : ConnectPacket)
  | connack (p : ConnackPacket)
  | send (p : SendPacket)
  | sendack (p : SendackPacket)
  | recv (p : RecvPacket)
  | recvack (p : RecvackPacket)
  | ping (f : Option Framer)
  | pong (f : Option Framer)
  | disconnect (p : DisconnectPacket)
deriving DecidableEq

def Frame.getPacketType : Frame → PacketType
  | .connect _ => .connect
  | .connack _ => .connack
  | .send _ => .send
  | .sendack _ => .sendack
  | .recv _ => .recv
  | .recvack _ => .recvack
  | .ping _ => .ping
  | .pong _ => .pong
  | .disconnect _ => .disconnect

def Frame.framer : Frame → Framer
  | .connect p => p.framer
  | .connack p => p.framer
  | .send p => p.framer
  | .sendack p => p.framer
  | .recv p => p.framer
  | .recvack p => p.framer
  | .ping f => f.getD {}
  | .pong f => f.getD {}
  | .disconnect p => p.framer

end LiMaoIM.Proto

import LiMaoIM.Db.Index

namespace LiMaoIM.Db

open Proto Proto.Encoder Proto.Decoder

structure Message where
  header : UInt8
  appliIndex : UInt64
  version : UInt8
  setting : UInt8
  messageID : Int64
  messageSeq : UInt32
  clientMsgNo : Bytes
  timestamp : Int32
  fromUID : Bytes
  queueUID : Bytes
  channelID : Bytes
  channelType : UInt8
  payload : Bytes
deriving DecidableEq

def marshalMessage (m : Message) : Bytes :=
  writeUint8 m.header ++ writeUint8 m.version ++ writeUint8 m.setting ++ writeInt64 m.messageID ++
    writeUint32 m.messageSeq ++ writeString m.clientMsgNo ++ writeInt32 m.timestamp ++
    writeString m.fromUID ++ writeString m.queueUID ++ writeString m.channelID ++
    writeUint8 m.channelType ++ m.payload

def unmarshalMessage (m : Message) : ByteReader Message := do
  let header ← uint8
  let version ← uint8
  let setting ← uint8
  let messageID ← int64
  let messageSeq ← uint32
  let clientMsgNo ← string
  let timestamp ← int32
  let fromUID ← string
  let queueUID ← string
  let channelID ← string
  let channelType ← uint8
  let payload ← binaryAll
  pure { m with header := header, version := version, setting := setting, messageID := messageID,
                messageSeq := messageSeq, clientMsgNo := clientMsgNo, timestamp := timestamp,
                fromUID := fromUID, queueUID := queueUID, channelID := channelID,
                channelType := channelType, payload := payload }

def Message.offset (m : Message) : Int64 := m.messageSeq.toUInt64.toInt64

def Message.toLog (m : Message) : Log := ⟨m.offset,m.appliIndex,marshalMessage m⟩

def Message.withSeq (m : Message) (seq : UInt32) : Message := { m with messageSeq := seq }

theorem Message.toInt_offset (m : Message) : m.toLog.offset.toInt = m.messageSeq.toNat :=
  toInt_toInt64 m.messageSeq

theorem Message.seq_offset (m : Message) : m.toLog.offset.toUInt64.toUInt32 = m.messageSeq := by
  apply UInt32.toNat_inj.mp
  have hint := toNat_toUInt64 m.toLog.offset
  have hlt := m.messageSeq.toNat_lt
  rw [m.toInt_offset] at hint
  rw [UInt64.toNat_toUInt32]
  omega

theorem length_marshalMessage_withSeq (m : Message) (seq : UInt32) :
    (marshalMessage (m.withSeq seq)).length = (marshalMessage m).length := by
  simp [marshalMessage, Message.withSeq, writeUint32]

theorem messageSeq_unmarshalMessage {m₀ m m' : Message} {rest : Bytes}
    (h : unmarshalMessage m₀ (marshalMessage m) = .ok (m',rest)) : m'.messageSeq = m.messageSeq := by
  simp only [marshalMessage, List.append_assoc] at h
  rw [unmarshalMessage, ByteReader.bind_apply, reads_uint8, Outcome.ok_bind,
    ByteReader.bind_apply, reads_uint8, Outcome.ok_bind, ByteReader.bind_apply, reads_uint8,
    Outcome.ok_bind, ByteReader.bind_apply, reads_int64, Outcome.ok_bind, ByteReader.bind_apply,
    reads_uint32, Outcome.ok_bind] at h
  simp only [ByteReader.bind_eq_ok] at h
  obtain ⟨_,_,-,_,_,-,_,_,-,_,_,-,_,_,-,_,_,-,_,_,-,h⟩ := h
  cases h
  rfl

end LiMaoIM.Db

import LiMaoIM.Proto.Inversion
import LiMaoIM.Db.Store

namespace LiMaoIM.Db

open Proto Proto.Encoder Proto.Decoder ByteReader

structure Message.Short (m : Message) : Prop where
  clientMsgNo : m.clientMsgNo.length < 2 ^ 15
  fromUID : m.fromUID.length < 2 ^ 15
  queueUID : m.queueUID.length < 2 ^ 15
  channelID : m.channelID.length < 2 ^ 15

theorem unmarshalMessage_marshalMessage {m : Message} (h : m.Short) :
    unmarshalMessage .zero (marshalMessage m) = .ok ({ m with appliIndex := 0 },[]) := by
  have hfinish : Finishes (unmarshalMessage .zero) (marshalMessage m) { m with appliIndex := 0 } := by
    simp only [marshalMessage, List.append_assoc]
    refine .bind (reads_uint8 _) (.bind (reads_uint8 _) (.bind (reads_uint8 _)
      (.bind (reads_int64 _) (.bind (reads_uint32 _) (.bind (reads_binary _ h.clientMsgNo)
      (.bind (reads_int32 _) (.bind (reads_binary _ h.fromUID) (.bind (reads_binary _ h.queueUID)
      (.bind (reads_binary _ h.channelID) (.bind (reads_uint8 _) ?_))))))))))
    exact (finishes_binaryAll m.payload).map _
  exact hfinish

theorem unmarshalMessage_eq_ok {m : Message} {data rest : Bytes}
    (h : unmarshalMessage .zero data = .ok (m,rest)) :
    data = marshalMessage m ∧ m.Short ∧ m.appliIndex = 0 := by
  obtain ⟨header,_,h₁,h⟩ := ByteReader.bind_eq_ok.mp h
  obtain ⟨version,_,h₂,h⟩ := ByteReader.bind_eq_ok.mp h
  obtain ⟨setting,_,h₃,h⟩ := ByteReader.bind_eq_ok.mp h
  obtain ⟨messageID,_,h₄,h⟩ := ByteReader.bind_eq_ok.mp h
  obtain ⟨messageSeq,_,h₅,h⟩ := ByteReader.bind_eq_ok.mp h
  obtain ⟨clientMsgNo,_,h₆,h⟩ := ByteReader.bind_eq_ok.mp h
  obtain ⟨timestamp,_,h₇,h⟩ := ByteReader.bind_eq_ok.mp h
  obtain ⟨fromUID,_,h₈,h⟩ := ByteReader.bind_eq_ok.mp h
  obtain ⟨queueUID,_,h₉,h⟩ := ByteReader.bind_eq_ok.mp h
  obtain ⟨channelID,_,h₁₀,h⟩ := ByteReader.bind_eq_ok.mp h
  obtain ⟨channelType,_,h₁₁,h⟩ := ByteReader.bind_eq_ok.mp h
  obtain ⟨payload,_,h₁₂,h⟩ := ByteReader.bind_eq_ok.mp h
  cases h
  refine ⟨?_,⟨(binary_eq_ok h₆).2,(binary_eq_ok h₈).2,(binary_eq_ok h₉).2,(binary_eq_ok h₁₀).2⟩,rfl⟩
  obtain ⟨rfl,rfl⟩ := binaryAll_eq_ok h₁₂
  rw [consumes_uint8 h₁, consumes_uint8 h₂, consumes_uint8 h₃, consumes_int64 h₄,
    consumes_uint32 h₅, consumes_string h₆, consumes_int32 h₇, consumes_string h₈,
    consumes_string h₉, consumes_string h₁₀, consumes_uint8 h₁₁]
  simp only [marshalMessage, List.append_assoc]

def Message.home (slotCount : Nat) (m : Message) : Nat × Bytes :=
  if Bytes.isBlank m.queueUID then
    (slotOf slotCount m.channelID,topicName m.channelID m.channelType)
  else (slotOf slotCount m.queueUID,m.queueUID)

def Log.home (slotCount : Nat) (l : Log) : Option (Nat × Bytes) :=
  match unmarshalMessage .zero l.data with
  | .ok (m,_) => some (m.home slotCount)
  | .error _ => none
  | .panic _ => none

theorem Log.home_eq_some {slotCount : Nat} {l : Log} {k : Nat × Bytes} :
    l.home slotCount = some k ↔
      ∃ m : Message, m.Short ∧ l.data = marshalMessage m ∧ m.home slotCount = k := by
  constructor
  · intro h
    rw [Log.home] at h
    split at h
    · rename_i m rest hm
      obtain ⟨hdata,hshort,-⟩ := unmarshalMessage_eq_ok hm
      exact ⟨m,hshort,hdata,Option.some.inj h⟩
    · cases h
    · cases h
  · rintro ⟨m,hshort,hdata,rfl⟩
    rw [Log.home, hdata, unmarshalMessage_marshalMessage hshort]
    rfl

def Log.reset (l : Log) : Log := { l with appliIndex := 0 }

theorem unmarshalMessage_toLog {m₀ m : Message} {rest : Bytes}
    (h : unmarshalMessage .zero m₀.toLog.data = .ok (m,rest)) : m.toLog = m₀.toLog.reset := by
  obtain ⟨hdata,-,happli⟩ := unmarshalMessage_eq_ok h
  have hseq := messageSeq_unmarshalMessage h
  rw [Message.toLog, Message.offset, hseq, happli, ← hdata]
  rfl

end LiMaoIM.Db

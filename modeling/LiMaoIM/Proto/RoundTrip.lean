import LiMaoIM.Proto.Framing

namespace LiMaoIM.Proto

open Outcome ByteReader Decoder Encoder

def Frame.carriedStrings (v : UInt8) : Frame → List Bytes
  | .connect p => (if 2 < p.version then [p.clientKey] else []) ++ [p.deviceID,p.uid,p.token]
  | .connack p => if 2 < v then [p.serverKey,p.salt] else []
  | .send p => (if 2 < v then [p.msgKey] else []) ++ (if 1 < v then [p.clientMsgNo] else []) ++
      [p.channelID]
  | .sendack _ => []
  | .recv p => (if 2 < v then [p.msgKey] else []) ++ (if 1 < v then [p.clientMsgNo] else []) ++
      [p.channelID,p.fromUID]
  | .recvack _ => []
  | .ping _ => []
  | .pong _ => []
  | .disconnect p => [p.reason]

def Frame.carry (v : UInt8) (f : Framer) : Frame → Frame
  | .connect p => .connect
      { p with framer := f, clientKey := if 2 < p.version then p.clientKey else [] }
  | .connack p => .connack
      { p with framer := f, serverKey := if 2 < v then p.serverKey else [],
               salt := if 2 < v then p.salt else [] }
  | .send p => .send
      { p with framer := f, setting := if 3 < v then p.setting else {},
               msgKey := if 2 < v then p.msgKey else [],
               clientSeq := UInt64.ofNat (p.clientSeq.toNat % 2 ^ 32),
               clientMsgNo := if 1 < v then p.clientMsgNo else [] }
  | .sendack p => .sendack
      { p with framer := f, clientSeq := UInt64.ofNat (p.clientSeq.toNat % 2 ^ 32),
               clientMsgNo := [] }
  | .recv p => .recv
      { p with framer := f, setting := if 3 < v then p.setting else {},
               msgKey := if 2 < v then p.msgKey else [],
               clientMsgNo := if 1 < v then p.clientMsgNo else [] }
  | .recvack p => .recvack { p with framer := f }
  | .ping _ => .ping none
  | .pong _ => .pong none
  | .disconnect p => .disconnect { p with framer := f }

def Frame.decodedForm (v : UInt8) (p : Frame) : Frame :=
  p.carry v { p.framer with
    packetType := p.getPacketType
    remainingLength := UInt32.ofNat (packetEncode p v).length }

theorem toUInt64_toUInt32 (n : UInt64) :
    n.toUInt32.toUInt64 = UInt64.ofNat (n.toNat % 2 ^ 32) := by
  rw [← UInt64.toNat_inj]
  simp only [UInt32.toNat_toUInt64, UInt64.toNat_toUInt32, UInt64.toNat_ofNat']
  omega

theorem setting_roundTrip (s : Setting) : settingFromUint8 s.toUint8 = s := by
  obtain ⟨_ | _⟩ := s <;> rfl

theorem reads_setting {v : UInt8} (msg : String) (s : Setting) :
    Reads (when (3 < v) 0 (wrap msg uint8)) (if 3 < v then writeUint8 s.toUint8 else [])
      (if 3 < v then s.toUint8 else 0) :=
  Reads.when fun _ => (reads_uint8 _).wrap msg

theorem setting_carried (v : UInt8) (s : Setting) :
    settingFromUint8 (if 3 < v then s.toUint8 else 0) = if 3 < v then s else {} := by
  by_cases h : 3 < v
  · simp only [h, if_true, setting_roundTrip]
  · simp only [h, if_false]
    rfl

theorem reads_optional {c : Prop} [Decidable c] (msg : String) {s : Bytes}
    (h : c → s.length ≤ 32767) :
    Reads (when c [] (wrap msg string)) (if c then writeString s else []) (if c then s else []) :=
  Reads.when fun hc => (reads_string s (h hc)).wrap msg

theorem finishes_decodeConnect (f : Framer) (v : UInt8) (p : ConnectPacket)
    (h : ∀ s ∈ (Frame.connect p).carriedStrings v, s.length ≤ 32767) :
    Finishes (decodeConnect f v) (encodeConnect p v)
      { p with framer := f, clientKey := if 2 < p.version then p.clientKey else [] } := by
  simp only [Frame.carriedStrings, List.mem_append, List.mem_cons, List.not_mem_nil, or_false] at h
  refine Finishes.bind ((reads_uint8 p.version).wrap _) ?_
  refine Finishes.bind (reads_optional _ fun hc => h _ (by simp [hc])) ?_
  refine Finishes.bind ((reads_uint8 p.deviceFlag).wrap _) ?_
  refine Finishes.bind ((reads_string p.deviceID (h _ (by simp))).wrap _) ?_
  refine Finishes.bind ((reads_int64 p.clientTimestamp).wrap _) ?_
  refine Finishes.bind ((reads_string p.uid (h _ (by simp))).wrap _) ?_
  exact Finishes.map _ ((reads_string p.token (h _ (by simp))).wrap _).finishes

theorem finishes_decodeConnack (f : Framer) (v : UInt8) (p : ConnackPacket)
    (h : ∀ s ∈ (Frame.connack p).carriedStrings v, s.length ≤ 32767) :
    Finishes (decodeConnack f v) (encodeConnack p v)
      { p with framer := f, serverKey := if 2 < v then p.serverKey else [],
               salt := if 2 < v then p.salt else [] } := by
  simp only [Frame.carriedStrings] at h
  refine Finishes.bind (reads_optional _ fun hc => h _ (by simp [hc])) ?_
  refine Finishes.bind (reads_optional _ fun hc => h _ (by simp [hc])) ?_
  refine Finishes.bind ((reads_int64 p.timeDiff).wrap _) ?_
  exact Finishes.map _ ((reads_uint8 p.reasonCode).wrap _).finishes

theorem finishes_decodeSend (f : Framer) (v : UInt8) (p : SendPacket)
    (h : ∀ s ∈ (Frame.send p).carriedStrings v, s.length ≤ 32767) :
    Finishes (decodeSend f v) (encodeSend p v)
      { p with framer := f, setting := if 3 < v then p.setting else {},
               msgKey := if 2 < v then p.msgKey else [],
               clientSeq := UInt64.ofNat (p.clientSeq.toNat % 2 ^ 32),
               clientMsgNo := if 1 < v then p.clientMsgNo else [] } := by
  simp only [Frame.carriedStrings, List.mem_append, List.mem_cons, List.not_mem_nil, or_false] at h
  rw [← setting_carried, ← toUInt64_toUInt32]
  refine Finishes.bind (reads_setting _ p.setting) ?_
  refine Finishes.bind (reads_optional _ fun hc => h _ (by simp [hc])) ?_
  refine Finishes.bind ((reads_uint32 p.clientSeq.toUInt32).wrap _) ?_
  refine Finishes.bind (reads_optional _ fun hc => h _ (by simp [hc])) ?_
  refine Finishes.bind ((reads_string p.channelID (h _ (by simp))).wrap _) ?_
  refine Finishes.bind ((reads_uint8 p.channelType).wrap _) ?_
  exact Finishes.map _ ((finishes_binaryAll p.payload).wrap _)

theorem finishes_decodeSendack (f : Framer) (v : UInt8) (p : SendackPacket) :
    Finishes (decodeSendack f v) (encodeSendack p v)
      { p with framer := f, clientSeq := UInt64.ofNat (p.clientSeq.toNat % 2 ^ 32),
               clientMsgNo := [] } := by
  rw [← toUInt64_toUInt32]
  refine Finishes.bind ((reads_uint32 p.clientSeq.toUInt32).wrap _) ?_
  refine Finishes.bind ((reads_int64 p.messageID).wrap _) ?_
  refine Finishes.bind ((reads_uint32 p.messageSeq).wrap _) ?_
  exact Finishes.map _ ((reads_uint8 p.reasonCode).wrap _).finishes

theorem finishes_decodeRecv (f : Framer) (v : UInt8) (p : RecvPacket)
    (h : ∀ s ∈ (Frame.recv p).carriedStrings v, s.length ≤ 32767) :
    Finishes (decodeRecv f v) (encodeRecv p v)
      { p with framer := f, setting := if 3 < v then p.setting else {},
               msgKey := if 2 < v then p.msgKey else [],
               clientMsgNo := if 1 < v then p.clientMsgNo else [] } := by
  simp only [Frame.carriedStrings, List.mem_append, List.mem_cons, List.not_mem_nil, or_false] at h
  rw [← setting_carried]
  refine Finishes.bind (reads_setting _ p.setting) ?_
  refine Finishes.bind (reads_optional _ fun hc => h _ (by simp [hc])) ?_
  refine Finishes.bind ((reads_int64 p.messageID).wrap _) ?_
  refine Finishes.bind ((reads_uint32 p.messageSeq).wrap _) ?_
  refine Finishes.bind (reads_optional _ fun hc => h _ (by simp [hc])) ?_
  refine Finishes.bind ((reads_int32 p.timestamp).wrap _) ?_
  refine Finishes.bind ((reads_string p.channelID (h _ (by simp))).wrap _) ?_
  refine Finishes.bind ((reads_uint8 p.channelType).wrap _) ?_
  refine Finishes.bind ((reads_string p.fromUID (h _ (by simp))).wrap _) ?_
  exact Finishes.map _ ((finishes_binaryAll p.payload).wrap _)

theorem finishes_decodeRecvack (f : Framer) (v : UInt8) (p : RecvackPacket) :
    Finishes (decodeRecvack f v) (encodeRecvack p v) { p with framer := f } := by
  refine Finishes.bind ((reads_int64 p.messageID).wrap _) ?_
  exact Finishes.map _ ((reads_uint32 p.messageSeq).wrap _).finishes

theorem finishes_decodeDisConnect (f : Framer) (v : UInt8) (p : DisconnectPacket)
    (h : ∀ s ∈ (Frame.disconnect p).carriedStrings v, s.length ≤ 32767) :
    Finishes (decodeDisConnect f v) (encodeDisConnect p v) { p with framer := f } := by
  simp only [Frame.carriedStrings, List.mem_singleton, forall_eq] at h
  refine Finishes.bind ((reads_uint8 p.reasonCode).wrap _) ?_
  exact Finishes.map _ ((reads_string p.reason h).wrap _).finishes

theorem decodeFrame_finishes {α : Type} {c : α → Frame} {decode : Framer → UInt8 → ByteReader α}
    {f : Framer} {v : UInt8} {bs : Bytes} {a : α} (h : Finishes (decode f v) bs a) :
    decodeFrame c decode f bs v = .ok (c a) := by
  rw [Finishes] at h
  simp [decodeFrame, h]

theorem decodeBody_packetEncode (v : UInt8) (p : Frame) (f : Framer)
    (hf : f.packetType = p.getPacketType) (hp : p.getPacketType.isPingPong = false)
    (h : ∀ s ∈ p.carriedStrings v, s.length ≤ 32767) :
    decodeBody packetDecodeMap f (packetEncode p v) v = .ok (p.carry v f) := by
  cases p with
  | connect p =>
    simp only [decodeBody, hf, Frame.getPacketType, packetDecodeMap, packetEncode,
      decodeFrame_finishes (finishes_decodeConnect f v p h), mapError, Frame.carry]
  | connack p =>
    simp only [decodeBody, hf, Frame.getPacketType, packetDecodeMap, packetEncode,
      decodeFrame_finishes (finishes_decodeConnack f v p h), mapError, Frame.carry]
  | send p =>
    simp only [decodeBody, hf, Frame.getPacketType, packetDecodeMap, packetEncode,
      decodeFrame_finishes (finishes_decodeSend f v p h), mapError, Frame.carry]
  | sendack p =>
    simp only [decodeBody, hf, Frame.getPacketType, packetDecodeMap, packetEncode,
      decodeFrame_finishes (finishes_decodeSendack f v p), mapError, Frame.carry]
  | recv p =>
    simp only [decodeBody, hf, Frame.getPacketType, packetDecodeMap, packetEncode,
      decodeFrame_finishes (finishes_decodeRecv f v p h), mapError, Frame.carry]
  | recvack p =>
    simp only [decodeBody, hf, Frame.getPacketType, packetDecodeMap, packetEncode,
      decodeFrame_finishes (finishes_decodeRecvack f v p), mapError, Frame.carry]
  | ping f => simp [Frame.getPacketType, PacketType.isPingPong] at hp
  | pong f => simp [Frame.getPacketType, PacketType.isPingPong] at hp
  | disconnect p =>
    simp only [decodeBody, hf, Frame.getPacketType, packetDecodeMap, packetEncode,
      decodeFrame_finishes (finishes_decodeDisConnect f v p h), mapError, Frame.carry]

theorem framerFromUint8_flags (t : PacketType) (ht : t ∈ [PacketType.connect,.connack,.send,
    .sendack,.recv,.recvack,.ping,.pong,.disconnect]) (a b c d : Bool) :
    framerFromUint8 (toFixHeaderUint8 t ⟨.reserved,0,a,b,c,d⟩) = ⟨t,0,a,b,c,d⟩ := by
  revert t a b c d
  decide

theorem framerFromUint8_header (p : Frame) :
    framerFromUint8 (toFixHeaderUint8 p.getPacketType p.framer) =
      { p.framer with packetType := p.getPacketType, remainingLength := 0 } :=
  framerFromUint8_flags p.getPacketType (by cases p <;> simp [Frame.getPacketType]) _ _ _ _

theorem packetEncode_length_pos (v : UInt8) (p : Frame) (hp : p.getPacketType.isPingPong = false) :
    0 < (packetEncode p v).length := by
  cases p with
  | ping f => simp [Frame.getPacketType, PacketType.isPingPong] at hp
  | pong f => simp [Frame.getPacketType, PacketType.isPingPong] at hp
  | _ =>
    simp [packetEncode, encodeConnect, encodeConnack, encodeSend, encodeSendack, encodeRecv,
      encodeRecvack, encodeDisConnect, writeUint8, writeInt64, writeUint32]

theorem decodeFramer_pingPong {b : UInt8} {rest : Bytes}
    (hb : (framerFromUint8 b).packetType.isPingPong = true) :
    decodeFramer (b :: rest) = .ok (framerFromUint8 b,0) := by
  simp [decodeFramer, hb]

def Frame.WithinLimits (v : UInt8) (p : Frame) : Prop :=
  (∀ s ∈ p.carriedStrings v, s.length ≤ 32767) ∧
    (packetEncode p v).length ≤ maxRemaingLength.toNat

instance (v : UInt8) (p : Frame) : Decidable (p.WithinLimits v) := inferInstanceAs (Decidable (_ ∧ _))

theorem encodePacket_eq (v : UInt8) (p : Frame) (hp : p.getPacketType.isPingPong = false)
    (h : p.WithinLimits v) :
    ∃ ds, LengthField ds (packetEncode p v).length ∧ encodePacket p v =
      toFixHeaderUint8 p.getPacketType p.framer :: (ds ++ packetEncode p v) := by
  have hm : maxRemaingLength.toNat = 1048576 := rfl
  have hl := h.2
  refine ⟨_,encodeVariable_lengthField (packetEncode_length_pos v p hp) (by omega),?_⟩
  have hmod : (packetEncode p v).length % 2 ^ 32 = (packetEncode p v).length :=
    Nat.mod_eq_of_lt (by omega)
  simp only [encodePacket, encodeFramer, hp, Bool.false_eq_true, if_false, hmod, List.cons_append]

theorem encodePacket_pingPong (v : UInt8) (p : Frame) (hp : p.getPacketType.isPingPong = true) :
    ∃ b, encodePacket p v = [b] ∧ (framerFromUint8 b).packetType = p.getPacketType := by
  cases p with
  | ping f => exact ⟨PacketType.ping.toUInt8 <<< 4,rfl,by rw [Frame.getPacketType]; decide⟩
  | pong f => exact ⟨PacketType.pong.toUInt8 <<< 4,rfl,by rw [Frame.getPacketType]; decide⟩
  | _ => simp [Frame.getPacketType, PacketType.isPingPong] at hp

theorem decodePacket_encodePacket (v : UInt8) (p : Frame) (rest : Bytes)
    (h : p.WithinLimits v) :
    decodePacket (encodePacket p v ++ rest) v =
      .ok (some (p.decodedForm v),(encodePacket p v).length) := by
  cases hp : p.getPacketType.isPingPong with
  | true =>
    obtain ⟨b,he,hb⟩ := encodePacket_pingPong v p hp
    rw [he, List.singleton_append, decodePacket, decodePacketWith,
      decodeFramer_pingPong (hb ▸ hp)]
    cases p with
    | ping f => simp [hb, Frame.getPacketType, Frame.decodedForm, Frame.carry]
    | pong f => simp [hb, Frame.getPacketType, Frame.decodedForm, Frame.carry]
    | _ => simp [Frame.getPacketType, PacketType.isPingPong] at hp
  | false =>
    obtain ⟨ds,hds,he⟩ := encodePacket_eq v p hp h
    have hh := framerFromUint8_header p
    rw [he, List.cons_append, List.append_assoc, decodePacket,
      decodePacketWith_lengthField packetDecodeMap (by rw [hh]; exact hp) hds h.2, hh,
      decodeBody_packetEncode v p _ rfl hp h.1]
    simp only [ok_bind, Outcome.pure_eq, List.length_cons, List.length_append]
    congr 2
    omega

theorem reads_readFull (bs : Bytes) : Reads (readFull bs.length) bs bs := by
  intro rest
  have hle : bs.length ≤ (bs ++ rest).length := by simp
  rw [readFull, if_pos hle, List.take_left, List.drop_left]

theorem reads_decodeFramerWithConn_pingPong {b : UInt8}
    (hb : (framerFromUint8 b).packetType.isPingPong = true) :
    Reads decodeFramerWithConn [b] (framerFromUint8 b) := by
  refine Reads.andThen (reads_readFull [b]) ?_
  have hif : (framerFromUint8 ([b].headD 0)).packetType.isPingPong = true := hb
  rw [if_pos hif]
  exact reads_pure _

theorem reads_decodeFramerWithConn_lengthField {b : UInt8} {ds : Bytes} {n : Nat}
    (hb : (framerFromUint8 b).packetType.isPingPong = false) (h : LengthField ds n) :
    Reads decodeFramerWithConn (b :: ds) ((framerFromUint8 b).withLength n) := by
  have hlen : Reads decodeLengthWithConn ds n := by
    intro rest
    rw [decodeLengthWithConn, decodeLengthWithConnLoop_terminated h.terminated h.length_le, h.value]
  have hif : ¬ (framerFromUint8 ([b].headD 0)).packetType.isPingPong = true := by simp [hb]
  refine Reads.bind (reads_readFull [b]) ?_
  rw [if_neg hif]
  exact Reads.andThen hlen (reads_pure _)

theorem decodedForm_pingPong {v : UInt8} {p : Frame} (hp : p.getPacketType.isPingPong = true) :
    (p.getPacketType = .ping ∧ p.decodedForm v = .ping none) ∨
      (p.getPacketType = .pong ∧ p.decodedForm v = .pong none) := by
  cases p with
  | ping f => exact Or.inl ⟨rfl,rfl⟩
  | pong f => exact Or.inr ⟨rfl,rfl⟩
  | _ => simp [Frame.getPacketType, PacketType.isPingPong] at hp

theorem reads_decodePacketWithConn (v : UInt8) (p : Frame) (h : p.WithinLimits v) :
    Reads (decodePacketWithConn v) (encodePacket p v) (p.decodedForm v) := by
  cases hp : p.getPacketType.isPingPong with
  | true =>
    obtain ⟨b,he,hb⟩ := encodePacket_pingPong v p hp
    rw [he]
    refine Reads.andThen (reads_decodeFramerWithConn_pingPong (hb ▸ hp)) ?_
    rw [hb]
    rcases decodedForm_pingPong (v := v) hp with ⟨ht,hd⟩ | ⟨ht,hd⟩
    · simp only [ht, hd, if_true]
      exact reads_pure _
    · simp only [ht, hd, if_true, reduceCtorEq, if_false]
      exact reads_pure _
  | false =>
    obtain ⟨ds,hds,he⟩ := encodePacket_eq v p hp h
    have hh := framerFromUint8_header p
    obtain ⟨f,hf⟩ : ∃ f, framerFromUint8 (toFixHeaderUint8 p.getPacketType p.framer) = f := ⟨_,rfl⟩
    have hpp : f.packetType.isPingPong = false := by rw [← hf, hh]; exact hp
    have hm : maxRemaingLength.toNat = 1048576 := rfl
    have hl := h.2
    have hlen := toNat_withLength f (show (packetEncode p v).length < 2 ^ 28 by omega)
    have hmax : ¬ maxRemaingLength < (f.withLength (packetEncode p v).length).remainingLength := by
      rw [UInt32.lt_iff_toNat_lt, hlen]
      omega
    obtain ⟨hping,hpong⟩ : (f.withLength (packetEncode p v).length).packetType ≠ .ping ∧
      (f.withLength (packetEncode p v).length).packetType ≠ .pong := not_ping_of_not_isPingPong hpp
    have hbody : decodeBody packetDecodeMap (f.withLength (packetEncode p v).length)
        (packetEncode p v) v = .ok (p.decodedForm v) := by
      rw [← hf, hh, decodeBody_packetEncode v p _ rfl hp h.1]
      rfl
    rw [he, ← List.cons_append]
    refine Reads.bind (reads_decodeFramerWithConn_lengthField (hf ▸ hpp) hds) ?_
    rw [hf, if_neg hping, if_neg hpong, if_neg hmax, hlen]
    exact Reads.andThen (reads_readFull _) (reads_lift hbody)

theorem readBuf_length {n : Nat} {bs s rest : Bytes} (h : readBuf n bs = .ok (s,rest)) :
    s.length = n := by
  simp only [readBuf] at h
  split at h
  · cases h
  · split at h
    · cases h
    · cases h
      rw [List.length_take]
      omega

theorem string_length {bs s rest : Bytes} (h : string bs = .ok (s,rest)) : s.length ≤ 32767 := by
  rw [string, binary, ByteReader.bind_eq_ok] at h
  obtain ⟨size,mid,-,h⟩ := h
  rw [ByteReader.bind_eq_ok] at h
  obtain ⟨-,mid',-,h⟩ := h
  split at h
  · cases h
    simp
  · have hs := size.toInt_lt
    rw [readBuf_length h]
    omega

theorem wrap_string_length {msg : String} {bs s rest : Bytes}
    (h : wrap msg string bs = .ok (s,rest)) : s.length ≤ 32767 :=
  string_length (wrap_eq_ok.mp h)

theorem when_string_length {c : Prop} [Decidable c] {msg : String} {bs s rest : Bytes}
    (h : when c [] (wrap msg string) bs = .ok (s,rest)) : s.length ≤ 32767 := by
  unfold ByteReader.when at h
  split at h
  · exact wrap_string_length h
  · cases h
    simp

theorem decodeConnect_short {f : Framer} {v : UInt8} {p : ConnectPacket} {bs rest : Bytes}
    (h : decodeConnect f v bs = .ok (p,rest)) :
    ∀ s ∈ (Frame.connect p).carriedStrings v, s.length ≤ 32767 := by
  simp only [decodeConnect, ByteReader.bind_eq_ok, pure_apply, Outcome.ok.injEq,
    Prod.mk.injEq] at h
  obtain ⟨_,_,-,_,_,h1,_,_,-,_,_,h2,_,_,-,_,_,h3,_,_,h4,rfl,-⟩ := h
  have h1 := when_string_length h1
  have h2 := wrap_string_length h2
  have h3 := wrap_string_length h3
  have h4 := wrap_string_length h4
  simp only [Frame.carriedStrings]
  split <;> simp [h1, h2, h3, h4]

theorem decodeConnack_short {f : Framer} {v : UInt8} {p : ConnackPacket} {bs rest : Bytes}
    (h : decodeConnack f v bs = .ok (p,rest)) :
    ∀ s ∈ (Frame.connack p).carriedStrings v, s.length ≤ 32767 := by
  simp only [decodeConnack, ByteReader.bind_eq_ok, pure_apply, Outcome.ok.injEq,
    Prod.mk.injEq] at h
  obtain ⟨_,_,h1,_,_,h2,_,_,-,_,_,-,rfl,-⟩ := h
  have h1 := when_string_length h1
  have h2 := when_string_length h2
  simp only [Frame.carriedStrings]
  split <;> simp [h1, h2]

theorem decodeSend_short {f : Framer} {v : UInt8} {p : SendPacket} {bs rest : Bytes}
    (h : decodeSend f v bs = .ok (p,rest)) :
    ∀ s ∈ (Frame.send p).carriedStrings v, s.length ≤ 32767 := by
  simp only [decodeSend, ByteReader.bind_eq_ok, pure_apply, Outcome.ok.injEq,
    Prod.mk.injEq] at h
  obtain ⟨_,_,-,_,_,h1,_,_,-,_,_,h2,_,_,h3,_,_,-,_,_,-,rfl,-⟩ := h
  have h1 := when_string_length h1
  have h2 := when_string_length h2
  have h3 := wrap_string_length h3
  simp only [Frame.carriedStrings]
  split <;> split <;> simp [h1, h2, h3]

theorem decodeRecv_short {f : Framer} {v : UInt8} {p : RecvPacket} {bs rest : Bytes}
    (h : decodeRecv f v bs = .ok (p,rest)) :
    ∀ s ∈ (Frame.recv p).carriedStrings v, s.length ≤ 32767 := by
  simp only [decodeRecv, ByteReader.bind_eq_ok, pure_apply, Outcome.ok.injEq,
    Prod.mk.injEq] at h
  obtain ⟨_,_,-,_,_,h1,_,_,-,_,_,-,_,_,h2,_,_,-,_,_,h3,_,_,-,_,_,h4,_,_,-,rfl,-⟩ := h
  have h1 := when_string_length h1
  have h2 := when_string_length h2
  have h3 := wrap_string_length h3
  have h4 := wrap_string_length h4
  simp only [Frame.carriedStrings]
  split <;> split <;> simp [h1, h2, h3, h4]

theorem decodeDisConnect_short {f : Framer} {v : UInt8} {p : DisconnectPacket} {bs rest : Bytes}
    (h : decodeDisConnect f v bs = .ok (p,rest)) :
    ∀ s ∈ (Frame.disconnect p).carriedStrings v, s.length ≤ 32767 := by
  simp only [decodeDisConnect, ByteReader.bind_eq_ok, pure_apply, Outcome.ok.injEq,
    Prod.mk.injEq] at h
  obtain ⟨_,_,-,_,_,h1,rfl,-⟩ := h
  simpa [Frame.carriedStrings] using wrap_string_length h1

theorem decodeFrame_eq_ok {α : Type} {c : α → Frame} {decode : Framer → UInt8 → ByteReader α}
    {f : Framer} {v : UInt8} {bs : Bytes} {q : Frame} :
    decodeFrame c decode f bs v = .ok q ↔ ∃ a rest, decode f v bs = .ok (a,rest) ∧ c a = q := by
  simp only [decodeFrame, Outcome.bind_eq_ok, Outcome.pure_eq, Outcome.ok.injEq, Prod.exists]

theorem packetDecodeMap_short {t : PacketType} {func : PacketDecodeFunc} {f : Framer}
    {bs : Bytes} {v : UInt8} {q : Frame} (hm : packetDecodeMap t = some func)
    (h : func f bs v = .ok q) : ∀ s ∈ q.carriedStrings v, s.length ≤ 32767 := by
  cases t <;> simp only [packetDecodeMap, Option.some.injEq, reduceCtorEq] at hm <;> subst hm <;>
    obtain ⟨a,rest,ha,rfl⟩ := decodeFrame_eq_ok.mp h
  · exact decodeConnect_short ha
  · exact decodeConnack_short ha
  · exact decodeSend_short ha
  · simp [Frame.carriedStrings]
  · exact decodeRecv_short ha
  · simp [Frame.carriedStrings]
  · exact decodeDisConnect_short ha

theorem decodePacket_short {bs : Bytes} {v : UInt8} {q : Frame} {n : Nat}
    (h : decodePacket bs v = .ok (some q,n)) : ∀ s ∈ q.carriedStrings v, s.length ≤ 32767 := by
  simp only [decodePacket, decodePacketWith, Outcome.bind_eq_ok, Prod.exists] at h
  obtain ⟨f,k,-,h⟩ := h
  split at h
  · cases h
    simp [Frame.carriedStrings]
  split at h
  · cases h
    simp [Frame.carriedStrings]
  split at h
  · cases h
  split at h
  · cases h
  obtain ⟨frame,hf,h⟩ := Outcome.bind_eq_ok.mp h
  cases h
  simp only [decodeBody] at hf
  split at hf
  · cases hf
  · exact packetDecodeMap_short ‹_› (mapError_eq_ok.mp hf)

theorem carriedStrings_carry (v : UInt8) (f : Framer) (p : Frame) :
    (p.carry v f).carriedStrings v = p.carriedStrings v := by
  cases p <;> simp only [Frame.carry, Frame.carriedStrings] <;>
    first | rfl | (split <;> rfl) | (split <;> split <;> rfl)

theorem packet_round_trip (v : UInt8) (p : Frame) (rest : Bytes) :
    ((∀ s ∈ p.carriedStrings v, s.length ≤ 32767) →
      (packetEncode p v).length ≤ maxRemaingLength.toNat →
      decodePacket (encodePacket p v ++ rest) v =
        .ok (some (p.decodedForm v),(encodePacket p v).length)) ∧
    ((∃ s ∈ p.carriedStrings v, 32767 < s.length) →
      ∀ n, decodePacket (encodePacket p v ++ rest) v ≠ .ok (some (p.decodedForm v),n)) := by
  refine ⟨fun hs hl => decodePacket_encodePacket v p rest ⟨hs,hl⟩,?_⟩
  rintro ⟨s,hs,hlen⟩ n h
  rw [← carriedStrings_carry v _ p] at hs
  have hle := decodePacket_short h s hs
  omega

def sampleSend : SendPacket where
  setting := ⟨true⟩
  msgKey := Bytes.ofString "key"
  clientSeq := 4294967303
  clientMsgNo := Bytes.ofString "no-1"
  channelID := Bytes.ofString "group"
  channelType := 2
  payload := Bytes.ofString "hello"

theorem packet_round_trip_sampleSend :
    decodePacket (encodePacket (.send sampleSend) 4 ++ [7]) 4 =
      .ok (some ((Frame.send sampleSend).decodedForm 4),(encodePacket (.send sampleSend) 4).length) :=
  (packet_round_trip 4 (.send sampleSend) [7]).1 (by decide) (by decide)

end LiMaoIM.Proto

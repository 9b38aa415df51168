import LiMaoIM.Proto.RoundTrip
import LiMaoIM.Proto.Inversion
import LiMaoIM.Lim.Send

namespace LiMaoIM.Lim

open Outcome Proto Proto.Decoder Proto.Encoder

theorem length_writeString (s : Bytes) : (writeString s).length = 2 + s.length := by
  rw [writeString, writeBinary]
  split
  · rename_i h
    rw [h, writeInt16, Bytes.length_putUint]
  · rw [List.length_append, writeInt16, Bytes.length_putUint]

structure DecodedSend (v : UInt8) (p : SendPacket) : Prop where
  msgKey : p.msgKey.length ≤ 32767
  clientMsgNo : p.clientMsgNo.length ≤ 32767
  channelID : p.channelID.length ≤ 32767
  clientSeq : p.clientSeq.toNat < 2 ^ 32
  length : (encodeSend p v).length ≤ maxRemaingLength.toNat

theorem when_eq_ok {α : Type} {c : Prop} [Decidable c] {d a : α} {r : ByteReader α}
    {encode : α → Bytes} {msg : String} {bs rest : Bytes} (hr : Consumes r encode)
    (h : ByteReader.when c d (ByteReader.wrap msg r) bs = .ok (a,rest)) :
    bs = (if c then encode a else []) ++ rest := by
  unfold ByteReader.when at h
  split at h
  · rename_i hc
    rw [if_pos hc]
    exact hr (ByteReader.wrap_eq_ok.mp h)
  · rename_i hc
    cases h
    rw [if_neg hc, List.nil_append]

theorem decodeSend_eq_ok {f : Framer} {v : UInt8} {p : SendPacket} {bs rest : Bytes}
    (h : decodeSend f v bs = .ok (p,rest)) (hbs : bs.length ≤ maxRemaingLength.toNat) :
    DecodedSend v p := by
  simp only [decodeSend, ByteReader.bind_eq_ok, ByteReader.pure_apply, Outcome.ok.injEq,
    Prod.mk.injEq] at h
  obtain ⟨setting,bs₁,h₁,msgKey,bs₂,h₂,clientSeq,bs₃,h₃,clientMsgNo,bs₄,h₄,channelID,bs₅,h₅,
    channelType,bs₆,h₆,payload,bs₇,h₇,rfl,rfl⟩ := h
  refine ⟨when_string_length h₂,when_string_length h₄,wrap_string_length h₅,?_,?_⟩
  · exact clientSeq.toNat_lt
  · have e₁ := when_eq_ok consumes_uint8 h₁
    have e₂ := when_eq_ok consumes_string h₂
    have e₃ := consumes_uint32 (ByteReader.wrap_eq_ok.mp h₃)
    have e₄ := when_eq_ok consumes_string h₄
    have e₅ := consumes_string (ByteReader.wrap_eq_ok.mp h₅)
    have e₆ := consumes_uint8 (ByteReader.wrap_eq_ok.mp h₆)
    obtain ⟨e₇,-⟩ := binaryAll_eq_ok (ByteReader.wrap_eq_ok.mp h₇)
    have hsetting : ∀ b : UInt8, (if 3 < v then writeUint8 b else []).length =
        (if 3 < v then writeUint8 setting else []).length := by
      intro b
      split
      · rfl
      · rfl
    have hlen : (encodeSend ⟨f,settingFromUint8 setting,msgKey,clientSeq.toUInt64,clientMsgNo,
        channelID,channelType,payload⟩ v).length = bs.length := by
      rw [e₁, e₂, e₃, e₄, e₅, e₆, e₇, encodeSend, List.length_append, hsetting,
        UInt32.toUInt32_toUInt64]
      simp only [List.length_append]
    rw [hlen]
    exact hbs

theorem packetDecodeMap_send {t : PacketType} {func : PacketDecodeFunc} {f : Framer} {bs : Bytes}
    {v : UInt8} {p : SendPacket} (hm : packetDecodeMap t = some func)
    (h : func f bs v = .ok (.send p)) : ∃ rest, decodeSend f v bs = .ok (p,rest) := by
  cases t <;> simp only [packetDecodeMap, Option.some.injEq, reduceCtorEq] at hm <;> subst hm <;>
    obtain ⟨a,rest,ha,heq⟩ := decodeFrame_eq_ok.mp h <;> cases heq
  exact ⟨rest,ha⟩

theorem decodePacket_send {data : Bytes} {v : UInt8} {p : SendPacket} {n : Nat}
    (h : decodePacket data v = .ok (some (.send p),n)) : DecodedSend v p := by
  simp only [decodePacket, decodePacketWith, Outcome.bind_eq_ok, Prod.exists] at h
  obtain ⟨f,k,-,h⟩ := h
  split at h
  · cases h
  split at h
  · cases h
  split at h
  · cases h
  rename_i hmax
  split at h
  · cases h
  obtain ⟨frame,hframe,h⟩ := Outcome.bind_eq_ok.mp h
  cases h
  rw [decodeBody] at hframe
  split at hframe
  · cases hframe
  · rename_i func hm
    obtain ⟨rest,hsend⟩ := packetDecodeMap_send hm (mapError_eq_ok.mp hframe)
    refine decodeSend_eq_ok hsend ?_
    rw [UInt32.not_lt, UInt32.le_iff_toNat_le] at hmax
    rw [List.length_drop, List.length_take]
    omega

def latestVersion : UInt8 := 4

def forwarded (p : Frame) : Outcome (Option Frame × Nat) :=
  decodePacket (encodePacket p latestVersion) latestVersion

structure SameFlags (f g : Framer) : Prop where
  noPersist : g.noPersist = f.noPersist
  redDot : g.redDot = f.redDot
  syncOnce : g.syncOnce = f.syncOnce
  dup : g.dup = f.dup

def SendSurvives (p : SendPacket) : Prop :=
  ∃ f n, forwarded (.send p) = .ok (some (.send { p with framer := f }),n) ∧ SameFlags p.framer f

def RecvSurvives (p : RecvPacket) : Prop :=
  ∃ f n, forwarded (.recv p) = .ok (some (.recv { p with framer := f }),n) ∧ SameFlags p.framer f

theorem forwarded_fits {p : Frame} (h : p.WithinLimits latestVersion) :
    ∃ n, forwarded p = .ok (some (p.decodedForm latestVersion),n) := by
  have hrun := decodePacket_encodePacket latestVersion p [] h
  rw [List.append_nil] at hrun
  exact ⟨_,hrun⟩

theorem forwarded_oversized {p : Frame} (hp : p.getPacketType.isPingPong = false)
    (h : maxRemaingLength.toNat < (packetEncode p latestVersion).length)
    (hlen : (packetEncode p latestVersion).length < 2 ^ 28) : ∃ e, forwarded p = .error e := by
  have hfield := encodeVariable_lengthField (packetEncode_length_pos latestVersion p hp) hlen
  have hmod : (packetEncode p latestVersion).length % 2 ^ 32 =
      (packetEncode p latestVersion).length := Nat.mod_eq_of_lt (by omega)
  have hframer : (framerFromUint8
      (toFixHeaderUint8 p.getPacketType p.framer)).packetType.isPingPong = false := by
    rw [framerFromUint8_header]
    exact hp
  have henc : encodePacket p latestVersion = toFixHeaderUint8 p.getPacketType p.framer ::
      (encodeVariable (packetEncode p latestVersion).length ++ packetEncode p latestVersion) := by
    simp only [encodePacket, encodeFramer, hp, Bool.false_eq_true, if_false, hmod, List.cons_append]
  rw [forwarded, henc, decodePacket, decodePacketWith_of_framer packetDecodeMap hlen hframer
    (decodeFramer_lengthField hframer hfield), if_pos h]
  exact ⟨_,rfl⟩

theorem length_encodeSend_latest (p : SendPacket) : (encodeSend p latestVersion).length =
    12 + p.msgKey.length + p.clientMsgNo.length + p.channelID.length + p.payload.length := by
  have h1 : (1 : UInt8) < latestVersion := by decide
  have h2 : (2 : UInt8) < latestVersion := by decide
  have h3 : (3 : UInt8) < latestVersion := by decide
  simp only [encodeSend, if_pos h1, if_pos h2, if_pos h3, List.length_append, length_writeString,
    writeUint8, writeUint32, Bytes.length_putUint, List.length_singleton]
  omega

theorem length_encodeRecv_latest (p : RecvPacket) : (encodeRecv p latestVersion).length =
    26 + p.msgKey.length + p.clientMsgNo.length + p.channelID.length + p.fromUID.length +
      p.payload.length := by
  have h1 : (1 : UInt8) < latestVersion := by decide
  have h2 : (2 : UInt8) < latestVersion := by decide
  have h3 : (3 : UInt8) < latestVersion := by decide
  simp only [encodeRecv, if_pos h1, if_pos h2, if_pos h3, List.length_append, length_writeString,
    writeUint8, writeUint32, writeInt32, writeInt64, Bytes.length_putUint, List.length_singleton]
  omega

theorem sendSurvives_iff {p : SendPacket} (hkey : p.msgKey.length ≤ 32767)
    (hno : p.clientMsgNo.length ≤ 32767) (hid : p.channelID.length ≤ 32767)
    (hseq : p.clientSeq.toNat < 2 ^ 32) (hpayload : p.payload.length < 2 ^ 27) :
    SendSurvives p ↔ (encodeSend p latestVersion).length ≤ maxRemaingLength.toNat := by
  have hlen := length_encodeSend_latest p
  constructor
  · rintro ⟨f,n,hrun,-⟩
    by_contra hbig
    obtain ⟨e,he⟩ := forwarded_oversized (p := .send p) rfl (Nat.not_le.mp hbig)
      (show (encodeSend p latestVersion).length < 2 ^ 28 by omega)
    rw [he] at hrun
    cases hrun
  · intro hle
    have hstrings : ∀ s ∈ (Frame.send p).carriedStrings latestVersion, s.length ≤ 32767 := by
      intro s hs
      have hmem : s ∈ [p.msgKey,p.clientMsgNo,p.channelID] := hs
      simp only [List.mem_cons, List.not_mem_nil, or_false] at hmem
      rcases hmem with rfl | rfl | rfl
      · exact hkey
      · exact hno
      · exact hid
    obtain ⟨n,hrun⟩ := forwarded_fits (p := .send p) ⟨hstrings,hle⟩
    have hclient : UInt64.ofNat (p.clientSeq.toNat % 2 ^ 32) = p.clientSeq := by
      rw [Nat.mod_eq_of_lt hseq, UInt64.ofNat_toNat]
    have hform : (Frame.send p).decodedForm latestVersion = .send { p with
        framer := { p.framer with
          packetType := .send
          remainingLength := UInt32.ofNat (encodeSend p latestVersion).length } } := by
      rw [Frame.decodedForm, Frame.carry, hclient]
      rfl
    rw [hform] at hrun
    exact ⟨_,n,hrun,⟨rfl,rfl,rfl,rfl⟩⟩

theorem recvSurvives_iff {p : RecvPacket} (hkey : p.msgKey.length ≤ 32767)
    (hno : p.clientMsgNo.length ≤ 32767) (hid : p.channelID.length ≤ 32767)
    (hfrom : p.fromUID.length ≤ 32767) (hpayload : p.payload.length < 2 ^ 27) :
    RecvSurvives p ↔ (encodeRecv p latestVersion).length ≤ maxRemaingLength.toNat := by
  have hlen := length_encodeRecv_latest p
  constructor
  · rintro ⟨f,n,hrun,-⟩
    by_contra hbig
    obtain ⟨e,he⟩ := forwarded_oversized (p := .recv p) rfl (Nat.not_le.mp hbig)
      (show (encodeRecv p latestVersion).length < 2 ^ 28 by omega)
    rw [he] at hrun
    cases hrun
  · intro hle
    have hstrings : ∀ s ∈ (Frame.recv p).carriedStrings latestVersion, s.length ≤ 32767 := by
      intro s hs
      have hmem : s ∈ [p.msgKey,p.clientMsgNo,p.channelID,p.fromUID] := hs
      simp only [List.mem_cons, List.not_mem_nil, or_false] at hmem
      rcases hmem with rfl | rfl | rfl | rfl
      · exact hkey
      · exact hno
      · exact hid
      · exact hfrom
    obtain ⟨n,hrun⟩ := forwarded_fits (p := .recv p) ⟨hstrings,hle⟩
    have hform : (Frame.recv p).decodedForm latestVersion = .recv { p with
        framer := { p.framer with
          packetType := .recv
          remainingLength := UInt32.ofNat (encodeRecv p latestVersion).length } } := rfl
    rw [hform] at hrun
    exact ⟨_,n,hrun,⟨rfl,rfl,rfl,rfl⟩⟩

structure Accepted (v : UInt8) (sp p : SendPacket) : Prop where
  same : p = { sp with payload := p.payload }
  payload : v ≤ 2 ∧ p.payload = sp.payload ∨ p.payload.length < sp.payload.length

theorem forwarding_preserves_iff {data : Bytes} {v : UInt8} {sp p : SendPacket} {n : Nat}
    (h : decodePacket data v = .ok (some (.send sp),n)) (hp : Accepted v sp p) {fromUID : Bytes}
    (hfrom : fromUID.length ≤ 32767) (flag : DeviceFlag) (input : SendInput) (messageSeq : UInt32) :
    (SendSurvives p ∧ RecvSurvives (sentMessage fromUID flag p input messageSeq).recvPacket) ↔
      12 + p.msgKey.length + p.clientMsgNo.length + p.channelID.length + p.payload.length ≤
          2 ^ 20 ∧
        26 + p.clientMsgNo.length + p.channelID.length + fromUID.length + p.payload.length ≤
          2 ^ 20 := by
  have hmax : maxRemaingLength.toNat = 2 ^ 20 := rfl
  obtain ⟨hkey,hno,hid,hseq,hlen⟩ := decodePacket_send h
  have hpayload : p.payload.length < 2 ^ 27 := by
    have hle : sp.payload.length ≤ (encodeSend sp v).length := by
      simp only [encodeSend, List.length_append]
      omega
    rcases hp.payload with ⟨-,heq⟩ | hlt
    · rw [heq]
      omega
    · omega
  have hsame := hp.same
  have hkey' : p.msgKey.length ≤ 32767 := by
    rw [hsame]
    exact hkey
  have hno' : p.clientMsgNo.length ≤ 32767 := by
    rw [hsame]
    exact hno
  have hid' : p.channelID.length ≤ 32767 := by
    rw [hsame]
    exact hid
  have hseq' : p.clientSeq.toNat < 2 ^ 32 := by
    rw [hsame]
    exact hseq
  rw [sendSurvives_iff hkey' hno' hid' hseq' hpayload, length_encodeSend_latest, hmax,
    recvSurvives_iff (p := (sentMessage fromUID flag p input messageSeq).recvPacket)
      (Nat.zero_le _) hno' hid' hfrom hpayload, length_encodeRecv_latest, hmax]
  rfl

def helloSend : SendPacket :=
  { framer := { packetType := .send, remainingLength := 15 }
    msgKey := []
    clientSeq := 1
    clientMsgNo := []
    channelID := [0x67]
    channelType := 2
    payload := [0x68,0x65,0x6C,0x6C,0x6F] }

theorem hello_forwarded :
    SendSurvives helloSend ∧
      RecvSurvives (sentMessage [0x75] 0 helloSend ⟨1,0,[]⟩ 1).recvPacket :=
  (forwarding_preserves_iff
    (show decodePacket (encodePacket (.send helloSend) 2) 2 = .ok (some (.send helloSend),17) from rfl)
    ⟨rfl,Or.inl ⟨by decide,rfl⟩⟩ (by decide) 0 ⟨1,0,[]⟩ 1).mpr ⟨by decide,by decide⟩

def fullSend : SendPacket :=
  { framer := { packetType := .send, remainingLength := 1048576 }
    msgKey := []
    clientSeq := 1
    clientMsgNo := []
    channelID := []
    channelType := 2
    payload := List.replicate (2 ^ 20 - 9) 0 }

theorem full_send_undeliverable :
    (∃ n, decodePacket (encodePacket (.send fullSend) 2) 2 = .ok (some (.send fullSend),n)) ∧
      Accepted 2 fullSend fullSend ∧ ¬ SendSurvives fullSend := by
  have hpayload : fullSend.payload.length = 2 ^ 20 - 9 := List.length_replicate
  have hlen : (packetEncode (.send fullSend) 2).length = 2 ^ 20 := by
    simp only [packetEncode, encodeSend, List.length_append, hpayload]
    rfl
  refine ⟨?_,⟨rfl,Or.inl ⟨by decide,rfl⟩⟩,fun h => ?_⟩
  · have hfits : (Frame.send fullSend).WithinLimits 2 := by
      refine ⟨fun s hs => ?_,hlen.le⟩
      rcases List.mem_append.mp hs with hmem | hmem
      · rcases List.mem_append.mp hmem with hmem | hmem
        · cases hmem
        · rw [List.mem_singleton.mp hmem]
          exact Nat.zero_le _
      · rw [List.mem_singleton.mp hmem]
        exact Nat.zero_le _
    have hrun := decodePacket_encodePacket 2 (.send fullSend) [] hfits
    have hform : (Frame.send fullSend).decodedForm 2 = .send fullSend := by
      rw [Frame.decodedForm, hlen]
      rfl
    rw [List.append_nil, hform] at hrun
    exact ⟨_,hrun⟩
  · have hbig := (sendSurvives_iff (Nat.zero_le _) (Nat.zero_le _) (Nat.zero_le _)
      (show fullSend.clientSeq.toNat < 2 ^ 32 by decide) (by rw [hpayload]; decide)).mp h
    rw [length_encodeSend_latest, hpayload] at hbig
    exact absurd hbig (by decide)

end LiMaoIM.Lim

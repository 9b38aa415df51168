import LiMaoIM.Foundation.Digits
import LiMaoIM.Lim.HandleSend

namespace LiMaoIM.Lim

open LiMaoIM.Proto LiMaoIM.Bytes

def recvVerityString (r : RecvPacket) : Bytes :=
  signed r.messageID.toInt ++ decimal r.messageSeq.toNat ++ r.clientMsgNo ++
    signed r.timestamp.toInt ++ r.fromUID ++ r.channelID ++ decimal r.channelType.toNat ++ r.payload

structure SameSendFields (s₁ s₂ : SendPacket) : Prop where
  clientSeq : s₁.clientSeq = s₂.clientSeq
  clientMsgNo : s₁.clientMsgNo = s₂.clientMsgNo
  channelID : s₁.channelID = s₂.channelID
  channelType : s₁.channelType = s₂.channelType
  payload : s₁.payload = s₂.payload

structure SameRecvFields (r₁ r₂ : RecvPacket) : Prop where
  messageID : r₁.messageID = r₂.messageID
  messageSeq : r₁.messageSeq = r₂.messageSeq
  clientMsgNo : r₁.clientMsgNo = r₂.clientMsgNo
  timestamp : r₁.timestamp = r₂.timestamp
  fromUID : r₁.fromUID = r₂.fromUID
  channelID : r₁.channelID = r₂.channelID
  channelType : r₁.channelType = r₂.channelType
  payload : r₁.payload = r₂.payload

structure SendUnambiguous (s : SendPacket) : Prop where
  clientSeq : s.clientSeq.toNat < 10
  clientMsgNo : s.clientMsgNo = []
  channelID : s.channelID = []
  channelType : s.channelType.toNat < 10
  payload : DigitFree s.payload

structure RecvUnambiguous (r : RecvPacket) : Prop where
  messageID : r.messageID.toInt.natAbs < 10
  messageSeq : r.messageSeq.toNat < 10
  clientMsgNo : DigitFree r.clientMsgNo
  noMinus : r.timestamp = 0 ∨ r.clientMsgNo.getLast? ≠ some minus
  timestamp_nonneg : 0 ≤ r.timestamp.toInt
  timestamp : r.timestamp.toInt < 10
  fromUID : r.fromUID = []
  channelID : r.channelID = []
  channelType : r.channelType.toNat < 10
  payload : DigitFree r.payload

theorem tail_of_determined (channelID payload : Bytes) (channelType : UInt8)
    (h : ∀ channelID' channelType' payload',
      channelID ++ (decimal channelType.toNat ++ payload) =
        channelID' ++ (decimal (UInt8.toNat channelType') ++ payload') → payload = payload') :
    channelType.toNat < 10 ∧ DigitFree payload := by
  constructor
  · by_contra hle
    have heq := h channelID (channelType / 10) (digit (channelType.toNat % 10) :: payload) (by
      rw [decimal_of_le (Nat.le_of_not_lt hle), List.append_assoc]
      rfl)
    exact List.cons_ne_self _ _ heq.symm
  · by_contra hdigit
    obtain ⟨a,n,b,hn,hab,-,hb⟩ := exists_digit_of_not_digitFree hdigit
    have htoNat : (UInt8.ofNat n).toNat = n := UInt8.toNat_ofNat_of_lt' (hn.trans (by decide))
    refine hb (h (channelID ++ decimal channelType.toNat ++ a) (UInt8.ofNat n) b ?_)
    rw [htoNat, decimal_of_lt hn, hab]
    simp only [List.append_assoc, List.cons_append, List.nil_append]

section Send

variable {s : SendPacket}

theorem sendVerityString_render (s : SendPacket) :
    sendVerityString s =
      render [] [(s.clientSeq.toNat,s.clientMsgNo ++ s.channelID),
        (s.channelType.toNat,s.payload)] := by
  simp only [sendVerityString, render, List.append_assoc, List.nil_append]

theorem SendUnambiguous.sameFields (h : SendUnambiguous s) {s' : SendPacket}
    (heq : sendVerityString s = sendVerityString s') : SameSendFields s s' := by
  have hempty : s.clientMsgNo ++ s.channelID = [] := by rw [h.clientMsgNo, h.channelID]; rfl
  have hplain : Plain [] [(s.clientSeq.toNat,s.clientMsgNo ++ s.channelID),
      (s.channelType.toNat,s.payload)] := by
    rw [hempty]
    exact plain_cons.mpr ⟨by decide,h.clientSeq,plain_cons.mpr
      ⟨by decide,h.channelType,h.payload,fun e he => absurd he List.not_mem_nil⟩⟩
  rw [sendVerityString_render, sendVerityString_render] at heq
  obtain ⟨-,hfields⟩ := hplain.unique (by simp only [List.length_cons]) heq
  simp only [List.cons.injEq, Prod.mk.injEq, and_true, hempty] at hfields
  obtain ⟨⟨hseq,hno⟩,htype,hpayload⟩ := hfields
  obtain ⟨hno,hchannel⟩ := List.append_eq_nil_iff.mp hno.symm
  exact ⟨UInt64.toNat_inj.mp hseq,h.clientMsgNo.trans hno.symm,h.channelID.trans hchannel.symm,
    UInt8.toNat_inj.mp htype,hpayload⟩

theorem sendUnambiguous_of_determined
    (h : ∀ s', sendVerityString s = sendVerityString s' → SameSendFields s s') :
    SendUnambiguous s := by
  have hno : s.clientMsgNo = [] := by
    refine (h { s with
      clientMsgNo := []
      channelID := s.clientMsgNo ++ s.channelID } ?_).clientMsgNo
    simp only [sendVerityString, List.append_assoc, List.nil_append]
  have hchannel : s.channelID = [] := by
    refine (h { s with clientMsgNo := s.clientMsgNo ++ s.channelID, channelID := [] } ?_).channelID
    simp only [sendVerityString, List.append_assoc, List.nil_append]
  have hseq : s.clientSeq.toNat < 10 := by
    by_contra hle
    have hsame := h { s with
      clientSeq := s.clientSeq / 10
      clientMsgNo := digit (s.clientSeq.toNat % 10) :: s.clientMsgNo } (by
        simp only [sendVerityString, decimal_of_le (Nat.le_of_not_lt hle), List.append_assoc,
          List.cons_append, List.nil_append]
        rfl)
    exact List.cons_ne_self _ _ hsame.clientMsgNo.symm
  have htail := tail_of_determined s.channelID s.payload s.channelType
    fun channelID channelType payload heq =>
      (h { s with channelID := channelID, channelType := channelType, payload := payload } (by
        simp only [sendVerityString, List.append_assoc, heq])).payload
  exact ⟨hseq,hno,hchannel,htail.1,htail.2⟩

end Send

section Recv

variable {r : RecvPacket}

theorem recvVerityString_render (r : RecvPacket) :
    recvVerityString r =
      render (sign r.messageID.toInt) [(r.messageID.toInt.natAbs,[]),
        (r.messageSeq.toNat,r.clientMsgNo ++ sign r.timestamp.toInt),
        (r.timestamp.toInt.natAbs,r.fromUID ++ r.channelID),(r.channelType.toNat,r.payload)] := by
  simp only [recvVerityString, signed_eq, render, List.append_assoc, List.nil_append]

theorem int_eq_of_sign {i j : Int} (hsign : sign i = sign j) (habs : i.natAbs = j.natAbs) :
    i = j := by
  apply signed_injective
  rw [signed_eq, signed_eq, hsign, habs]

theorem toInt_ofInt_of_natAbs_lt {i : Int} (h : i.natAbs < 10) : (Int32.ofInt i).toInt = i :=
  Int32.toInt_ofInt_of_le (by omega) (by omega)

theorem RecvUnambiguous.sameFields (h : RecvUnambiguous r) {r' : RecvPacket}
    (heq : recvVerityString r = recvVerityString r') : SameRecvFields r r' := by
  have hsign : sign r.timestamp.toInt = [] := if_neg (Int.not_lt.mpr h.timestamp_nonneg)
  have hempty : r.fromUID ++ r.channelID = [] := by rw [h.fromUID, h.channelID]; rfl
  have hplain : Plain (sign r.messageID.toInt) [(r.messageID.toInt.natAbs,[]),
      (r.messageSeq.toNat,r.clientMsgNo ++ sign r.timestamp.toInt),
      (r.timestamp.toInt.natAbs,r.fromUID ++ r.channelID),(r.channelType.toNat,r.payload)] := by
    have htime : r.timestamp.toInt.natAbs < 10 :=
      Int.natAbs_lt_natAbs_of_nonneg_of_lt h.timestamp_nonneg h.timestamp
    rw [hempty, hsign, List.append_nil]
    exact plain_cons.mpr ⟨digitFree_sign _,h.messageID,plain_cons.mpr ⟨by decide,h.messageSeq,
      plain_cons.mpr ⟨h.clientMsgNo,htime,plain_cons.mpr ⟨by decide,h.channelType,h.payload,
        fun e he => absurd he List.not_mem_nil⟩⟩⟩⟩
  rw [recvVerityString_render, recvVerityString_render] at heq
  obtain ⟨hid,hfields⟩ := hplain.unique (by simp only [List.length_cons]) heq
  simp only [List.cons.injEq, Prod.mk.injEq, and_true, hempty, hsign, List.append_nil] at hfields
  obtain ⟨hidAbs,⟨hseq,hno⟩,⟨htime,hfrom⟩,htype,hpayload⟩ := hfields
  obtain ⟨hfrom,hchannel⟩ := List.append_eq_nil_iff.mp hfrom.symm
  have hsign' : sign r'.timestamp.toInt = [] := by
    rw [sign]
    refine if_neg fun hneg => ?_
    rw [sign, if_pos hneg] at hno
    rcases h.noMinus with hzero | hminus
    · rw [hzero, Int32.toInt_zero, Int.natAbs_zero, eq_comm, Int.natAbs_eq_zero] at htime
      exact absurd hneg (Int.not_lt.mpr (le_of_eq htime.symm))
    · exact hminus (hno ▸ List.getLast?_concat)
  rw [hsign', List.append_nil] at hno
  exact ⟨Int64.toInt_inj.mp (int_eq_of_sign hid hidAbs),UInt32.toNat_inj.mp hseq,hno,
    Int32.toInt_inj.mp (int_eq_of_sign (hsign.trans hsign'.symm) htime),
    h.fromUID.trans hfrom.symm,h.channelID.trans hchannel.symm,UInt8.toNat_inj.mp htype,hpayload⟩

section Determined

variable (h : ∀ r', recvVerityString r = recvVerityString r' → SameRecvFields r r')

include h

theorem fromUID_nil_of_determined : r.fromUID = [] := by
  refine (h { r with fromUID := [], channelID := r.fromUID ++ r.channelID } ?_).fromUID
  simp only [recvVerityString, List.append_assoc, List.nil_append]

theorem channelID_nil_of_determined : r.channelID = [] := by
  refine (h { r with fromUID := r.fromUID ++ r.channelID, channelID := [] } ?_).channelID
  simp only [recvVerityString, List.append_assoc, List.nil_append]

theorem messageID_lt_of_determined : r.messageID.toInt.natAbs < 10 := by
  by_contra hle
  have hle := Nat.le_of_not_lt hle
  have hid : (r.messageID / 10).toInt = r.messageID.toInt.tdiv 10 :=
    Int64.toInt_div_of_ne_right _ _ (by decide)
  have hseq : (UInt32.ofNat (r.messageID.toInt.natAbs % 10)).toNat =
      r.messageID.toInt.natAbs % 10 :=
    UInt32.toNat_ofNat_of_lt' ((Nat.mod_lt _ (by decide)).trans (by decide))
  have hsame := h { r with
    messageID := r.messageID / 10
    messageSeq := UInt32.ofNat (r.messageID.toInt.natAbs % 10)
    clientMsgNo := decimal r.messageSeq.toNat ++ r.clientMsgNo } (by
      simp only [recvVerityString, hid, hseq, signed_of_le hle,
        decimal_of_lt (Nat.mod_lt _ (show 0 < 10 by decide)), List.append_assoc])
  have hno : r.clientMsgNo = decimal r.messageSeq.toNat ++ r.clientMsgNo := hsame.clientMsgNo
  have hlength := congrArg List.length hno
  rw [List.length_append] at hlength
  have hpos := length_decimal_pos r.messageSeq.toNat
  omega

theorem messageSeq_lt_of_determined : r.messageSeq.toNat < 10 := by
  by_contra hle
  have hsame := h { r with
    messageSeq := r.messageSeq / 10
    clientMsgNo := digit (r.messageSeq.toNat % 10) :: r.clientMsgNo } (by
      simp only [recvVerityString, decimal_of_le (Nat.le_of_not_lt hle), List.append_assoc,
        List.cons_append, List.nil_append]
      rfl)
  exact List.cons_ne_self _ _ hsame.clientMsgNo.symm

theorem clientMsgNo_digitFree_of_determined : DigitFree r.clientMsgNo := by
  by_contra hdigit
  obtain ⟨a,n,b,hn,hab,ha,-⟩ := exists_digit_of_not_digitFree hdigit
  have htime : (Int32.ofInt n).toInt = n := toInt_ofInt_of_natAbs_lt hn
  have hsame := h { r with
    clientMsgNo := a
    timestamp := Int32.ofInt n
    fromUID := b ++ signed r.timestamp.toInt ++ r.fromUID } (by
      simp only [recvVerityString, hab, htime, signed_natCast, decimal_of_lt hn, List.append_assoc,
        List.cons_append, List.nil_append])
  exact ha hsame.clientMsgNo

theorem timestamp_natAbs_lt_of_determined : r.timestamp.toInt.natAbs < 10 := by
  by_contra hle
  have hle := Nat.le_of_not_lt hle
  have htime : (r.timestamp / 10).toInt = r.timestamp.toInt.tdiv 10 :=
    Int32.toInt_div_of_ne_right _ _ (by decide)
  have hsame := h { r with
    timestamp := r.timestamp / 10
    fromUID := digit (r.timestamp.toInt.natAbs % 10) :: r.fromUID } (by
      simp only [recvVerityString, htime, signed_of_le hle, List.append_assoc, List.cons_append,
        List.nil_append])
  exact List.cons_ne_self _ _ hsame.fromUID.symm

theorem timestamp_nonneg_of_determined : 0 ≤ r.timestamp.toInt := by
  by_contra hneg
  have hneg := Int.not_le.mp hneg
  have hlt := timestamp_natAbs_lt_of_determined h
  have htime : (Int32.ofInt r.timestamp.toInt.natAbs).toInt = r.timestamp.toInt.natAbs :=
    toInt_ofInt_of_natAbs_lt hlt
  have hsame := h { r with
    clientMsgNo := r.clientMsgNo ++ [minus]
    timestamp := Int32.ofInt r.timestamp.toInt.natAbs } (by
      have hsigned : signed r.timestamp.toInt = minus :: decimal r.timestamp.toInt.natAbs :=
        if_pos hneg
      simp only [recvVerityString, htime, signed_natCast, hsigned, List.append_assoc,
        List.cons_append, List.nil_append])
  have hno : r.clientMsgNo = r.clientMsgNo ++ [minus] := hsame.clientMsgNo
  exact List.cons_ne_nil _ _ (List.self_eq_append_right.mp hno)

theorem noMinus_of_determined : r.timestamp = 0 ∨ r.clientMsgNo.getLast? ≠ some minus := by
  by_contra hminus
  push Not at hminus
  obtain ⟨hzero,hlast⟩ := hminus
  obtain ⟨a,ha⟩ := List.getLast?_eq_some_iff.mp hlast
  have hlt := timestamp_natAbs_lt_of_determined h
  have hnonneg := timestamp_nonneg_of_determined h
  have htime : (Int32.ofInt (-r.timestamp.toInt)).toInt = -r.timestamp.toInt :=
    toInt_ofInt_of_natAbs_lt (by rw [Int.natAbs_neg]; exact hlt)
  have hpos : -r.timestamp.toInt < 0 :=
    Int.neg_neg_of_pos (lt_of_le_of_ne hnonneg fun h0 => hzero (Int32.toInt_inj.mp h0.symm))
  have hsame := h { r with
    clientMsgNo := a
    timestamp := Int32.ofInt (-r.timestamp.toInt) } (by
      have hsigned : signed r.timestamp.toInt = decimal r.timestamp.toInt.natAbs :=
        if_neg (Int.not_lt.mpr hnonneg)
      have hsigned' : signed (-r.timestamp.toInt) = minus :: decimal r.timestamp.toInt.natAbs := by
        rw [signed, if_pos hpos, Int.natAbs_neg]
      simp only [recvVerityString, htime, ha, hsigned, hsigned', List.append_assoc,
        List.cons_append, List.nil_append])
  have hno : r.clientMsgNo = a := hsame.clientMsgNo
  exact List.cons_ne_nil _ _ (List.append_right_eq_self.mp (ha.symm.trans hno))

theorem recv_tail_of_determined : r.channelType.toNat < 10 ∧ DigitFree r.payload :=
  tail_of_determined r.channelID r.payload r.channelType fun channelID channelType payload heq =>
    (h { r with channelID := channelID, channelType := channelType, payload := payload } (by
      simp only [recvVerityString, List.append_assoc, heq])).payload

end Determined

theorem recvUnambiguous_of_determined
    (h : ∀ r', recvVerityString r = recvVerityString r' → SameRecvFields r r') :
    RecvUnambiguous r where
  messageID := messageID_lt_of_determined h
  messageSeq := messageSeq_lt_of_determined h
  clientMsgNo := clientMsgNo_digitFree_of_determined h
  noMinus := noMinus_of_determined h
  timestamp_nonneg := timestamp_nonneg_of_determined h
  timestamp := by
    have hlt := timestamp_natAbs_lt_of_determined h
    rw [← Int.natAbs_of_nonneg (timestamp_nonneg_of_determined h)]
    exact Int.ofNat_lt.mpr hlt
  fromUID := fromUID_nil_of_determined h
  channelID := channelID_nil_of_determined h
  channelType := (recv_tail_of_determined h).1
  payload := (recv_tail_of_determined h).2

end Recv

theorem verityString_determines_iff (s : SendPacket) (r : RecvPacket) :
    ((∀ s', sendVerityString s = sendVerityString s' → SameSendFields s s') ↔
        SendUnambiguous s) ∧
      ((∀ r', recvVerityString r = recvVerityString r' → SameRecvFields r r') ↔
        RecvUnambiguous r) :=
  ⟨⟨sendUnambiguous_of_determined,fun h _ => h.sameFields⟩,
    ⟨recvUnambiguous_of_determined,fun h _ => h.sameFields⟩⟩

def numberedSend (clientSeq : UInt64) (clientMsgNo : Bytes) : SendPacket where
  msgKey := []
  clientSeq := clientSeq
  clientMsgNo := clientMsgNo
  channelID := []
  channelType := 1
  payload := []

def numberedRecv (messageID : Int64) (messageSeq : UInt32) : RecvPacket where
  msgKey := []
  messageID := messageID
  messageSeq := messageSeq
  clientMsgNo := []
  timestamp := 0
  fromUID := []
  channelID := []
  channelType := 1
  payload := []

theorem verityString_shifts_digit :
    (¬ ∀ s s' : SendPacket,
      sendVerityString s = sendVerityString s' → SameSendFields s s') ∧
      ¬ ∀ r r' : RecvPacket,
        recvVerityString r = recvVerityString r' → SameRecvFields r r' := by
  constructor
  · intro h
    have hsame := h (numberedSend 1 [0x32]) (numberedSend 12 []) (by decide)
    exact absurd hsame.clientSeq (by decide)
  · intro h
    have hsame := h (numberedRecv 1 23) (numberedRecv 12 3) (by decide)
    exact absurd hsame.messageSeq (by decide)

end LiMaoIM.Lim

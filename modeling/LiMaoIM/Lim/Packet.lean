import LiMaoIM.Foundation.Delimit
import LiMaoIM.Proto.Framing

namespace LiMaoIM.Lim

open Outcome Proto

inductive ConnStatus where
  | noAuth
  | authed
deriving DecidableEq, Repr

structure Conn where
  inbound : Bytes
  status : ConnStatus
  version : UInt8

def Conn.read (c : Conn) : Bytes := c.inbound

def Conn.shiftN (c : Conn) (n : Nat) : Conn := { c with inbound := c.inbound.drop n }

def decodeLengthLoop : List Nat → Bytes → Nat → Nat → Option (Nat × Nat)
  | [], _, rLength, offset => some (rLength,offset)
  | _ :: _, [], _, _ => none
  | multiplier :: ms, digit :: data, rLength, offset =>
      let rLength := rLength ||| ((digit &&& 127).toNat <<< multiplier)
      if digit &&& 128 = 0 then some (rLength,offset + 1)
      else decodeLengthLoop ms data rLength (offset + 1)

def decodeLength (data : Bytes) : Option (Nat × Nat) := decodeLengthLoop multipliers data 0 0

def unpackLoop : Nat → Bytes → Bytes → Bytes
  | 0, _, packetData => packetData
  | _ + 1, [], packetData => packetData
  | fuel + 1, typeAndFlags :: buff, packetData =>
      if (PacketType.ofUInt8 (typeAndFlags >>> 4)).isPingPong then
        unpackLoop fuel buff (packetData ++ [typeAndFlags])
      else
        match decodeLength buff with
        | none => packetData
        | some (reminLen,readSize) =>
            let dataEnd := readSize + reminLen + 1
            if dataEnd ≤ (typeAndFlags :: buff).length then
              unpackLoop fuel ((typeAndFlags :: buff).drop dataEnd)
                (packetData ++ (typeAndFlags :: buff).take dataEnd)
            else packetData

def limUnpacket (c : Conn) : Option Bytes × Conn :=
  let buff := c.read
  if buff.length = 0 then (none,c)
  else
    let packetData := unpackLoop buff.length buff []
    if 0 < packetData.length then (some packetData,c.shiftN packetData.length)
    else (none,c)

inductive LoopState where
  | running
  | done
  | closed
  | panicked
deriving DecidableEq, Repr

structure OnPacketLoop where
  state : LoopState
  packets : List (Option Frame)
  offset : Nat
deriving DecidableEq

def onPacketLoop (decodeMap : PacketType → Option PacketDecodeFunc) (status : ConnStatus)
    (version : UInt8) (data : Bytes) : Nat → Nat → List (Option Frame) → OnPacketLoop
  | 0, offset, packets => ⟨.running,packets,offset⟩
  | fuel + 1, offset, packets =>
      if offset < data.length then
        match decodePacketWith decodeMap (data.drop offset) version with
        | .error _ => ⟨.closed,packets,offset⟩
        | .panic _ => ⟨.panicked,packets,offset⟩
        | .ok (packet,size) =>
            let packets := packets ++ [packet]
            let offset := offset + size
            if status = .noAuth then
              match packet with
              | none => ⟨.panicked,packets,offset⟩
              | some packet =>
                  if packet.getPacketType = .connect then
                    onPacketLoop decodeMap status version data fuel offset packets
                  else ⟨.closed,packets,offset⟩
            else onPacketLoop decodeMap status version data fuel offset packets
      else ⟨.done,packets,offset⟩

def onPacket (decodeMap : PacketType → Option PacketDecodeFunc) (c : Conn) (fuel : Nat) :
    OnPacketLoop :=
  onPacketLoop decodeMap c.status c.version ((limUnpacket c).1.getD []) fuel 0 []

def cutPacket : Bytes → Option Nat
  | [] => none
  | typeAndFlags :: buff =>
      if (PacketType.ofUInt8 (typeAndFlags >>> 4)).isPingPong then some 1
      else
        match decodeLength buff with
        | none => none
        | some (reminLen,readSize) =>
            if readSize + reminLen + 1 ≤ (typeAndFlags :: buff).length then
              some (readSize + reminLen + 1)
            else none

theorem bounded_cutPacket : Delimit.Bounded cutPacket := by
  intro bs n h
  cases bs with
  | nil => cases h
  | cons b buff =>
    simp only [cutPacket] at h
    split at h
    · cases h
      simp
    · split at h
      · cases h
      · split at h
        · cases h
          omega
        · cases h

theorem unpackLoop_eq (fuel : Nat) (buff packetData : Bytes) :
    unpackLoop fuel buff packetData =
      packetData ++ (Delimit.framesLoop cutPacket fuel buff).flatten := by
  induction fuel generalizing buff packetData with
  | zero => simp [unpackLoop, Delimit.framesLoop]
  | succ fuel ih =>
    cases buff with
    | nil => simp [unpackLoop, Delimit.framesLoop, cutPacket]
    | cons b buff =>
      rw [unpackLoop, Delimit.framesLoop, cutPacket]
      split
      · simp [ih]
      · cases decodeLength buff with
        | none => simp
        | some p =>
          obtain ⟨reminLen,readSize⟩ := p
          simp only
          split
          · simp [ih]
          · simp

theorem limUnpacket_released (c : Conn) :
    (limUnpacket c).1.getD [] = (Delimit.frames cutPacket c.inbound).flatten := by
  simp only [limUnpacket, Conn.read, unpackLoop_eq, List.nil_append, Delimit.frames]
  split
  · rename_i h
    simp [h, Delimit.framesLoop]
  · split
    · rfl
    · rename_i h
      exact (List.length_eq_zero_iff.mp (Nat.eq_zero_of_not_pos h)).symm

theorem limUnpacket_rest (c : Conn) :
    (limUnpacket c).2 = c.shiftN (Delimit.frames cutPacket c.inbound).flatten.length := by
  simp only [limUnpacket, Conn.read, unpackLoop_eq, List.nil_append, Delimit.frames]
  split
  · rename_i h
    simp [h, Delimit.framesLoop, Conn.shiftN]
  · split
    · rfl
    · rename_i h
      simp [Nat.eq_zero_of_not_pos h, Conn.shiftN]

theorem decodeLengthLoop_terminated {ms : List Nat} {ds rest : Bytes} {r offset : Nat}
    (ht : Terminated ds) (hl : ds.length ≤ ms.length) :
    decodeLengthLoop ms (ds ++ rest) r offset = some (accumulate ms ds r,offset + ds.length) := by
  refine terminated_induction (motive := fun ms ds => ∀ r offset,
    decodeLengthLoop ms (ds ++ rest) r offset = some (accumulate ms ds r,offset + ds.length))
    (fun m ms digit hd r offset => ?_) (fun m ms digit ds hd ih r offset => ?_) ht hl r offset
  · simp [decodeLengthLoop, accumulate, hd]
  · rw [List.cons_append, decodeLengthLoop, if_neg hd, ih, accumulate, List.length_cons]
    congr 2
    omega

theorem decodeLengthLoop_short {ms : List Nat} {ds data : Bytes} {r offset : Nat}
    (ht : Terminated ds) (hl : ds.length ≤ ms.length) (hp : data <+: ds) (hne : data ≠ ds) :
    decodeLengthLoop ms data r offset = none := by
  refine terminated_induction (motive := fun ms ds => ∀ data r offset, data <+: ds → data ≠ ds →
    decodeLengthLoop ms data r offset = none) (fun m ms digit hd data r offset hp hne => ?_)
    (fun m ms digit ds hd ih data r offset hp hne => ?_) ht hl data r offset hp hne
  · cases data with
    | nil => rfl
    | cons d data =>
      obtain ⟨rfl,hp'⟩ := List.cons_prefix_cons.mp hp
      exact absurd (congrArg (d :: ·) (List.prefix_nil.mp hp')) hne
  · cases data with
    | nil => rfl
    | cons d data =>
      obtain ⟨rfl,hp'⟩ := List.cons_prefix_cons.mp hp
      rw [decodeLengthLoop, if_neg hd, ih data _ _ hp' fun h => hne (h ▸ rfl)]

theorem decodeLength_lengthField {ds : Bytes} {n : Nat} (rest : Bytes) (h : LengthField ds n) :
    decodeLength (ds ++ rest) = some (n,ds.length) := by
  rw [decodeLength, decodeLengthLoop_terminated h.terminated h.length_le, h.value, Nat.zero_add]

theorem cutPacket_pingPong {b : UInt8} (rest : Bytes)
    (hb : (framerFromUint8 b).packetType.isPingPong = true) : cutPacket (b :: rest) = some 1 := by
  have hb' : (PacketType.ofUInt8 (b >>> 4)).isPingPong = true := by
    simpa [framerFromUint8] using hb
  rw [cutPacket, if_pos hb']

theorem cutPacket_lengthField {b : UInt8} {ds body : Bytes} (rest : Bytes)
    (hb : (framerFromUint8 b).packetType.isPingPong = false) (h : LengthField ds body.length) :
    cutPacket (b :: (ds ++ body) ++ rest) = some (b :: (ds ++ body)).length := by
  have hb' : ¬ (PacketType.ofUInt8 (b >>> 4)).isPingPong = true := by
    simpa [framerFromUint8] using hb
  have hle : ds.length + body.length + 1 ≤ (b :: (ds ++ (body ++ rest))).length := by
    simp only [List.length_cons, List.length_append]
    omega
  rw [List.cons_append, List.append_assoc, cutPacket, if_neg hb',
    decodeLength_lengthField _ h]
  simp only [if_pos hle]
  simp only [List.length_cons, List.length_append]

theorem cutPacket_incomplete {b : UInt8} {ds body bs : Bytes}
    (hb : (framerFromUint8 b).packetType.isPingPong = false) (h : LengthField ds body.length)
    (hp : bs <+: b :: (ds ++ body)) (hne : bs ≠ b :: (ds ++ body)) : cutPacket bs = none := by
  have hb' : ¬ (PacketType.ofUInt8 (b >>> 4)).isPingPong = true := by
    simpa [framerFromUint8] using hb
  cases bs with
  | nil => rfl
  | cons c bs =>
    obtain ⟨rfl,hp'⟩ := List.cons_prefix_cons.mp hp
    have hne' : bs ≠ ds ++ body := fun he => hne (he ▸ rfl)
    rw [cutPacket, if_neg hb']
    rcases List.prefix_or_prefix_of_prefix hp' (List.prefix_append ds body) with hlt | hle
    · by_cases he : bs = ds
      · subst he
        have hpos : body ≠ [] := fun hn => hne' (by rw [hn, List.append_nil])
        have hlen : ¬ bs.length + body.length + 1 ≤ (c :: bs).length := by
          have := List.length_pos_iff.mpr hpos
          rw [List.length_cons]
          omega
        have hdec : decodeLength bs = some (body.length,bs.length) := by
          simpa using decodeLength_lengthField [] h
        rw [hdec]
        simp only [if_neg hlen]
      · rw [decodeLength, decodeLengthLoop_short h.terminated h.length_le hlt he]
    · obtain ⟨part,rfl⟩ := hle
      have hpart : part <+: body := (List.prefix_append_right_inj ds).mp hp'
      have hshort : part.length < body.length := by
        rcases Nat.lt_or_ge part.length body.length with hlt | hge
        · exact hlt
        · exact absurd (by rw [hpart.eq_of_length_le hge]) hne'
      have hlen : ¬ ds.length + body.length + 1 ≤ (c :: (ds ++ part)).length := by
        simp only [List.length_cons, List.length_append]
        omega
      rw [decodeLength_lengthField part h]
      simp only [if_neg hlen]

end LiMaoIM.Lim

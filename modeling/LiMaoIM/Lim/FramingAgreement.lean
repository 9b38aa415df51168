import LiMaoIM.Lim.Packet

namespace LiMaoIM.Lim

open Outcome Proto

structure Overlong (b : UInt8) (ds body : Bytes) : Prop where
  notPing : (framerFromUint8 b).packetType.isPingPong = false
  length_eq : ds.length = multipliers.length
  continues : ∀ d ∈ ds, d &&& 128 ≠ 0
  value : accumulate multipliers ds 0 = body.length

inductive Delimited : Bytes → Prop
  | pingPong (b : UInt8) (hb : (framerFromUint8 b).packetType.isPingPong = true) : Delimited [b]
  | field (b : UInt8) (ds body : Bytes) (hb : (framerFromUint8 b).packetType.isPingPong = false)
      (h : LengthField ds body.length) : Delimited (b :: (ds ++ body))
  | overlong (b : UInt8) (ds body : Bytes) (h : Overlong b ds body) : Delimited (b :: (ds ++ body))

theorem Delimited.length_pos {c : Bytes} (h : Delimited c) : 0 < c.length := by
  cases h <;> simp

theorem decodeLengthLoop_split {ms : List Nat} {data : Bytes} {r offset v k : Nat}
    (h : decodeLengthLoop ms data r offset = some (v,k)) :
    ∃ ds rest, data = ds ++ rest ∧ k = offset + ds.length ∧ v = accumulate ms ds r ∧
      ((Terminated ds ∧ ds.length ≤ ms.length) ∨
        (ds.length = ms.length ∧ ∀ d ∈ ds, d &&& 128 ≠ 0)) := by
  induction ms generalizing data r offset with
  | nil =>
    cases h
    exact ⟨[],data,rfl,rfl,rfl,Or.inr ⟨rfl,by simp⟩⟩
  | cons m ms ih =>
    cases data with
    | nil => cases h
    | cons digit data =>
      rw [decodeLengthLoop] at h
      by_cases hd : digit &&& 128 = 0
      · simp only [hd, if_true, Option.some.injEq, Prod.mk.injEq] at h
        obtain ⟨rfl,rfl⟩ := h
        exact ⟨[digit],data,rfl,rfl,by simp [accumulate],Or.inl ⟨by simp [Terminated, hd],by simp⟩⟩
      · simp only [hd, if_false] at h
        obtain ⟨ds,rest,rfl,rfl,rfl,hcase⟩ := ih h
        refine ⟨digit :: ds,rest,rfl,by rw [List.length_cons]; omega,rfl,?_⟩
        rcases hcase with ⟨ht,hl⟩ | ⟨hl,hc⟩
        · exact Or.inl ⟨by simpa [Terminated, hd] using ht,by simpa using hl⟩
        · refine Or.inr ⟨by simpa using hl,?_⟩
          intro d hmem
          rcases List.mem_cons.mp hmem with rfl | hmem
          · exact hd
          · exact hc d hmem

theorem cutPacket_delimited {bs : Bytes} {n : Nat} (h : cutPacket bs = some n) :
    Delimited (bs.take n) := by
  cases bs with
  | nil => cases h
  | cons b buff =>
    simp only [cutPacket] at h
    split at h
    · rename_i hb
      cases h
      exact .pingPong b hb
    · rename_i hb
      have hb' : (framerFromUint8 b).packetType.isPingPong = false := by
        simpa [framerFromUint8] using hb
      split at h
      · cases h
      · rename_i r k hdec
        split at h
        · rename_i hle
          cases h
          obtain ⟨ds,rest,rfl,rfl,rfl,hcase⟩ := decodeLengthLoop_split hdec
          simp only [List.length_cons, List.length_append] at hle
          obtain ⟨n,hn⟩ : ∃ n, accumulate multipliers ds 0 = n := ⟨_,rfl⟩
          rw [hn] at hle ⊢
          have hbody : (rest.take n).length = n := by
            rw [List.length_take]
            omega
          have htake : (b :: (ds ++ rest)).take (0 + ds.length + n + 1) =
              b :: (ds ++ rest.take n) := by
            have e : 0 + ds.length + n = ds.length + n := by omega
            rw [List.take_succ_cons, e, List.take_length_add_append]
          rw [htake]
          rcases hcase with ⟨ht,hl⟩ | ⟨hl,hc⟩
          · exact .field b ds _ hb' ⟨ht,hl,by rw [hn, hbody]⟩
          · exact .overlong b ds _ ⟨hb',hl,hc,by rw [hn, hbody]⟩
        · cases h

theorem frames_delimited (bs : Bytes) : ∀ c ∈ Delimit.frames cutPacket bs, Delimited c := by
  induction bs using Delimit.frames_induction bounded_cutPacket with
  | none bs h => simp [Delimit.frames_none h]
  | some bs n h ih =>
    rw [Delimit.frames_some bounded_cutPacket h]
    intro c hc
    rcases List.mem_cons.mp hc with rfl | hc
    · exact cutPacket_delimited h
    · exact ih c hc

theorem protoDecodeLengthLoop_continues {ms : List Nat} {ds rest : Bytes} {r offset : Nat}
    (hl : ds.length = ms.length) (hc : ∀ d ∈ ds, d &&& 128 ≠ 0) :
    Proto.decodeLengthLoop ms (ds ++ rest) r offset =
      .ok (accumulate ms ds r,offset + ds.length + 1) := by
  induction ms generalizing ds r offset with
  | nil =>
    have hn : ds = [] := List.length_eq_zero_iff.mp hl
    subst hn
    rfl
  | cons m ms ih =>
    cases ds with
    | nil => simp at hl
    | cons digit ds =>
      simp only [List.cons_append, Proto.decodeLengthLoop, if_neg (hc digit List.mem_cons_self)]
      rw [ih (by simpa using hl) fun d hd => hc d (List.mem_cons_of_mem _ hd)]
      simp only [accumulate, List.length_cons, Outcome.ok.injEq, Prod.mk.injEq, true_and]
      omega

def shiftedBody (body tail : Bytes) : Bytes := ((body ++ tail).take (body.length + 1)).drop 1

theorem decodePacketWith_overlong (decodeMap : PacketType → Option PacketDecodeFunc)
    {b : UInt8} {ds body tail : Bytes} {version : UInt8} (h : Overlong b ds body) :
    decodePacketWith decodeMap (b :: (ds ++ (body ++ tail))) version =
      if maxRemaingLength.toNat < body.length then
        .error ("消息超出最大限制[" ++ toString maxRemaingLength.toNat ++ "]！")
      else if tail = [] then .ok (none,0)
      else decodeBody decodeMap ((framerFromUint8 b).withLength body.length)
        (shiftedBody body tail) version >>=
          fun frame => pure (some frame,(b :: (ds ++ body)).length + 1) := by
  have hn : body.length < 2 ^ 28 := h.value ▸ accumulate_multipliers_lt ds
  have hl : ds.length = 4 := h.length_eq
  have hfr : decodeFramer (b :: (ds ++ (body ++ tail))) =
      .ok ((framerFromUint8 b).withLength body.length,5) := by
    simp [decodeFramer, h.notPing, Proto.decodeLength,
      protoDecodeLengthLoop_continues h.length_eq h.continues, Framer.withLength, h.value, hl]
  have htail : (b :: (ds ++ (body ++ tail))).length < body.length + 1 + 5 ↔ tail = [] := by
    rw [← List.length_eq_zero_iff]
    simp only [List.length_cons, List.length_append, hl]
    omega
  have hbody : ((b :: (ds ++ (body ++ tail))).take (body.length + 1 + 5)).drop (1 + 5) =
      shiftedBody body tail := by
    have e1 : body.length + 1 + 5 = (ds.length + (body.length + 1)) + 1 := by omega
    have e2 : 1 + 5 = (ds.length + 1) + 1 := by omega
    rw [e1, e2, List.take_succ_cons, List.drop_succ_cons, List.take_length_add_append,
      List.drop_length_add_append, shiftedBody]
  have hsize : 1 + 5 + body.length = (b :: (ds ++ body)).length + 1 := by
    simp only [List.length_cons, List.length_append, hl]
    omega
  rw [decodePacketWith_of_framer decodeMap hn h.notPing hfr, hbody, hsize]
  simp only [htail]

variable (decodeMap : PacketType → Option PacketDecodeFunc) (version : UInt8)

def Total : Prop := ∀ t f, decodeMap t = some f → ∀ framer body v, (f framer body v).Returns

def Agrees (packet tail : Bytes) : Prop :=
  (∃ e, decodePacketWith decodeMap (packet ++ tail) version = .error e) ∨
    ∃ frame, decodePacketWith decodeMap (packet ++ tail) version = .ok (some frame,packet.length)

structure Misread (b : UInt8) (ds body tail : Bytes) : Prop where
  overlong : Overlong b ds body
  within : body.length ≤ maxRemaingLength.toNat
  decodes : tail = [] ∨ ∃ frame, decodeBody decodeMap ((framerFromUint8 b).withLength body.length)
    (shiftedBody body tail) version = .ok frame

variable {decodeMap}

theorem Total.decodeBody_returns (ht : Total decodeMap) (framer : Framer) (body : Bytes) :
    (decodeBody decodeMap framer body version).Returns := by
  rw [decodeBody]
  cases h : decodeMap framer.packetType with
  | none => exact Or.inr ⟨_,rfl⟩
  | some f =>
    rcases ht _ f h framer body version with ⟨a,ha⟩ | ⟨e,he⟩
    · exact Or.inl ⟨a,by simp [ha, mapError]⟩
    · exact Or.inr ⟨_,by simp [he, mapError]; rfl⟩

theorem agrees_pingPong {b : UInt8} (tail : Bytes)
    (hb : (framerFromUint8 b).packetType.isPingPong = true) : Agrees decodeMap version [b] tail := by
  have hf : decodeFramer (b :: tail) = .ok (framerFromUint8 b,0) := by
    simp [decodeFramer, hb]
  have ht : (framerFromUint8 b).packetType = .ping ∨ (framerFromUint8 b).packetType = .pong := by
    simpa [PacketType.isPingPong] using hb
  right
  rcases ht with ht | ht
  · exact ⟨.ping none,by simp [decodePacketWith, hf, ht]⟩
  · exact ⟨.pong none,by simp [decodePacketWith, hf, ht]⟩

theorem agrees_field (hd : Total decodeMap) {b : UInt8} {ds body : Bytes} (tail : Bytes)
    (hb : (framerFromUint8 b).packetType.isPingPong = false) (h : LengthField ds body.length) :
    Agrees decodeMap version (b :: (ds ++ body)) tail := by
  have hassoc : b :: (ds ++ body) ++ tail = b :: (ds ++ (body ++ tail)) := by simp
  rw [Agrees, hassoc]
  by_cases hm : body.length ≤ maxRemaingLength.toNat
  · rw [decodePacketWith_lengthField decodeMap hb h hm]
    rcases hd.decodeBody_returns version ((framerFromUint8 b).withLength body.length) body with
      ⟨frame,hok⟩ | ⟨e,herr⟩
    · refine Or.inr ⟨frame,?_⟩
      rw [hok]
      simp only [ok_bind, Outcome.pure_eq, List.length_cons, List.length_append, Outcome.ok.injEq,
        Prod.mk.injEq, true_and]
      omega
    · exact Or.inl ⟨e,by rw [herr]; rfl⟩
  · have hn : body.length < 2 ^ 28 := h.value ▸ accumulate_multipliers_lt ds
    left
    rw [decodePacketWith_of_framer decodeMap hn hb (decodeFramer_lengthField hb h),
      if_pos (by omega)]
    exact ⟨_,rfl⟩

theorem agrees_overlong_iff (hd : Total decodeMap) {b : UInt8} {ds body tail : Bytes}
    (h : Overlong b ds body) :
    Agrees decodeMap version (b :: (ds ++ body)) tail ↔
      ¬ Misread decodeMap version b ds body tail := by
  have hassoc : b :: (ds ++ body) ++ tail = b :: (ds ++ (body ++ tail)) := by simp
  rw [Agrees, hassoc, decodePacketWith_overlong decodeMap h]
  by_cases hm : maxRemaingLength.toNat < body.length
  · simp only [hm, if_true, Outcome.error.injEq, exists_eq', true_or, true_iff]
    intro hmis
    exact absurd hmis.within (by omega)
  rw [if_neg hm]
  by_cases ht : tail = []
  · simp only [if_pos ht]
    constructor
    · rintro (⟨e,he⟩ | ⟨frame,hf⟩)
      · cases he
      · cases hf
    · exact fun hmis => absurd ⟨h,by omega,Or.inl ht⟩ hmis
  rw [if_neg ht]
  rcases hd.decodeBody_returns version ((framerFromUint8 b).withLength body.length)
    (shiftedBody body tail) with ⟨frame,hok⟩ | ⟨e,herr⟩
  · rw [hok]
    constructor
    · rintro (⟨e,he⟩ | ⟨f,hf⟩)
      · cases he
      · simp only [ok_bind, Outcome.pure_eq, Outcome.ok.injEq, Prod.mk.injEq] at hf
        omega
    · exact fun hmis => absurd ⟨h,by omega,Or.inr ⟨frame,hok⟩⟩ hmis
  · rw [herr]
    refine ⟨fun _ hmis => ?_,fun _ => Or.inl ⟨e,rfl⟩⟩
    rcases hmis.decodes with hn | ⟨frame,hok⟩
    · exact ht hn
    · rw [herr] at hok
      cases hok

def MisreadPacket (decodeMap : PacketType → Option PacketDecodeFunc) (version : UInt8)
    (packet tail : Bytes) : Prop :=
  ∃ b ds body, packet = b :: (ds ++ body) ∧ Misread decodeMap version b ds body tail

theorem agrees_iff (hd : Total decodeMap) {packet : Bytes} (h : Delimited packet) (tail : Bytes) :
    Agrees decodeMap version packet tail ↔ ¬ MisreadPacket decodeMap version packet tail := by
  cases h with
  | pingPong b hb =>
    refine ⟨fun _ hmis => ?_,fun _ => agrees_pingPong version tail hb⟩
    obtain ⟨b',ds,body,heq,hm⟩ := hmis
    obtain ⟨rfl,-⟩ := List.cons.inj heq
    rw [hm.overlong.notPing] at hb
    cases hb
  | field b ds body hb h =>
    refine ⟨fun _ hmis => ?_,fun _ => agrees_field version hd tail hb h⟩
    obtain ⟨b',es,body',heq,hm⟩ := hmis
    obtain ⟨rfl,htl⟩ := List.cons.inj heq
    have hle : ds.length ≤ es.length := hm.overlong.length_eq ▸ h.length_le
    exact h.terminated.append_continues htl hle hm.overlong.continues
  | overlong b ds body h =>
    rw [agrees_overlong_iff version hd h]
    refine not_congr ⟨fun hm => ⟨b,ds,body,rfl,hm⟩,?_⟩
    rintro ⟨b',es,body',heq,hm⟩
    obtain ⟨rfl,htl⟩ := List.cons.inj heq
    obtain ⟨rfl,rfl⟩ := List.append_inj htl (h.length_eq.trans hm.overlong.length_eq.symm)
    exact hm

theorem onPacketLoop_follows (status : ConnStatus) {data : Bytes} {packets : List Bytes}
    {offset : Nat} (out : List (Option Frame)) (hdata : data.drop offset = packets.flatten)
    (hpos : ∀ p ∈ packets, 0 < p.length)
    (ha : ∀ pre p post, packets = pre ++ p :: post →
      Agrees decodeMap version p post.flatten) (fuel : Nat) :
    ∃ k ≤ packets.length, ∃ frames : List Frame, frames.length = k ∧
      (onPacketLoop decodeMap status version data fuel offset out).offset =
        offset + (packets.take k).flatten.length ∧
      (onPacketLoop decodeMap status version data fuel offset out).packets =
        out ++ frames.map some ∧
      (packets.length < fuel →
        (onPacketLoop decodeMap status version data fuel offset out).state = .done ∨
          (onPacketLoop decodeMap status version data fuel offset out).state = .closed) := by
  induction packets generalizing fuel offset out with
  | nil =>
    refine ⟨0,le_rfl,[],rfl,?_⟩
    have hlen : ¬ offset < data.length := by
      have := congrArg List.length hdata
      simp at this
      omega
    cases fuel with
    | zero => simp [onPacketLoop]
    | succ fuel => simp [onPacketLoop, hlen]
  | cons p packets ih =>
    cases fuel with
    | zero => exact ⟨0,by simp,[],rfl,by simp [onPacketLoop]⟩
    | succ fuel =>
      have hp := hpos p List.mem_cons_self
      have hlen : offset < data.length := by
        have := congrArg List.length hdata
        simp at this
        omega
      have hpost : ∀ q ∈ packets, 0 < q.length := fun q hq => hpos q (List.mem_cons_of_mem _ hq)
      have hsplit : ∀ pre q post, packets = pre ++ q :: post →
          Agrees decodeMap version q post.flatten := by
        intro pre q post h
        exact ha (p :: pre) q post (by rw [h]; rfl)
      have hhead : Agrees decodeMap version p packets.flatten := ha [] p packets rfl
      rw [onPacketLoop, if_pos hlen, hdata, List.flatten_cons]
      rcases hhead with ⟨e,he⟩ | ⟨frame,hok⟩
      · refine ⟨0,by simp,[],rfl,?_⟩
        simp [he]
      · have hdrop : data.drop (offset + p.length) = packets.flatten := by
          rw [← List.drop_drop, hdata, List.flatten_cons, List.drop_left]
        obtain ⟨k,hk,frames,hfl,hoff,hpk,hst⟩ := ih (out ++ [some frame]) hdrop hpost
          hsplit fuel
        have hstop : ∃ k ≤ (p :: packets).length, ∃ frames : List Frame, frames.length = k ∧
            offset + p.length = offset + ((p :: packets).take k).flatten.length ∧
            out ++ [some frame] = out ++ frames.map some :=
          ⟨1,by simp,[frame],rfl,by simp,by simp⟩
        have hgo : ∃ k ≤ (p :: packets).length, ∃ frames : List Frame, frames.length = k ∧
            (onPacketLoop decodeMap status version data fuel (offset + p.length)
              (out ++ [some frame])).offset = offset + ((p :: packets).take k).flatten.length ∧
            (onPacketLoop decodeMap status version data fuel (offset + p.length)
              (out ++ [some frame])).packets = out ++ frames.map some := by
          refine ⟨k + 1,by simpa using hk,frame :: frames,by simp [hfl],?_,?_⟩
          · rw [hoff, List.take_succ_cons, List.flatten_cons, List.length_append]
            omega
          · rw [hpk]
            simp
        simp only [hok]
        split
        · split
          · obtain ⟨k,hk,frames,h1,h2,h3⟩ := hgo
            exact ⟨k,hk,frames,h1,h2,h3,fun h => hst (by simpa using h)⟩
          · obtain ⟨k,hk,frames,h1,h2,h3⟩ := hstop
            exact ⟨k,hk,frames,h1,h2,h3,fun _ => Or.inr rfl⟩
        · obtain ⟨k,hk,frames,h1,h2,h3⟩ := hgo
          exact ⟨k,hk,frames,h1,h2,h3,fun h => hst (by simpa using h)⟩

structure FramingAgrees (decodeMap : PacketType → Option PacketDecodeFunc) (c : Conn) : Prop where
  terminates : ∃ bound, ∀ fuel ≥ bound,
    (onPacket decodeMap c fuel).state = .done ∨ (onPacket decodeMap c fuel).state = .closed
  agrees : ∀ pre packet post, Delimit.frames cutPacket c.inbound = pre ++ packet :: post →
    Agrees decodeMap c.version packet post.flatten
  advances : ∀ fuel, ∃ k ≤ (Delimit.frames cutPacket c.inbound).length,
    (onPacket decodeMap c fuel).offset =
        ((Delimit.frames cutPacket c.inbound).take k).flatten.length ∧
      (onPacket decodeMap c fuel).packets.length = k ∧ none ∉ (onPacket decodeMap c fuel).packets

theorem framing_agrees_iff (decodeMap : PacketType → Option PacketDecodeFunc) (c : Conn)
    (hd : Total decodeMap) :
    FramingAgrees decodeMap c ↔
      ∀ pre packet post, Delimit.frames cutPacket c.inbound = pre ++ packet :: post →
        ¬ MisreadPacket decodeMap c.version packet post.flatten := by
  have hdel : ∀ pre packet post, Delimit.frames cutPacket c.inbound = pre ++ packet :: post →
      Delimited packet := by
    intro pre packet post h
    exact frames_delimited c.inbound packet (by simp [h])
  constructor
  · intro h pre packet post hs
    exact (agrees_iff c.version hd (hdel pre packet post hs) _).mp (h.agrees pre packet post hs)
  · intro h
    have ha : ∀ pre packet post, Delimit.frames cutPacket c.inbound = pre ++ packet :: post →
        Agrees decodeMap c.version packet post.flatten := by
      intro pre packet post hs
      exact (agrees_iff c.version hd (hdel pre packet post hs) _).mpr (h pre packet post hs)
    have hdata : ((limUnpacket c).1.getD []).drop 0 =
        (Delimit.frames cutPacket c.inbound).flatten := by
      rw [List.drop_zero, limUnpacket_released c]
    have hpos : ∀ p ∈ Delimit.frames cutPacket c.inbound, 0 < p.length :=
      fun p hp => (frames_delimited c.inbound p hp).length_pos
    have hloop := onPacketLoop_follows c.version c.status [] hdata hpos ha
    refine ⟨⟨(Delimit.frames cutPacket c.inbound).length + 1,fun fuel hfuel => ?_⟩,ha,fun fuel => ?_⟩
    · obtain ⟨k,hk,frames,h1,h2,h3,h4⟩ := hloop fuel
      exact h4 (by omega)
    · obtain ⟨k,hk,frames,h1,h2,h3,h4⟩ := hloop fuel
      refine ⟨k,hk,by simpa [onPacket] using h2,?_,?_⟩
      · rw [onPacket, h3]
        simpa using h1
      · rw [onPacket, h3]
        simp

theorem onPacketLoop_stuck {data : Bytes} {offset : Nat}
    (h : decodePacketWith decodeMap (data.drop offset) version = .ok (none,0))
    (hlt : offset < data.length) (fuel : Nat) (out : List (Option Frame)) :
    (onPacketLoop decodeMap .authed version data fuel offset out).state = .running := by
  induction fuel generalizing out with
  | zero => rfl
  | succ fuel ih =>
    rw [onPacketLoop, if_pos hlt, h]
    exact ih (out ++ [none])

def recovered (decodeMap : PacketType → Option PacketDecodeFunc) :
    PacketType → Option PacketDecodeFunc := fun t =>
  (decodeMap t).map fun decodeFunc framer body v =>
    match decodeFunc framer body v with
    | .ok frame => .ok frame
    | .error e => .error e
    | .panic e => .error e

theorem total_recovered (decodeMap : PacketType → Option PacketDecodeFunc) :
    Total (recovered decodeMap) := by
  intro t f hf framer body v
  obtain ⟨g,hg,rfl⟩ := Option.map_eq_some_iff.mp hf
  simp only
  cases g framer body v with
  | ok frame => exact Or.inl ⟨frame,rfl⟩
  | error e => exact Or.inr ⟨e,rfl⟩
  | panic e => exact Or.inr ⟨e,rfl⟩

def overlongDisconnect : Conn := ⟨[0x90,0x80,0x80,0x80,0x80],.authed,4⟩

theorem overlongDisconnect_disagrees :
    Total (recovered packetDecodeMap) ∧
      ¬ FramingAgrees (recovered packetDecodeMap) overlongDisconnect ∧
      ∀ fuel, (onPacket (recovered packetDecodeMap) overlongDisconnect fuel).state = .running := by
  have hstuck : ∀ fuel,
      (onPacket (recovered packetDecodeMap) overlongDisconnect fuel).state = .running :=
    fun fuel => onPacketLoop_stuck _ rfl (by decide) fuel []
  refine ⟨total_recovered _,fun h => ?_,hstuck⟩
  obtain ⟨bound,hb⟩ := h.terminates
  rcases hb bound le_rfl with h | h
  · rw [hstuck] at h
    cases h
  · rw [hstuck] at h
    cases h

def shortDisconnect : Conn := ⟨[0x90,3,0,0,0],.authed,4⟩

theorem shortDisconnect_agrees :
    Total (recovered packetDecodeMap) ∧
      FramingAgrees (recovered packetDecodeMap) shortDisconnect := by
  refine ⟨total_recovered _,(framing_agrees_iff _ _ (total_recovered _)).mpr ?_⟩
  have hframes : Delimit.frames cutPacket shortDisconnect.inbound = [[0x90,3,0,0,0]] := by decide
  rintro pre packet post h ⟨b,ds,body,hp,hm⟩
  have hmem : packet ∈ Delimit.frames cutPacket shortDisconnect.inbound := by simp [h]
  rw [hframes, List.mem_singleton, hp] at hmem
  obtain ⟨-,htl⟩ := List.cons.inj hmem
  cases ds with
  | nil => cases hm.overlong.length_eq
  | cons d ds =>
    obtain ⟨rfl,-⟩ := List.cons.inj htl
    exact hm.overlong.continues 3 List.mem_cons_self rfl

end LiMaoIM.Lim

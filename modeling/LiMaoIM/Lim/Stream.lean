import LiMaoIM.Lim.Packet
import LiMaoIM.Proto.RoundTrip

namespace LiMaoIM.Lim

open Outcome Proto ByteReader

def receive (c : Conn) (chunk : Bytes) : OnPacketLoop × Conn :=
  let c := { c with inbound := c.inbound ++ chunk }
  (onPacket packetDecodeMap c (c.inbound.length + 1),(limUnpacket c).2)

def receiveAll : Conn → List Bytes → List OnPacketLoop × Conn
  | c, [] => ([],c)
  | c, chunk :: chunks =>
      let r := receive c chunk
      let rs := receiveAll r.2 chunks
      (r.1 :: rs.1,rs.2)

def decodeAllWithConn (version : UInt8) : Nat → Bytes → List Frame × Outcome Bytes
  | 0, conn => ([],.ok conn)
  | fuel + 1, conn =>
      match decodePacketWithConn version conn with
      | .error e => ([],.error e)
      | .panic e => ([],.panic e)
      | .ok (frame,conn) =>
          let rs := decodeAllWithConn version fuel conn
          (frame :: rs.1,rs.2)

variable {v : UInt8}

theorem delimits_encodePacket {p : Frame} (h : p.WithinLimits v) :
    Delimit.Delimits cutPacket (encodePacket · v) p := by
  cases hp : p.getPacketType.isPingPong with
  | true =>
    obtain ⟨b,he,hb⟩ := encodePacket_pingPong v p hp
    constructor
    · intro rest
      rw [he, List.singleton_append, cutPacket_pingPong rest (hb ▸ hp)]
      rfl
    · intro bs hpre hne
      rw [he] at hpre hne
      have hn : bs = [] := by
        rcases List.prefix_cons_iff.mp hpre with hn | ⟨t,rfl,ht⟩
        · exact hn
        · exact absurd (by rw [List.prefix_nil.mp ht]) hne
      rw [hn]
      rfl
  | false =>
    obtain ⟨ds,hds,he⟩ := encodePacket_eq v p hp h
    have hb : (framerFromUint8 (toFixHeaderUint8 p.getPacketType p.framer)).packetType.isPingPong =
        false := by
      rw [framerFromUint8_header p]
      exact hp
    constructor
    · intro rest
      rw [he]
      exact cutPacket_lengthField rest hb hds
    · intro bs hpre hne
      rw [he] at hpre hne
      exact cutPacket_incomplete hb hds hpre hne

theorem encodePacket_length_pos (p : Frame) (h : p.WithinLimits v) :
    0 < (encodePacket p v).length := by
  have hc := (delimits_encodePacket h).complete []
  exact (bounded_cutPacket _ _ hc).1

theorem length_le_flatMap_encodePacket {ps : List Frame} (hps : ∀ p ∈ ps, p.WithinLimits v) :
    ps.length ≤ (ps.flatMap (encodePacket · v)).length := by
  induction ps with
  | nil => simp
  | cons p ps ih =>
    have hp := encodePacket_length_pos p (hps p List.mem_cons_self)
    have hle := ih fun q hq => hps q (List.mem_cons_of_mem _ hq)
    rw [List.flatMap_cons, List.length_append, List.length_cons]
    omega

theorem onPacketLoop_encoded {ps : List Frame} (hps : ∀ p ∈ ps, p.WithinLimits v) {data : Bytes}
    {offset fuel : Nat} (hdata : data.drop offset = ps.flatMap (encodePacket · v))
    (hoff : offset ≤ data.length) (hfuel : ps.length < fuel) (out : List (Option Frame)) :
    onPacketLoop packetDecodeMap .authed v data fuel offset out =
      ⟨.done,out ++ ps.map (fun p => some (p.decodedForm v)),data.length⟩ := by
  induction ps generalizing offset fuel out with
  | nil =>
    obtain ⟨fuel,rfl⟩ : ∃ n, fuel = n + 1 := ⟨fuel - 1,by simp at hfuel; omega⟩
    have hlen : offset = data.length := by
      have := congrArg List.length hdata
      simp at this
      omega
    simp [onPacketLoop, hlen]
  | cons p ps ih =>
    obtain ⟨fuel,rfl⟩ : ∃ n, fuel = n + 1 := ⟨fuel - 1,by omega⟩
    have hp := hps p List.mem_cons_self
    have hpos := encodePacket_length_pos p hp
    have hlen := congrArg List.length hdata
    rw [List.flatMap_cons, List.length_drop, List.length_append] at hlen
    have hlt : offset < data.length := by omega
    have hdec := decodePacket_encodePacket v p (ps.flatMap (encodePacket · v)) hp
    have hdata' := hdata.trans List.flatMap_cons
    rw [decodePacket, ← hdata'] at hdec
    have hdrop : data.drop (offset + (encodePacket p v).length) =
        ps.flatMap (encodePacket · v) := by
      rw [← List.drop_drop, hdata', List.drop_left]
    rw [onPacketLoop, if_pos hlt, hdec]
    simp only [reduceCtorEq, if_false]
    rw [ih (fun q hq => hps q (List.mem_cons_of_mem _ hq)) hdrop (by omega)
      (by simpa using hfuel)]
    simp

theorem receive_encoded {c : Conn} {chunk rest : Bytes} {ps : List Frame}
    (hps : ∀ p ∈ ps, p.WithinLimits c.version) (hs : c.status = .authed)
    (h : Delimit.feed cutPacket c.inbound chunk = (ps.map (encodePacket · c.version),rest)) :
    receive c chunk =
      (⟨.done,ps.map (fun p => some (p.decodedForm c.version)),
        (ps.flatMap (encodePacket · c.version)).length⟩,{ c with inbound := rest }) := by
  obtain ⟨inbound,status,version⟩ := c
  subst hs
  obtain ⟨hframes,hrest⟩ := Prod.mk.inj h
  have hdata : (limUnpacket ⟨inbound ++ chunk,.authed,version⟩).1.getD [] =
      ps.flatMap (encodePacket · version) := by
    rw [limUnpacket_released, hframes, List.flatMap_def]
  have hc : (limUnpacket ⟨inbound ++ chunk,.authed,version⟩).2 =
      ⟨rest,.authed,version⟩ := by
    rw [limUnpacket_rest, Conn.shiftN, hrest]
  have hlen : (ps.flatMap (encodePacket · version)).length ≤ (inbound ++ chunk).length := by
    rw [List.flatMap_def, ← hframes]
    exact (Delimit.frames_flatten_prefix bounded_cutPacket _).length_le
  have hle : ps.length ≤ (ps.flatMap (encodePacket · version)).length :=
    length_le_flatMap_encodePacket hps
  have hfuel : ps.length < (inbound ++ chunk).length + 1 := by omega
  have hloop := onPacketLoop_encoded hps (List.drop_zero) (Nat.zero_le _) hfuel []
  simp only [receive, hc, onPacket, hdata, hloop, List.nil_append]

theorem receiveAll_encoded {c : Conn} {chunks : List Bytes} {rest : Bytes}
    {groups : List (List Frame)} (hg : ∀ ps ∈ groups, ∀ p ∈ ps, p.WithinLimits c.version)
    (hs : c.status = .authed)
    (h : Delimit.feedAll cutPacket c.inbound chunks =
      (groups.map (List.map (encodePacket · c.version)),rest)) :
    receiveAll c chunks =
      (groups.map (fun ps => ⟨.done,ps.map (fun p => some (p.decodedForm c.version)),
        (ps.flatMap (encodePacket · c.version)).length⟩),{ c with inbound := rest }) := by
  induction chunks generalizing c groups with
  | nil =>
    obtain ⟨hn,rfl⟩ := Prod.mk.inj h
    have hn' : groups = [] := List.map_eq_nil_iff.mp hn.symm
    rw [hn']
    rfl
  | cons chunk chunks ih =>
    obtain ⟨hgs,hr⟩ := Prod.mk.inj h
    cases groups with
    | nil => cases hgs
    | cons ps groups =>
      obtain ⟨hhead,htail⟩ := List.cons.inj hgs
      have hrec := receive_encoded (hg ps List.mem_cons_self) hs (Prod.ext hhead rfl)
      have hfeed : Delimit.feedAll cutPacket (Delimit.feed cutPacket c.inbound chunk).2 chunks =
          (groups.map (List.map (encodePacket · c.version)),rest) := Prod.ext htail hr
      have hih := ih (c := { c with inbound := (Delimit.feed cutPacket c.inbound chunk).2 })
        (fun qs hqs => hg qs (List.mem_cons_of_mem _ hqs)) hs hfeed
      rw [receiveAll, hrec]
      simp only [hih, List.map_cons]

theorem decodeAllWithConn_encoded {ps : List Frame} (hps : ∀ p ∈ ps, p.WithinLimits v) {fuel : Nat}
    (hfuel : ps.length < fuel) :
    decodeAllWithConn v fuel (ps.flatMap (encodePacket · v)) =
      (ps.map (·.decodedForm v),.error "EOF") := by
  induction ps generalizing fuel with
  | nil =>
    obtain ⟨fuel,rfl⟩ : ∃ n, fuel = n + 1 := ⟨fuel - 1,by simp at hfuel; omega⟩
    rfl
  | cons p ps ih =>
    obtain ⟨fuel,rfl⟩ : ∃ n, fuel = n + 1 := ⟨fuel - 1,by omega⟩
    have hp := reads_decodePacketWithConn v p (hps p List.mem_cons_self)
    have hlt : ps.length < fuel := by simpa using hfuel
    have hih := ih (fun q hq => hps q (List.mem_cons_of_mem _ hq)) hlt
    rw [List.flatMap_cons, decodeAllWithConn, hp]
    simp only [hih, List.map_cons]

theorem stream_reassembly (v : UInt8) (ps : List Frame) (chunks : List Bytes)
    (hps : ∀ p ∈ ps, p.WithinLimits v) (h : chunks.flatten = ps.flatMap (encodePacket · v)) :
    (∀ r ∈ (receiveAll ⟨[],.authed,v⟩ chunks).1, r.state = .done) ∧
      (receiveAll ⟨[],.authed,v⟩ chunks).1.flatMap (·.packets) =
        ps.map (fun p => some (p.decodedForm v)) ∧
      (receiveAll ⟨[],.authed,v⟩ chunks).2.inbound = [] ∧
      ∀ fuel > ps.length,
        decodeAllWithConn v fuel chunks.flatten = (ps.map (·.decodedForm v),.error "EOF") := by
  obtain ⟨groups,rfl,hfeed⟩ := Delimit.feedAll_reassembles bounded_cutPacket
    (fun p hp => delimits_encodePacket (hps p hp)) bounded_cutPacket.cut_nil h
  have hg : ∀ qs ∈ groups, ∀ p ∈ qs, p.WithinLimits v :=
    fun qs hqs p hp => hps p (List.mem_flatten_of_mem hqs hp)
  have hall := receiveAll_encoded (c := ⟨[],.authed,v⟩) hg rfl hfeed
  rw [hall]
  refine ⟨?_,?_,rfl,fun fuel hfuel => ?_⟩
  · intro r hr
    obtain ⟨qs,-,rfl⟩ := List.mem_map.mp hr
    rfl
  · rw [List.flatMap_map, List.map_flatten, List.flatMap_def]
  · rw [h]
    exact decodeAllWithConn_encoded hps hfuel

def sampleRecvack : Frame := .recvack { messageID := 7, messageSeq := 9 }

theorem stream_reassembly_recvack_ping :
    (receiveAll ⟨[],.authed,4⟩ [[0x60],[12,0,0,0,0,0,0],[0,7,0,0,0,9,0x70]]).1.flatMap (·.packets) =
      [some (sampleRecvack.decodedForm 4),some (.ping none)] :=
  (stream_reassembly 4 [sampleRecvack,.ping none] _ (by decide) (by decide)).2.1

end LiMaoIM.Lim

import LiMaoIM.Lim.Stream
import LiMaoIM.Sdk.Wire

namespace LiMaoIM.Sdk

open Outcome Proto Lim

structure Sealed (key iv : Bytes) (packet : SendPacket) (payload : Bytes) : Prop where
  keySize : Util.KeySize key
  ivSize : iv.length = Aes.blockSize
  payload : packet.payload = Util.Encrypted key iv payload
  msgKey : packet.msgKey = md5 (Util.Encrypted key iv (sendVerityString packet))

theorem Built.isSealed {c c' : Client} {kind : Kind} {channel : Channel}
    {payload clientMsgNo : Bytes} {packet : SendPacket}
    (h : Built c c' kind channel payload clientMsgNo packet) :
    Sealed c.aesKey c.salt packet payload := ⟨h.keySize,h.salt,h.payload,h.msgKey⟩

def Fits (v : UInt8) : Frame → Prop
  | .send p => Frame.WithinLimits v (.send p) ∧ p.clientSeq.toNat < 2 ^ 32
  | f => f.WithinLimits v

theorem Fits.withinLimits {v : UInt8} {f : Frame} (h : Fits v f) : f.WithinLimits v := by
  cases f with
  | send p => exact h.1
  | _ => exact h

def arrived (v : UInt8) (p : SendPacket) : SendPacket :=
  { p with
    framer := { p.framer with
      packetType := .send
      remainingLength := UInt32.ofNat (packetEncode (.send p) v).length }
    setting := if 3 < v then p.setting else {} }

theorem decodedForm_send {v : UInt8} (hv : 2 < v) {p : SendPacket}
    (hseq : p.clientSeq.toNat < 2 ^ 32) : (Frame.send p).decodedForm v = .send (arrived v p) := by
  have hclientSeq : UInt64.ofNat (p.clientSeq.toNat % 2 ^ 32) = p.clientSeq := by
    rw [Nat.mod_eq_of_lt hseq,UInt64.ofNat_toNat]
  have hone : 1 < v := UInt8.lt_trans (by decide) hv
  rw [Frame.decodedForm,Frame.carry,if_pos hv,if_pos hone,hclientSeq]
  rfl

theorem Sealed.handleSend {key iv payload : Bytes} {packet : SendPacket}
    (h : Sealed key iv packet payload) {v : UInt8} (hv : 2 < v) {σ : Type} (svc : SendServices σ)
    {client : Lim.Client} (hkey : client.aesKey = key) (hiv : client.aesIV = iv)
    (messageID : Int64) (input : SendInput) :
    handleSend svc Aes.cbc client v (arrived v packet) messageID input =
      handleLocalSend svc client v { arrived v packet with payload := payload } input := by
  have hverity : Util.aesEncryptPkcs7Base64 Aes.cbc (sendVerityString (arrived v packet))
      client.aesKey client.aesIV = .ok (Util.Encrypted key iv (sendVerityString packet)) := by
    rw [hkey,hiv]
    exact Util.encrypt_ok h.keySize h.ivSize _
  have hpayload : Util.aesDecryptPkcs7Base64 Aes.cbc (arrived v packet).payload client.aesKey
      client.aesIV = .ok payload := by
    rw [hkey,hiv,arrived,h.payload]
    exact Util.decrypt_encrypted h.keySize h.ivSize payload
  have hmsgKey : ¬ (arrived v packet).msgKey ≠
      md5 (Util.Encrypted key iv (sendVerityString packet)) := not_not.mpr h.msgKey
  rw [Lim.handleSend,if_pos hv,hverity]
  simp only
  rw [if_neg hmsgKey,hpayload]

def Stage.Settled : Stage → Prop
  | .built => False
  | .listed => False
  | _ => True

def Stage.Transmitted : Stage → Prop
  | .built => False
  | .listed => False
  | .returned (.failed _) => False
  | _ => True

namespace Session

def contents (s : Session) : List (SendPacket × Bytes) :=
  s.calls.map fun call => (call.packet,call.payload)

structure Streaming (s₀ : Session) (frames : List Frame) (s : Session) : Prop where
  wrote : Wrote frames s₀.client s.client
  calls : ∀ k call, s.calls[k]? = some call → k < s₀.calls.length ∧ call.stage.Settled ∨
    Sealed s₀.client.aesKey s₀.client.salt call.packet call.payload ∧
      (call.stage.Transmitted → .send call.packet ∈ frames)
  sends : ∀ p, .send p ∈ frames →
    ∃ payload, (p,payload) ∈ s.contents ∧ Sealed s₀.client.aesKey s₀.client.salt p payload

variable {s₀ s s' : Session} {frames : List Frame} {i : Nat} {call : Call}

theorem Streaming.extend (h : Streaming s₀ frames s) {client : Client} {new : List Frame}
    (hwrote : Wrote new s.client client) (hnew : ∀ p, .send p ∈ new →
      ∃ payload, (p,payload) ∈ s.contents ∧ Sealed s₀.client.aesKey s₀.client.salt p payload) :
    Streaming s₀ (frames ++ new) { s with client := client } := by
  refine ⟨h.wrote.trans hwrote,fun k call hget => ?_,fun p hp => ?_⟩
  · exact (h.calls k call hget).imp_right fun ⟨hsealed,hsent⟩ =>
      ⟨hsealed,fun ht => List.mem_append_left _ (hsent ht)⟩
  · exact (List.mem_append.mp hp).elim (h.sends p) (hnew p)

theorem Streaming.quiet (h : Streaming s₀ frames s) (hwrote : Wrote [] s.client s'.client)
    (hcalls : s'.calls = s.calls) : Streaming s₀ frames s' := by
  refine ⟨?_,?_,fun p hp => ?_⟩
  · have hboth := h.wrote.trans hwrote
    rwa [List.append_nil] at hboth
  · rw [hcalls]
    exact h.calls
  · rw [contents,hcalls]
    exact h.sends p hp

theorem Streaming.settle (h : Streaming s₀ frames s) {α : Type} {x : Exec Client α}
    (hx : Writes (fun f => ∀ p, f ≠ .send p) x) (hs : s.settle x = .ok s') :
    ∃ frames', Streaming s₀ frames' s' := by
  obtain ⟨new,hwrote,hplain⟩ := hx s.client
  rw [Session.settle] at hs
  rcases hrun : x s.client with ⟨r,client⟩
  rw [hrun] at hs hwrote
  have hext : Streaming s₀ (frames ++ new) { s with client := client } :=
    h.extend hwrote fun p hp => absurd rfl (hplain _ hp p)
  cases r with
  | ok a =>
    obtain rfl := Outcome.ok.inj hs
    exact ⟨_,hext⟩
  | error e =>
    obtain rfl := Outcome.ok.inj hs
    exact ⟨_,hext⟩
  | panic e => cases hs

theorem Streaming.modify (h : Streaming s₀ frames s) {f : Call → Call}
    (hcontents : ∀ call, ((f call).packet,(f call).payload) = (call.packet,call.payload))
    (hstage : ∀ call, s.calls[i]? = some call →
      (call.stage.Settled → (f call).stage.Settled) ∧
        ((f call).stage.Transmitted → call.stage.Transmitted ∨ .send call.packet ∈ frames)) :
    Streaming s₀ frames { s with calls := s.calls.modify i f } := by
  refine ⟨h.wrote,fun k x hx => ?_,fun p hp => ?_⟩
  · rw [List.getElem?_modify] at hx
    obtain ⟨call,hget,rfl⟩ := Option.map_eq_some_iff.mp hx
    split
    · rename_i hik
      subst hik
      obtain ⟨hpacket,hpayload⟩ := Prod.mk.inj (hcontents call)
      obtain ⟨hsettled,htransmitted⟩ := hstage call hget
      rw [hpacket,hpayload]
      rcases h.calls _ call hget with ⟨hlt,hs⟩ | ⟨hsealed,hsent⟩
      · exact Or.inl ⟨hlt,hsettled hs⟩
      · exact Or.inr ⟨hsealed,fun ht => (htransmitted ht).elim hsent id⟩
    · exact h.calls k call hget
  · obtain ⟨payload,hmem,hsealed⟩ := h.sends p hp
    refine ⟨payload,?_,hsealed⟩
    rw [contents,map_modify _ _ hcontents]
    exact hmem

theorem Streaming.trigger (h : Streaming s₀ frames s) (seq : UInt64)
    (x : Option SendackPacket) : Streaming s₀ frames (s.trigger seq x) := by
  have hwait : Streaming s₀ frames { s with
      client := { s.client with wait := s.client.wait.unregister seq } } :=
    h.quiet (.quiet rfl rfl rfl) rfl
  rw [Session.trigger,Wait.trigger]
  cases s.client.wait.lookup seq with
  | none => exact hwait
  | some i => exact hwait.modify (fun _ => rfl) fun _ _ => ⟨id,Or.inl⟩

theorem Streaming.start (h : Streaming s₀ frames s) {kind : Kind} {channel : Channel}
    {payload clientMsgNo : Bytes} (hs : s.start kind channel payload clientMsgNo = .ok s') :
    Streaming s₀ frames s' := by
  rw [Session.start] at hs
  rcases buildPacket_spec kind channel payload clientMsgNo s.client with
    ⟨p,c',hbuild,hb⟩ | ⟨r,hbuild,hr⟩
  · rw [hbuild] at hs
    obtain rfl := Outcome.ok.inj hs
    obtain ⟨-,hkeys⟩ := Prod.mk.inj h.wrote.keys
    obtain ⟨hkey,hsalt⟩ := Prod.mk.inj hkeys
    have hsealed := hb.isSealed
    rw [hkey,hsalt] at hsealed
    have hquiet : Wrote [] s.client c' := by
      rw [hb.client]
      exact .quiet rfl rfl rfl
    refine ⟨?_,fun k call hget => ?_,fun q hq => ?_⟩
    · have hboth := h.wrote.trans hquiet
      rwa [List.append_nil] at hboth
    · rw [List.getElem?_append] at hget
      split at hget
      · exact h.calls k call hget
      · obtain rfl := List.mem_singleton.mp (List.mem_of_getElem? hget)
        exact Or.inr ⟨hsealed,False.elim⟩
    · obtain ⟨payload',hmem,hsealed'⟩ := h.sends q hq
      refine ⟨payload',?_,hsealed'⟩
      rw [contents,List.map_append]
      exact List.mem_append_left _ hmem
  · rw [hbuild] at hs
    cases r with
    | ok p => exact absurd rfl (hr p)
    | error e =>
      obtain rfl := Outcome.ok.inj hs
      exact h
    | panic e => cases hs

theorem Streaming.enlist (h : Streaming s₀ frames s) (hget : s.calls[i]? = some call)
    (hbuilt : call.stage = .built) (hs : s.enlist i call = .ok s') : Streaming s₀ frames s' := by
  have hstage (x : Call) (hx : s.calls[i]? = some x) :
      (x.stage.Settled → Stage.Settled .listed) ∧
        (Stage.Transmitted .listed → x.stage.Transmitted ∨ .send x.packet ∈ frames) := by
    obtain rfl : call = x := Option.some.inj (hget.symm.trans hx)
    rw [hbuilt]
    exact ⟨id,False.elim⟩
  rw [Session.enlist] at hs
  split at hs
  · obtain rfl := Outcome.ok.inj hs
    have hlist : Streaming s₀ frames { s with
        client := { s.client with sending := s.client.sending ++ [call.packet] } } :=
      h.quiet (.quiet rfl rfl rfl) rfl
    exact hlist.modify (fun _ => rfl) hstage
  · obtain ⟨wait,-,heq⟩ := bind_eq_ok.mp hs
    obtain rfl := Outcome.ok.inj heq
    have hwait : Streaming s₀ frames { s with client := { s.client with wait := wait } } :=
      h.quiet (.quiet rfl rfl rfl) rfl
    exact hwait.modify (fun _ => rfl) hstage

theorem Streaming.write (h : Streaming s₀ frames s) (hget : s.calls[i]? = some call)
    (hlisted : call.stage = .listed) (hs : s.write i call = .ok s') :
    ∃ frames', Streaming s₀ frames' s' := by
  have hsealed : Sealed s₀.client.aesKey s₀.client.salt call.packet call.payload := by
    rcases h.calls i call hget with ⟨-,hsettled⟩ | ⟨hsealed,-⟩
    · rw [hlisted] at hsettled
      exact hsettled.elim
    · exact hsealed
  obtain ⟨new,hwrote,hnew,hok⟩ := transmit_spec call s.client
  rw [Session.write] at hs
  rcases hrun : transmit call s.client with ⟨r,client⟩
  rw [hrun] at hs hwrote hok
  have hext : Streaming s₀ (frames ++ new) { s with client := client } := by
    refine h.extend hwrote fun p hp => ⟨call.payload,?_,?_⟩
    · obtain rfl := Frame.send.inj (hnew _ hp)
      exact List.mem_map_of_mem (List.mem_of_getElem? hget)
    · obtain rfl := Frame.send.inj (hnew _ hp)
      exact hsealed
  have hstage (stage : Stage) (hsettled : stage.Settled)
      (hsent : stage.Transmitted → .send call.packet ∈ new) :
      Streaming s₀ (frames ++ new) (Session.setStage i stage { s with client := client }) := by
    refine hext.modify (fun _ => rfl) fun x hx => ⟨fun _ => hsettled,fun ht => Or.inr ?_⟩
    obtain rfl : call = x := Option.some.inj (hget.symm.trans hx)
    exact List.mem_append_right _ (hsent ht)
  cases hkind : call.kind with
  | sendMessage opts =>
    rw [hkind] at hs
    cases r with
    | ok a =>
      obtain rfl := Outcome.ok.inj hs
      exact ⟨_,hstage (.returned .sent) trivial fun _ => hok a rfl⟩
    | error e =>
      obtain rfl := Outcome.ok.inj hs
      exact ⟨_,hstage (.returned (.failed e)) trivial False.elim⟩
    | panic e => cases hs
  | sendMessageSync =>
    rw [hkind] at hs
    cases r with
    | ok a =>
      obtain rfl := Outcome.ok.inj hs
      exact ⟨_,hstage .waiting trivial fun _ => hok a rfl⟩
    | error e =>
      obtain rfl := Outcome.ok.inj hs
      exact ⟨_,(hstage (.returned (.failed e)) trivial False.elim).trigger _ _⟩
    | panic e => cases hs

theorem Streaming.wake (h : Streaming s₀ frames s) (hget : s.calls[i]? = some call)
    (hwaiting : call.stage = .waiting) {cause : Cause} (hs : s.wake i call cause = .ok s') :
    Streaming s₀ frames s' := by
  have hstage (stage : Stage) (hsettled : stage.Settled) :
      Streaming s₀ frames (s.setStage i stage) := by
    refine h.modify (fun _ => rfl) fun x hx => ⟨fun _ => hsettled,fun _ => Or.inl ?_⟩
    obtain rfl : call = x := Option.some.inj (hget.symm.trans hx)
    rw [hwaiting]
    trivial
  cases cause with
  | result =>
    rw [Session.wake] at hs
    split at hs
    · obtain rfl := Outcome.ok.inj hs
      exact h
    · cases hs
    · rename_i sendack _
      obtain rfl := Outcome.ok.inj hs
      exact hstage (.returned (.acked sendack)) trivial
  | disconnected =>
    rw [Session.wake] at hs
    split at hs
    · obtain rfl := Outcome.ok.inj hs
      exact hstage (.returned .disconnected) trivial
    · obtain rfl := Outcome.ok.inj hs
      exact h
  | timeout =>
    obtain rfl := Outcome.ok.inj hs
    exact hstage (.returned .timeout) trivial

theorem Streaming.handleSendackPacket (h : Streaming s₀ frames s) (p : SendackPacket) :
    Streaming s₀ frames (s.handleSendackPacket p) := by
  have hcounted : Streaming s₀ frames (s.countFailure p) := by
    rw [countFailure]
    split
    · exact h.quiet (.quiet rfl rfl rfl) rfl
    · exact h
  have hwoken : Streaming s₀ frames ((s.countFailure p).wakeCaller p) := by
    rw [wakeCaller]
    split
    · exact hcounted.trigger _ _
    · exact hcounted
  exact hwoken.quiet (.quiet rfl rfl rfl) rfl

theorem Streaming.handleRecvPacket (h : Streaming s₀ frames s) {p : RecvPacket}
    (hs : s.handleRecvPacket p = .ok s') : ∃ frames', Streaming s₀ frames' s' := by
  have hplain (q : RecvPacket) : Writes (fun f => ∀ p, f ≠ .send p) (ackRecv q) :=
    writes_sendPacket fun p heq => nomatch heq
  have hcounted : Streaming s₀ frames
      { s with client := { s.client with recvMsgCount := s.client.recvMsgCount + 1 } } :=
    h.quiet (.quiet rfl rfl rfl) rfl
  rw [Session.handleRecvPacket] at hs
  simp only at hs
  split at hs
  · split at hs
    · cases hs
    · cases hs
    · rename_i decodePayload _
      have hreceived : Streaming s₀ frames { s with
          client := { s.client with recvMsgCount := s.client.recvMsgCount + 1 }
          received := s.received ++ [{ p with payload := decodePayload }] } :=
        hcounted.quiet (.refl _) rfl
      exact hreceived.settle (hplain _) hs
  · exact hcounted.settle (hplain _) hs

def Event.keepsConnection : Event → Bool
  | .dial _ _ => false
  | .connack _ => false
  | _ => true

theorem streaming_step {crypto : Crypto} (h : Streaming s₀ frames s) {a : Event}
    (ha : a.keepsConnection = true) (hs : s.step crypto a = .ok s') :
    ∃ frames', Streaming s₀ frames' s' := by
  have hstay (heq : Outcome.ok s = .ok s') : ∃ frames', Streaming s₀ frames' s' :=
    ⟨_,Outcome.ok.inj heq ▸ h⟩
  cases a with
  | dial privateKey now => cases ha
  | connack frame => cases ha
  | start kind channel payload clientMsgNo => exact ⟨_,h.start hs⟩
  | enlist i =>
    rw [step] at hs
    split at hs
    · rename_i call hget
      split at hs
      · rename_i hbuilt
        exact ⟨_,h.enlist hget hbuilt hs⟩
      · exact hstay hs
    · exact hstay hs
  | write i =>
    rw [step] at hs
    split at hs
    · rename_i call hget
      split at hs
      · rename_i hlisted
        exact h.write hget hlisted hs
      · exact hstay hs
    · exact hstay hs
  | wake i cause =>
    rw [step] at hs
    split at hs
    · rename_i call hget
      split at hs
      · rename_i hwaiting
        exact ⟨_,h.wake hget hwaiting hs⟩
      · exact hstay hs
    · exact hstay hs
  | receive frame =>
    have hreset : Streaming s₀ frames
        { s with client := { s.client with retryPingCount := 0 } } :=
      h.quiet (.quiet rfl rfl rfl) rfl
    cases frame with
    | sendack p => exact ⟨_,Outcome.ok.inj hs ▸ hreset.handleSendackPacket p⟩
    | recv p => exact hreset.handleRecvPacket hs
    | _ => exact ⟨_,Outcome.ok.inj hs ▸ hreset⟩
  | heartbeat => exact h.settle (writes_loopPing fun p heq => by cases heq) hs
  | flush => exact h.settle writes_flush hs
  | disconnect =>
    rw [step,disconnect] at hs
    split at hs
    · cases hs
    · have hdone : Streaming s₀ frames { s with disconnected := true } := h.quiet (.refl _) rfl
      exact hdone.settle writes_handleClose hs
  | lost => exact h.settle writes_handleClose hs

theorem streaming_run {crypto : Crypto} {events : List Event}
    (hidle : ∀ call ∈ s₀.calls, call.stage.Settled)
    (hquiet : ∀ a ∈ events, a.keepsConnection = true)
    (hrun : Run.run (step crypto) s₀ events = .ok s) : ∃ frames, Streaming s₀ frames s := by
  have hstart : Streaming s₀ [] s₀ := by
    refine ⟨.refl _,fun k call hget => Or.inl ⟨?_,?_⟩,fun p hp => absurd hp List.not_mem_nil⟩
    · exact (List.getElem?_eq_some_iff.mp hget).1
    · exact hidle call (List.mem_of_getElem? hget)
  refine Run.run_all_keeps (fun t => ∃ frames, Streaming s₀ frames t)
    (fun _ _ _ ht ha hstep => ?_) ⟨_,hstart⟩ hquiet hrun
  obtain ⟨frames,h⟩ := ht
  exact streaming_step h ha hstep

theorem receiveAll_frames {v : UInt8} {frames : List Frame} {chunks : List Bytes}
    (hfits : ∀ f ∈ frames, f.WithinLimits v)
    (h : chunks.flatten = frames.flatMap (encodePacket · v)) :
    (receiveAll ⟨[],.authed,v⟩ chunks).1.flatMap (·.packets) =
      frames.map fun f => some (f.decodedForm v) := by
  obtain ⟨groups,rfl,hfeed⟩ := Delimit.feedAll_reassembles bounded_cutPacket
    (fun f hf => delimits_encodePacket (hfits f hf)) bounded_cutPacket.cut_nil h
  have hgroups : ∀ fs ∈ groups, ∀ f ∈ fs, f.WithinLimits v :=
    fun fs hfs f hf => hfits f (List.mem_flatten_of_mem hfs hf)
  rw [receiveAll_encoded (c := ⟨[],.authed,v⟩) hgroups rfl hfeed,List.flatMap_map,
    List.map_flatten,List.flatMap_def]

structure Arrives (s₀ s : Session) (frames : List Frame) : Prop where
  received : ∀ chunks, s.client.rw.sent = s₀.client.rw.sent ++ chunks.flatten →
    (receiveAll ⟨[],.authed,s₀.client.opts.protoVersion⟩ chunks).1.flatMap (·.packets) =
      frames.map fun f => some (f.decodedForm s₀.client.opts.protoVersion)
  handed : ∀ p, .send p ∈ frames → ∃ payload, (p,payload) ∈ s.contents ∧
    (Frame.send p).decodedForm s₀.client.opts.protoVersion =
        .send (arrived s₀.client.opts.protoVersion p) ∧
      ∀ (σ : Type) (svc : SendServices σ) (client : Lim.Client) messageID input,
        client.aesKey = s₀.client.aesKey → client.aesIV = s₀.client.salt →
        handleSend svc Aes.cbc client s₀.client.opts.protoVersion
            (arrived s₀.client.opts.protoVersion p) messageID input =
          handleLocalSend svc client s₀.client.opts.protoVersion
            { arrived s₀.client.opts.protoVersion p with payload := payload } input

def handshake : List Event := [.dial devicePrivateKey 0,.connack (.connack deviceConnack)]

def twoMessages : List Event :=
  [.start .sendMessageSync ⟨Bytes.ofString "v",1⟩ (Bytes.ofString "a") (Bytes.ofString "m1"),
    .enlist 0,.write 0,.heartbeat,
    .start (.sendMessage {}) ⟨Bytes.ofString "v",1⟩ (Bytes.ofString "b") (Bytes.ofString "m2"),
    .enlist 1,.write 1]

def sendsTwo (s : Session) : Bool :=
  s.calls.isEmpty && s.client.rw.buffered.isEmpty && decide (2 < s.client.opts.protoVersion) &&
    Run.endsIn (fun t => !t.client.rw.failed && t.client.rw.buffered.isEmpty)
      (Run.run (step deviceCrypto) s twoMessages)

end Session

end LiMaoIM.Sdk

import LiMaoIM.Foundation.Run
import LiMaoIM.Sdk.Client

namespace LiMaoIM.Sdk

open Outcome Proto Lim Exec

def callView (c : Client) : List SendPacket × UInt64 × Wait Nat := (c.sending,c.clientIDGen,c.wait)

structure OffWire {α : Type} (view : Client → α) : Prop where
  rw : ∀ c rw, view { c with rw := rw } = view c
  written : ∀ c written, view { c with written := written } = view c
  counted : ∀ c n, view { c with sendTotalMsgBytes := n } = view c

theorem offWire_callView : OffWire callView := ⟨fun _ _ => rfl,fun _ _ => rfl,fun _ _ => rfl⟩

section OffWire

variable {α : Type} {view : Client → α} (h : OffWire view)

include h

theorem OffWire.leaves_onConn (x : Bool → Exec BufWriter Unit) : Leaves view (onConn x) :=
  fun c => h.rw c _

theorem OffWire.leaves_sendPacket (packet : Frame) : Leaves view (sendPacket packet) :=
  .get_bind fun _ => .bind (.modify fun c => h.counted c _) fun _ =>
    .bind (h.leaves_onConn _) fun _ => .modify fun c => h.written c _

theorem OffWire.leaves_sendAll (packets : List SendPacket) : Leaves view (sendAll packets) := by
  induction packets with
  | nil => exact .pure ()
  | cons packet packets ih => exact .bind (h.leaves_sendPacket _).attempt fun _ => ih

end OffWire

theorem leaves_flush : Leaves callView flush := offWire_callView.leaves_onConn _

theorem leaves_sendPacket (packet : Frame) : Leaves callView (sendPacket packet) :=
  offWire_callView.leaves_sendPacket packet

theorem leaves_sendAll (packets : List SendPacket) : Leaves callView (sendAll packets) :=
  offWire_callView.leaves_sendAll packets

theorem leaves_dial (crypto : Crypto) (privateKey : Bytes) (now : Int64) :
    Leaves callView (dial crypto privateKey now) :=
  .get_bind fun _ => .bind (.modify fun _ => rfl) fun _ => .bind (leaves_sendPacket _) fun _ =>
    leaves_flush

theorem leaves_shareKeys (crypto : Crypto) (serverKey : Bytes) :
    Leaves callView (shareKeys crypto serverKey) := by
  rw [shareKeys]
  split
  · exact .lift _
  · split
    · exact .lift _
    · exact .get_bind fun _ => .modify fun _ => rfl

theorem leaves_handleConnack (crypto : Crypto) (frame : Frame) :
    Leaves callView (handleConnack crypto frame) := by
  cases frame with
  | connack connack =>
    rw [handleConnack]
    split
    · exact .lift _
    · exact .get_bind fun c => .bind (leaves_sendAll _) fun _ => .bind (.modify fun _ => rfl)
        fun _ => leaves_shareKeys crypto _
  | _ => exact .lift _

theorem leaves_handleClose : Leaves callView handleClose := by
  intro c
  rw [handleClose,Exec.modify]
  split
  · rfl
  · rfl

theorem leaves_ping : Leaves callView ping :=
  .bind (leaves_sendPacket _).attempt fun _ => .pure ()

theorem leaves_loopPing : Leaves callView loopPing := by
  refine .get_bind fun c => ?_
  split
  · exact .modify fun _ => rfl
  · exact .bind leaves_ping fun _ => .modify fun _ => rfl

theorem leaves_transmit (call : Call) : Leaves callView (transmit call) := by
  rw [transmit]
  split
  · refine .bind (leaves_sendPacket _) fun _ => ?_
    split
    · exact leaves_flush
    · exact .pure ()
  · exact leaves_sendPacket _

structure Built (c c' : Client) (kind : Kind) (channel : Channel) (payload clientMsgNo : Bytes)
    (packet : SendPacket) : Prop where
  keySize : Util.KeySize c.aesKey
  salt : c.salt.length = Aes.blockSize
  framer : packet.framer = kind.framer
  setting : packet.setting = {}
  clientSeq : packet.clientSeq = c.clientIDGen + 1
  clientMsgNo : packet.clientMsgNo = clientMsgNo
  channelID : packet.channelID = channel.channelID
  channelType : packet.channelType = channel.channelType
  payload : packet.payload = Util.Encrypted c.aesKey c.salt payload
  msgKey : packet.msgKey = md5 (Util.Encrypted c.aesKey c.salt (sendVerityString packet))
  client : c' = { c with clientIDGen := c.clientIDGen + 1 }

theorem buildPacket_spec (kind : Kind) (channel : Channel) (payload clientMsgNo : Bytes)
    (c : Client) :
    (∃ packet c', buildPacket kind channel payload clientMsgNo c = (.ok packet,c') ∧
      Built c c' kind channel payload clientMsgNo packet) ∨
      ∃ r, buildPacket kind channel payload clientMsgNo c = (r,c) ∧ ∀ packet, r ≠ .ok packet := by
  by_cases hok : ∃ enc, Util.aesEncryptPkcs7Base64 Aes.cbc payload c.aesKey c.salt = .ok enc
  · obtain ⟨enc,henc⟩ := hok
    obtain ⟨hkey,hsalt⟩ := Util.encrypt_eq_ok henc
    let packet : SendPacket := ⟨kind.framer,{},[],c.clientIDGen + 1,clientMsgNo,channel.channelID,
      channel.channelType,Util.Encrypted c.aesKey c.salt payload⟩
    refine Or.inl ⟨{ packet with msgKey := md5 (Util.Encrypted c.aesKey c.salt
      (sendVerityString packet)) },_,?_,hkey,hsalt,rfl,rfl,rfl,rfl,rfl,rfl,rfl,rfl,rfl⟩
    rw [buildPacket,Exec.get_bind,Util.encrypt_ok hkey hsalt,Exec.bind_of_ok (Exec.lift_apply _),
      Exec.bind_of_ok (Exec.state_apply _),Util.encrypt_ok hkey hsalt,
      Exec.bind_of_ok (Exec.lift_apply _)]
    rfl
  · rw [buildPacket,Exec.get_bind]
    exact Or.inr (Exec.lift_bind_failed fun enc henc => hok ⟨enc,henc⟩)

def devicePrivateKey : Bytes := (List.range 32).map fun i => UInt8.ofNat (i + 1)

def serverPrivateKey : Bytes := (List.range 32).map fun i => UInt8.ofNat (i + 33)

-- the values of X25519 for the two private keys above
def deviceCrypto : Crypto where
  scalarBaseMult a := if a = devicePrivateKey then
      [0x07,0xA3,0x7C,0xBC,0x14,0x20,0x93,0xC8,0xB7,0x55,0xDC,0x1B,0x10,0xE8,0x6C,0xB4,
        0x26,0x37,0x4A,0xD1,0x6A,0xA8,0x53,0xED,0x0B,0xDF,0xC0,0xB2,0xB8,0x6D,0x1C,0x7C]
    else
      [0x58,0x69,0xAF,0xF4,0x50,0x54,0x97,0x32,0xCB,0xAA,0xED,0x5E,0x5D,0xF9,0xB3,0x0A,
        0x6D,0xA3,0x1C,0xB0,0xE5,0x74,0x2B,0xAD,0x5A,0xD4,0xA1,0xA7,0x68,0xF1,0xA6,0x7B]
  scalarMult _ _ :=
    [0xA8,0x4D,0xC7,0xC3,0xC8,0xF0,0x58,0xB1,0xB2,0xDC,0x4C,0xD1,0xE9,0xB5,0xDC,0x0A,
      0x79,0x87,0xF8,0x8B,0x6A,0x95,0x64,0xCD,0xE3,0x39,0x1F,0xC4,0x21,0x15,0x9E,0x77]

def deviceConnack : ConnackPacket :=
  ⟨{},Base64.encodeToString (deviceCrypto.scalarBaseMult serverPrivateKey),
    Bytes.ofString "0123456789abcdef",0,reasonSuccess⟩

namespace Session

def starts (events : List Event) : Nat :=
  events.countP fun e => match e with
    | .start _ _ _ _ => true
    | _ => false

theorem starts_append (events : List Event) (a : Event) :
    starts (events ++ [a]) = starts events + starts [a] := List.countP_append

structure Replies (events : List Event) (call : Call) : Prop where
  fresh : call.stage = .built → call.resultChan = none
  replied : ∀ p, call.resultChan = some (some p) →
    p.clientSeq = call.packet.clientSeq ∧ .receive (.sendack p) ∈ events
  acked : ∀ p, call.stage = .returned (.acked p) → call.resultChan = some (some p)
  failed : call.resultChan = some none → ∃ e, call.stage = .returned (.failed e)

structure Inv (events : List Event) (s : Session) : Prop where
  gen : s.client.clientIDGen.toNat ≤ starts events
  bounded : ∀ call ∈ s.calls, call.packet.clientSeq.toNat ≤ s.client.clientIDGen.toNat
  ordered : (s.calls.map (·.packet.clientSeq.toNat)).Pairwise (· < ·)
  registered : ∀ id i, s.client.wait.lookup id = some i → ∃ call, s.calls[i]? = some call ∧
    call.packet.clientSeq = id ∧ call.stage ≠ .built ∧ call.resultChan = none
  replies : ∀ call ∈ s.calls, Replies events call

variable {events : List Event} {s s' : Session} {i j : Nat} {call : Call}

theorem mem_modify {calls : List Call} {f : Call → Call} {x : Call} (h : x ∈ calls.modify i f) :
    x ∈ calls ∨ ∃ call, calls[i]? = some call ∧ x = f call := by
  obtain ⟨k,hk⟩ := List.mem_iff_getElem?.mp h
  rw [List.getElem?_modify] at hk
  obtain ⟨call,hcall,rfl⟩ := Option.map_eq_some_iff.mp hk
  split
  · rename_i heq
    exact Or.inr ⟨call,heq ▸ hcall,rfl⟩
  · exact Or.inl (List.mem_of_getElem? hcall)

theorem map_modify {α : Type} {g : Call → α} (calls : List Call) (i : Nat) {f : Call → Call}
    (hf : ∀ call, g (f call) = g call) : (calls.modify i f).map g = calls.map g := by
  apply List.ext_getElem?
  intro k
  rw [List.getElem?_map,List.getElem?_map,List.getElem?_modify]
  cases calls[k]? with
  | none => rfl
  | some call =>
    simp only [Option.map_eq_map,Option.map_some]
    split
    · rw [hf]
    · rfl

theorem Inv.seq_inj (h : Inv events s) {a b : Call} (ha : s.calls[i]? = some a)
    (hb : s.calls[j]? = some b) (heq : a.packet.clientSeq = b.packet.clientSeq) : i = j := by
  have hlt {k l : Nat} {c d : Call} (hkl : k < l) (hc : s.calls[k]? = some c)
      (hd : s.calls[l]? = some d) : c.packet.clientSeq.toNat < d.packet.clientSeq.toNat := by
    obtain ⟨hk,rfl⟩ := List.getElem?_eq_some_iff.mp hc
    obtain ⟨hl,rfl⟩ := List.getElem?_eq_some_iff.mp hd
    have hpair := List.pairwise_iff_getElem.mp h.ordered k l (by rwa [List.length_map])
      (by rwa [List.length_map]) hkl
    rwa [List.getElem_map,List.getElem_map] at hpair
  rcases lt_trichotomy i j with hij | hij | hij
  · exact absurd (congrArg UInt64.toNat heq) (hlt hij ha hb).ne
  · exact hij
  · exact absurd (congrArg UInt64.toNat heq.symm) (hlt hij hb ha).ne

theorem Inv.append (h : Inv events s) (a : Event) : Inv (events ++ [a]) s := by
  refine ⟨?_,h.bounded,h.ordered,h.registered,fun call hcall => ?_⟩
  · rw [starts_append]
    exact h.gen.trans (Nat.le_add_right _ _)
  · have hr := h.replies call hcall
    exact ⟨hr.fresh,fun p hp => ⟨(hr.replied p hp).1,List.mem_append_left _ (hr.replied p hp).2⟩,
      hr.acked,hr.failed⟩

theorem Inv.frame (h : Inv events s) (hgen : s'.client.clientIDGen = s.client.clientIDGen)
    (hwait : s'.client.wait = s.client.wait) (hcalls : s'.calls = s.calls) : Inv events s' := by
  refine ⟨?_,?_,?_,?_,?_⟩
  · rw [hgen]
    exact h.gen
  · rw [hgen,hcalls]
    exact h.bounded
  · rw [hcalls]
    exact h.ordered
  · rw [hwait,hcalls]
    exact h.registered
  · rw [hcalls]
    exact h.replies

theorem Inv.withClient (h : Inv events s) {client : Client}
    (hview : callView client = callView s.client) : Inv events { s with client := client } := by
  obtain ⟨-,hgen,hwait⟩ : _ ∧ _ ∧ _ := by simpa [callView] using hview
  exact h.frame hgen hwait rfl

theorem Inv.settle (h : Inv events s) {α : Type} {x : Exec Client α} (hx : Leaves callView x)
    (hs : s.settle x = .ok s') : Inv events s' := by
  have hview := hx s.client
  rw [Session.settle] at hs
  rcases hrun : x s.client with ⟨r,client⟩
  rw [hrun] at hs hview
  cases r with
  | ok a =>
    obtain rfl := Outcome.ok.inj hs
    exact h.withClient hview
  | error e =>
    obtain rfl := Outcome.ok.inj hs
    exact h.withClient hview
  | panic e => cases hs

theorem Inv.setStage (h : Inv events s) {stage : Stage} (hbuilt : stage ≠ .built)
    (hcall : ∀ call, s.calls[i]? = some call →
      (∀ p, stage = .returned (.acked p) → call.resultChan = some (some p)) ∧
        (call.resultChan = some none → ∃ e, stage = .returned (.failed e))) :
    Inv events (s.setStage i stage) := by
  refine ⟨h.gen,fun x hx => ?_,?_,fun id k hk => ?_,fun x hx => ?_⟩
  · rcases mem_modify hx with hx | ⟨call,hget,rfl⟩
    · exact h.bounded x hx
    · exact h.bounded call (List.mem_of_getElem? hget)
  · have hmap : (s.setStage i stage).calls.map (·.packet.clientSeq.toNat) =
        s.calls.map (·.packet.clientSeq.toNat) := map_modify s.calls i fun _ => rfl
    rw [hmap]
    exact h.ordered
  · obtain ⟨call,hget,hseq,hstage,hchan⟩ := h.registered id k hk
    rw [Session.setStage,List.getElem?_modify,hget]
    refine ⟨_,rfl,?_⟩
    simp only
    split
    · exact ⟨hseq,hbuilt,hchan⟩
    · exact ⟨hseq,hstage,hchan⟩
  · rcases mem_modify hx with hx | ⟨call,hget,rfl⟩
    · exact h.replies x hx
    · obtain ⟨hacked,hfailed⟩ := hcall call hget
      have hr := h.replies call (List.mem_of_getElem? hget)
      exact ⟨fun hb => absurd hb hbuilt,hr.replied,hacked,hfailed⟩

theorem Inv.advance (h : Inv events s) (hget : s.calls[i]? = some call) {stage : Stage}
    (hbefore : ∀ result, call.stage ≠ .returned result) (hbuilt : stage ≠ .built)
    (hacked : ∀ p, stage ≠ .returned (.acked p)) : Inv events (s.setStage i stage) := by
  refine h.setStage hbuilt fun x hx => ⟨fun p hp => absurd hp (hacked p),fun hnil => ?_⟩
  obtain rfl : call = x := Option.some.inj (hget.symm.trans hx)
  obtain ⟨e,he⟩ := (h.replies call (List.mem_of_getElem? hget)).failed hnil
  exact absurd he (hbefore _)

theorem Inv.trigger (h : Inv events s) {id : UInt64} {x : Option SendackPacket}
    (hsome : ∀ p, x = some p → p.clientSeq = id ∧ .receive (.sendack p) ∈ events)
    (hnone : x = none → ∀ i call, s.client.wait.lookup id = some i → s.calls[i]? = some call →
      ∃ e, call.stage = .returned (.failed e)) : Inv events (s.trigger id x) := by
  rw [Session.trigger,Wait.trigger]
  cases hlookup : s.client.wait.lookup id with
  | none =>
    refine ⟨h.gen,h.bounded,h.ordered,fun id' k hk => ?_,h.replies⟩
    rw [Wait.lookup_unregister] at hk
    split at hk
    · cases hk
    · exact h.registered id' k hk
  | some i =>
    obtain ⟨call,hget,hseq,hstage,hchan⟩ := h.registered id i hlookup
    refine ⟨h.gen,fun y hy => ?_,?_,fun id' k hk => ?_,fun y hy => ?_⟩
    · rcases mem_modify hy with hy | ⟨z,hz,rfl⟩
      · exact h.bounded y hy
      · exact h.bounded z (List.mem_of_getElem? hz)
    · have hmap : (s.calls.modify i fun call => { call with resultChan := some x }).map
          (·.packet.clientSeq.toNat) = s.calls.map (·.packet.clientSeq.toNat) :=
        map_modify s.calls i fun _ => rfl
      exact (congrArg (List.Pairwise (· < ·)) hmap).mpr h.ordered
    · replace hk : (s.client.wait.unregister id).lookup id' = some k := hk
      rw [Wait.lookup_unregister] at hk
      split at hk
      · cases hk
      · rename_i hne
        obtain ⟨z,hz,hzseq,hzstage,hzchan⟩ := h.registered id' k hk
        have hik : i ≠ k := by
          rintro rfl
          obtain rfl : call = z := Option.some.inj (hget.symm.trans hz)
          exact hne (hzseq.symm.trans hseq)
        refine ⟨z,?_,hzseq,hzstage,hzchan⟩
        show (s.calls.modify i _)[k]? = some z
        rw [List.getElem?_modify,hz]
        exact congrArg some (if_neg hik)
    · rcases mem_modify hy with hy | ⟨z,hz,rfl⟩
      · exact h.replies y hy
      · obtain rfl : call = z := Option.some.inj (hget.symm.trans hz)
        have hr := h.replies call (List.mem_of_getElem? hget)
        refine ⟨fun hb => absurd hb hstage,fun p hp => ?_,fun p hp => ?_,fun hnil => ?_⟩
        · obtain ⟨hid,hmem⟩ := hsome p (Option.some.inj hp)
          exact ⟨hid.trans hseq.symm,hmem⟩
        · cases hchan.symm.trans (hr.acked p hp)
        · exact hnone (Option.some.inj hnil) i call hlookup hget

theorem Inv.start (h : Inv events s) {kind : Kind} {channel : Channel} {payload clientMsgNo : Bytes}
    (hbound : starts events + 1 < 2 ^ 64)
    (hs : s.start kind channel payload clientMsgNo = .ok s') :
    Inv (events ++ [.start kind channel payload clientMsgNo]) s' := by
  have hnext := h.append (.start kind channel payload clientMsgNo)
  rw [Session.start] at hs
  rcases buildPacket_spec kind channel payload clientMsgNo s.client with
    ⟨packet,c',hbuild,hb⟩ | ⟨r,hbuild,hr⟩
  · rw [hbuild] at hs
    obtain rfl := Outcome.ok.inj hs
    have hgen := h.gen
    have hseq : packet.clientSeq.toNat = s.client.clientIDGen.toNat + 1 := by
      rw [hb.clientSeq,UInt64.toNat_add,Nat.mod_eq_of_lt]
      · rfl
      · show s.client.clientIDGen.toNat + 1 < 2 ^ 64
        omega
    have hclient : c'.clientIDGen.toNat = s.client.clientIDGen.toNat + 1 := by
      rw [hb.client,← hseq,hb.clientSeq]
    refine ⟨?_,fun call hcall => ?_,?_,fun id i hi => ?_,fun call hcall => ?_⟩
    · rw [hclient,starts_append]
      exact Nat.add_le_add_right hgen 1
    · rw [hclient]
      rcases List.mem_append.mp hcall with hcall | hcall
      · exact (h.bounded call hcall).trans (Nat.le_succ _)
      · obtain rfl := List.mem_singleton.mp hcall
        exact hseq.le
    · rw [List.map_append,List.pairwise_append]
      refine ⟨h.ordered,List.pairwise_singleton _ _,fun a ha b hb' => ?_⟩
      obtain ⟨call,hcall,rfl⟩ := List.mem_map.mp ha
      obtain rfl := List.mem_singleton.mp hb'
      exact (Nat.lt_succ_of_le (h.bounded call hcall)).trans_eq hseq.symm
    · rw [hb.client] at hi
      obtain ⟨call,hget,hcall⟩ := h.registered id i hi
      exact ⟨call,List.getElem?_append_left (List.getElem?_eq_some_iff.mp hget).1 ▸ hget,hcall⟩
    · rcases List.mem_append.mp hcall with hcall | hcall
      · exact hnext.replies call hcall
      · obtain rfl := List.mem_singleton.mp hcall
        refine ⟨fun _ => rfl,fun p hp => ?_,fun p hp => ?_,fun hp => ?_⟩
        · cases hp
        · cases hp
        · cases hp
  · rw [hbuild] at hs
    cases r with
    | ok packet => exact absurd rfl (hr packet)
    | error e =>
      obtain rfl := Outcome.ok.inj hs
      exact hnext
    | panic e => cases hs

theorem Inv.enlist (h : Inv events s) (hget : s.calls[i]? = some call)
    (hbuilt : call.stage = .built) (hs : s.enlist i call = .ok s') : Inv events s' := by
  have hbefore : ∀ result, call.stage ≠ .returned result := by
    intro result
    rw [hbuilt]
    exact fun heq => nomatch heq
  have hfresh := (h.replies call (List.mem_of_getElem? hget)).fresh hbuilt
  rw [Session.enlist] at hs
  split at hs
  · obtain rfl := Outcome.ok.inj hs
    have hsending : Inv events { s with
        client := { s.client with sending := s.client.sending ++ [call.packet] } } :=
      h.frame rfl rfl rfl
    exact hsending.advance hget hbefore (fun heq => nomatch heq) fun p heq => nomatch heq
  · obtain ⟨wait,hregister,heq⟩ := bind_eq_ok.mp hs
    obtain rfl := Outcome.ok.inj heq
    obtain ⟨hnone,hlookup⟩ := Wait.register_eq_ok hregister
    have hlisted : Inv events (s.setStage i .listed) :=
      h.advance hget hbefore (fun heq => nomatch heq) fun p heq => nomatch heq
    refine ⟨hlisted.gen,hlisted.bounded,hlisted.ordered,fun id k hk => ?_,hlisted.replies⟩
    replace hk : wait.lookup id = some k := hk
    rw [hlookup] at hk
    split at hk
    · rename_i hid
      obtain rfl := Option.some.inj hk
      refine ⟨{ call with stage := .listed },?_,hid.symm,fun heq => (nomatch heq),hfresh⟩
      show (s.calls.modify i _)[i]? = _
      rw [List.getElem?_modify,hget]
      exact congrArg some (if_pos rfl)
    · exact hlisted.registered id k hk

theorem Inv.registers (h : Inv events s) (hget : s.calls[i]? = some call)
    (hbuilt : call.stage = .built) : s.client.wait.lookup call.packet.clientSeq = none := by
  cases hlookup : s.client.wait.lookup call.packet.clientSeq with
  | none => rfl
  | some k =>
    obtain ⟨x,hx,hseq,hstage,-⟩ := h.registered _ k hlookup
    obtain rfl := h.seq_inj hget hx hseq.symm
    obtain rfl : call = x := Option.some.inj (hget.symm.trans hx)
    exact absurd hbuilt hstage

theorem Inv.write (h : Inv events s) (hget : s.calls[i]? = some call)
    (hlisted : call.stage = .listed) (hs : s.write i call = .ok s') : Inv events s' := by
  have hbefore : ∀ result, call.stage ≠ .returned result := by
    intro result
    rw [hlisted]
    exact fun heq => nomatch heq
  have hview := leaves_transmit call s.client
  rw [Session.write] at hs
  rcases hrun : transmit call s.client with ⟨r,client⟩
  rw [hrun] at hs hview
  have hclient := h.withClient hview
  have hstage {stage : Stage} (hb : stage ≠ .built) (ha : ∀ p, stage ≠ .returned (.acked p)) :
      Inv events (Session.setStage i stage { s with client := client }) :=
    hclient.advance hget hbefore hb ha
  cases hkind : call.kind with
  | sendMessage opts =>
    rw [hkind] at hs
    cases r with
    | ok a =>
      obtain rfl := Outcome.ok.inj hs
      exact hstage (fun heq => nomatch heq) fun p heq => nomatch heq
    | error e =>
      obtain rfl := Outcome.ok.inj hs
      exact hstage (fun heq => nomatch heq) fun p heq => nomatch heq
    | panic e => cases hs
  | sendMessageSync =>
    rw [hkind] at hs
    cases r with
    | ok a =>
      obtain rfl := Outcome.ok.inj hs
      exact hstage (fun heq => nomatch heq) fun p heq => nomatch heq
    | error e =>
      obtain rfl := Outcome.ok.inj hs
      have hfailed : Inv events
          (Session.setStage i (.returned (.failed e)) { s with client := client }) :=
        hstage (fun heq => nomatch heq) fun p heq => nomatch heq
      refine hfailed.trigger (fun p heq => (nomatch heq)) fun _ k x hk hx => ⟨e,?_⟩
      obtain ⟨y,hy,hseq,-⟩ := hfailed.registered _ k hk
      have hself : (Session.setStage i (.returned (.failed e))
          { s with client := client }).calls[i]? =
            some { call with stage := .returned (.failed e) } := by
        rw [Session.setStage,List.getElem?_modify,hget]
        exact congrArg some (if_pos rfl)
      obtain rfl := hfailed.seq_inj hself hy hseq.symm
      obtain rfl : _ = x := Option.some.inj (hself.symm.trans hx)
      rfl
    | panic e => cases hs

theorem Inv.wake (h : Inv events s) (hget : s.calls[i]? = some call)
    (hwaiting : call.stage = .waiting) {cause : Cause} (hs : s.wake i call cause = .ok s') :
    Inv events s' := by
  have hbefore : ∀ result, call.stage ≠ .returned result := by
    intro result
    rw [hwaiting]
    exact fun heq => nomatch heq
  cases cause with
  | result =>
    rw [Session.wake] at hs
    split at hs
    · obtain rfl := Outcome.ok.inj hs
      exact h
    · cases hs
    · rename_i sendack hchan
      obtain rfl := Outcome.ok.inj hs
      refine h.setStage (fun heq => nomatch heq) fun x hx => ?_
      obtain rfl : call = x := Option.some.inj (hget.symm.trans hx)
      refine ⟨fun p hp => ?_,fun hnil => ?_⟩
      · cases hp
        exact hchan
      · cases hchan.symm.trans hnil
  | disconnected =>
    rw [Session.wake] at hs
    split at hs
    · obtain rfl := Outcome.ok.inj hs
      exact h.advance hget hbefore (fun heq => nomatch heq) fun p heq => nomatch heq
    · obtain rfl := Outcome.ok.inj hs
      exact h
  | timeout =>
    obtain rfl := Outcome.ok.inj hs
    exact h.advance hget hbefore (fun heq => nomatch heq) fun p heq => nomatch heq

theorem Inv.countFailure (h : Inv events s) (p : SendackPacket) :
    Inv events (s.countFailure p) := by
  rw [Session.countFailure]
  split
  · exact h.frame rfl rfl rfl
  · exact h

theorem Inv.wakeCaller (h : Inv events s) {p : SendackPacket}
    (hmem : .receive (.sendack p) ∈ events) : Inv events (s.wakeCaller p) := by
  rw [Session.wakeCaller]
  split
  · refine h.trigger (fun q hq => ?_) fun hq => nomatch hq
    obtain rfl := Option.some.inj hq
    exact ⟨rfl,hmem⟩
  · exact h

theorem Inv.handleSendackPacket (h : Inv events s) {p : SendackPacket}
    (hmem : .receive (.sendack p) ∈ events) : Inv events (s.handleSendackPacket p) :=
  ((h.countFailure p).wakeCaller hmem).frame rfl rfl rfl

theorem Inv.handleRecvPacket (h : Inv events s) {p : RecvPacket}
    (hs : s.handleRecvPacket p = .ok s') : Inv events s' := by
  have hcounted : Inv events
      { s with client := { s.client with recvMsgCount := s.client.recvMsgCount + 1 } } :=
    h.frame rfl rfl rfl
  rw [Session.handleRecvPacket] at hs
  simp only at hs
  split at hs
  · split at hs
    · cases hs
    · cases hs
    · rename_i decodePayload _
      have hreceived : Inv events { s with
          client := { s.client with recvMsgCount := s.client.recvMsgCount + 1 }
          received := s.received ++ [{ p with payload := decodePayload }] } :=
        hcounted.frame rfl rfl rfl
      exact hreceived.settle (leaves_sendPacket _) hs
  · exact hcounted.settle (leaves_sendPacket _) hs

theorem inv_step {crypto : Crypto} (h : Inv events s) {a : Event}
    (hbound : starts (events ++ [a]) < 2 ^ 64) (hs : s.step crypto a = .ok s') :
    Inv (events ++ [a]) s' := by
  have hnext := h.append a
  cases a with
  | dial privateKey now => exact hnext.settle (leaves_dial _ _ _) hs
  | connack frame => exact hnext.settle (leaves_handleConnack _ _) hs
  | start kind channel payload clientMsgNo =>
    rw [starts_append] at hbound
    exact h.start hbound hs
  | enlist i =>
    rw [step] at hs
    split at hs
    · rename_i call hget
      split at hs
      · rename_i hbuilt
        exact hnext.enlist hget hbuilt hs
      · obtain rfl := Outcome.ok.inj hs
        exact hnext
    · obtain rfl := Outcome.ok.inj hs
      exact hnext
  | write i =>
    rw [step] at hs
    split at hs
    · rename_i call hget
      split at hs
      · rename_i hlisted
        exact hnext.write hget hlisted hs
      · obtain rfl := Outcome.ok.inj hs
        exact hnext
    · obtain rfl := Outcome.ok.inj hs
      exact hnext
  | wake i cause =>
    rw [step] at hs
    split at hs
    · rename_i call hget
      split at hs
      · rename_i hwaiting
        exact hnext.wake hget hwaiting hs
      · obtain rfl := Outcome.ok.inj hs
        exact hnext
    · obtain rfl := Outcome.ok.inj hs
      exact hnext
  | receive frame =>
    have hreset : Inv (events ++ [.receive frame])
        { s with client := { s.client with retryPingCount := 0 } } := hnext.frame rfl rfl rfl
    cases frame with
    | sendack p =>
      obtain rfl := Outcome.ok.inj hs
      exact hreset.handleSendackPacket (List.mem_append_right _ (List.mem_singleton_self _))
    | recv p => exact hreset.handleRecvPacket hs
    | _ =>
      obtain rfl := Outcome.ok.inj hs
      exact hreset
  | heartbeat => exact hnext.settle leaves_loopPing hs
  | flush => exact hnext.settle leaves_flush hs
  | disconnect =>
    rw [step,Session.disconnect] at hs
    split at hs
    · cases hs
    · have hdone : Inv (events ++ [.disconnect]) { s with disconnected := true } :=
        hnext.frame rfl rfl rfl
      exact hdone.settle leaves_handleClose hs
  | lost => exact hnext.settle leaves_handleClose hs

theorem inv_new (opts : Options) (hasOnRecv : Bool) : Inv [] (.new opts hasOnRecv) :=
  ⟨le_rfl,fun _ hcall => absurd hcall List.not_mem_nil,List.Pairwise.nil,
    fun _ _ hk => (nomatch hk),fun _ hcall => absurd hcall List.not_mem_nil⟩

structure RepliesMatch (crypto : Crypto) (events : List Event) (s : Session) : Prop where
  own : ∀ call ∈ s.calls, ∀ p, call.stage = .returned (.acked p) →
    p.clientSeq = call.packet.clientSeq ∧ .receive (.sendack p) ∈ events
  once : ∀ (i j : Nat) a b p q, s.calls[i]? = some a → s.calls[j]? = some b →
    a.stage = .returned (.acked p) → b.stage = .returned (.acked q) → p.clientSeq = q.clientSeq →
      i = j
  registers : ∀ i, ∃ s', s.step crypto (.enlist i) = .ok s'
  wakes : ∀ i cause, ∃ s', s.step crypto (.wake i cause) = .ok s'

theorem sync_replies_match (crypto : Crypto) (opts : Options) (hasOnRecv : Bool)
    (events : List Event) (hbound : starts events < 2 ^ 64)
    (hrun : Run.run (step crypto) (.new opts hasOnRecv) events = .ok s) :
    RepliesMatch crypto events s := by
  have h : Inv ([] ++ events) s := by
    refine Run.run_keeps_trace (fun pre t => starts pre < 2 ^ 64 → Inv pre t)
      (fun pre t a t' ht hstep hlt => ?_) (fun _ => inv_new opts hasOnRecv) hrun hbound
    refine inv_step (ht ?_) hlt hstep
    rw [starts_append] at hlt
    omega
  refine ⟨fun call hcall p hp => ?_,fun i j a b p q ha hb hp hq heq => ?_,fun i => ?_,
    fun i cause => ?_⟩
  · have hr := h.replies call hcall
    exact hr.replied p (hr.acked p hp)
  · have hra := h.replies a (List.mem_of_getElem? ha)
    have hrb := h.replies b (List.mem_of_getElem? hb)
    refine h.seq_inj ha hb ?_
    rw [← (hra.replied p (hra.acked p hp)).1,← (hrb.replied q (hrb.acked q hq)).1,heq]
  · rw [step]
    split
    · rename_i call hget
      split
      · rename_i hbuilt
        rw [Session.enlist]
        split
        · exact ⟨_,rfl⟩
        · obtain ⟨w,hw⟩ := Wait.register_of_none i (h.registers hget hbuilt)
          exact ⟨_,bind_eq_ok.mpr ⟨w,hw,rfl⟩⟩
      · exact ⟨_,rfl⟩
    · exact ⟨_,rfl⟩
  · rw [step]
    split
    · rename_i call hget
      split
      · rename_i hwaiting
        cases cause with
        | result =>
          rw [Session.wake]
          split
          · exact ⟨_,rfl⟩
          · rename_i hnil
            obtain ⟨e,he⟩ := (h.replies call (List.mem_of_getElem? hget)).failed hnil
            cases hwaiting.symm.trans he
          · exact ⟨_,rfl⟩
        | disconnected =>
          rw [Session.wake]
          split
          · exact ⟨_,rfl⟩
          · exact ⟨_,rfl⟩
        | timeout => exact ⟨_,rfl⟩
      · exact ⟨_,rfl⟩
    · exact ⟨_,rfl⟩

def Call.reply (call : Call) : Option SendackPacket :=
  match call.stage with
  | .returned (.acked p) => some p
  | _ => none

def swappedReplies : List Event :=
  [.dial devicePrivateKey 0,.connack (.connack deviceConnack),
    .start .sendMessageSync ⟨Bytes.ofString "v",1⟩ (Bytes.ofString "a") (Bytes.ofString "m1"),
    .start .sendMessageSync ⟨Bytes.ofString "v",1⟩ (Bytes.ofString "b") (Bytes.ofString "m2"),
    .enlist 1,.enlist 0,.write 0,.write 1,.receive (.sendack ⟨{},70,2,2,[],reasonSuccess⟩),
    .receive (.sendack ⟨{},71,3,1,[],reasonSuccess⟩),.wake 0 .result,.wake 1 .result]

theorem swappedReplies_match : ∃ s,
    Run.run (step deviceCrypto) (.new ⟨4,Bytes.ofString "u",[]⟩ false) swappedReplies = .ok s ∧
      s.calls.map Call.reply =
        [some ⟨{},71,3,1,[],reasonSuccess⟩,some ⟨{},70,2,2,[],reasonSuccess⟩] ∧
      RepliesMatch deviceCrypto swappedReplies s := by
  have hends : Run.endsIn (fun s => s.calls.map Call.reply ==
      [some ⟨{},71,3,1,[],reasonSuccess⟩,some ⟨{},70,2,2,[],reasonSuccess⟩])
        (Run.run (step deviceCrypto) (.new ⟨4,Bytes.ofString "u",[]⟩ false) swappedReplies) =
          true := by
    decide +kernel
  obtain ⟨s,hrun,hreply⟩ := Run.endsIn_eq_true.mp hends
  exact ⟨s,hrun,eq_of_beq hreply,
    sync_replies_match deviceCrypto _ false swappedReplies (by decide) hrun⟩

end Session

end LiMaoIM.Sdk

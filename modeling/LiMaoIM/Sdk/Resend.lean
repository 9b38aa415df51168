import LiMaoIM.Sdk.Wire

namespace LiMaoIM.Sdk

open Outcome Proto Lim Exec

theorem shareKeys_leaves (crypto : Crypto) (serverKey : Bytes) :
    Leaves (fun c : Client => (c.sending,c.written,c.rw)) (shareKeys crypto serverKey) := by
  rw [shareKeys]
  split
  · exact .lift _
  · split
    · exact .lift _
    · exact .get_bind fun _ => .modify fun _ => rfl

theorem handleConnack_resends (crypto : Crypto) {connack : ConnackPacket}
    (hsuccess : connack.reasonCode = reasonSuccess) (c : Client) :
    (handleConnack crypto (.connack connack) c).2.sending = c.sending ∧
      ((handleConnack crypto (.connack connack) c).2.written =
          c.written ++ c.sending.map .send ∨
        (handleConnack crypto (.connack connack) c).2.rw.failed = true) := by
  obtain ⟨c',hall,hwrote⟩ := sendAll_spec c.sending c
  have hsending : c'.sending = c.sending := by
    have hview := leaves_sendAll c.sending c
    rw [hall] at hview
    exact congrArg Prod.fst hview
  have hrun : handleConnack crypto (.connack connack) c =
      shareKeys crypto connack.serverKey { c' with salt := connack.salt } := by
    rw [handleConnack,if_neg (not_not.mpr hsuccess),Exec.get_bind,Exec.bind_of_ok hall]
    rfl
  have hview := shareKeys_leaves crypto connack.serverKey { c' with salt := connack.salt }
  rw [hrun]
  simp only [Prod.mk.injEq] at hview
  obtain ⟨hs,hw,hrw⟩ := hview
  rw [hs,hw,hrw]
  exact ⟨hsending,hwrote.imp_left Wrote.written⟩

namespace Session

def Answers (packet : SendPacket) : Event → Prop
  | .receive (.sendack p) => p.clientSeq = packet.clientSeq
  | _ => False

variable {crypto : Crypto} {s s' : Session} {packet : SendPacket}

theorem settle_sending {α : Type} {x : Exec Client α} (hx : Leaves callView x)
    (hs : s.settle x = .ok s') : s'.client.sending = s.client.sending := by
  have hview := hx s.client
  rw [settle] at hs
  rcases hrun : x s.client with ⟨r,client⟩
  rw [hrun] at hs hview
  have hsending : client.sending = s.client.sending := congrArg Prod.fst hview
  cases r with
  | ok a =>
    obtain rfl := Outcome.ok.inj hs
    exact hsending
  | error e =>
    obtain rfl := Outcome.ok.inj hs
    exact hsending
  | panic e => cases hs

theorem trigger_client (s : Session) (id : UInt64) (x : Option SendackPacket) :
    (s.trigger id x).client = { s.client with wait := s.client.wait.unregister id } := by
  rw [trigger,Wait.trigger]
  cases s.client.wait.lookup id with
  | none => rfl
  | some i => rfl

theorem start_sending {kind : Kind} {channel : Channel} {payload clientMsgNo : Bytes}
    (hs : s.start kind channel payload clientMsgNo = .ok s') :
    s'.client.sending = s.client.sending := by
  rw [start] at hs
  rcases buildPacket_spec kind channel payload clientMsgNo s.client with
    ⟨p,c',hbuild,hb⟩ | ⟨r,hbuild,hr⟩
  · rw [hbuild] at hs
    obtain rfl := Outcome.ok.inj hs
    rw [hb.client]
  · rw [hbuild] at hs
    cases r with
    | ok p => exact absurd rfl (hr p)
    | error e =>
      obtain rfl := Outcome.ok.inj hs
      rfl
    | panic e => cases hs

theorem enlist_sending {i : Nat} {call : Call} (hs : s.enlist i call = .ok s') :
    s.client.sending <+: s'.client.sending := by
  rw [enlist] at hs
  split at hs
  · obtain rfl := Outcome.ok.inj hs
    exact List.prefix_append _ _
  · obtain ⟨wait,-,heq⟩ := bind_eq_ok.mp hs
    obtain rfl := Outcome.ok.inj heq
    exact List.prefix_rfl

theorem write_sending {i : Nat} {call : Call} (hs : s.write i call = .ok s') :
    s'.client.sending = s.client.sending := by
  have hview := leaves_transmit call s.client
  rw [write] at hs
  rcases hrun : transmit call s.client with ⟨r,client⟩
  rw [hrun] at hs hview
  have hsending : client.sending = s.client.sending := congrArg Prod.fst hview
  cases hkind : call.kind with
  | sendMessage opts =>
    rw [hkind] at hs
    cases r with
    | ok a =>
      obtain rfl := Outcome.ok.inj hs
      exact hsending
    | error e =>
      obtain rfl := Outcome.ok.inj hs
      exact hsending
    | panic e => cases hs
  | sendMessageSync =>
    rw [hkind] at hs
    cases r with
    | ok a =>
      obtain rfl := Outcome.ok.inj hs
      exact hsending
    | error e =>
      obtain rfl := Outcome.ok.inj hs
      rw [trigger_client]
      exact hsending
    | panic e => cases hs

theorem wake_client {i : Nat} {call : Call} {cause : Cause} (hs : s.wake i call cause = .ok s') :
    s'.client = s.client := by
  cases cause with
  | result =>
    rw [wake] at hs
    split at hs
    · obtain rfl := Outcome.ok.inj hs
      rfl
    · cases hs
    · obtain rfl := Outcome.ok.inj hs
      rfl
  | disconnected =>
    rw [wake] at hs
    split at hs
    · obtain rfl := Outcome.ok.inj hs
      rfl
    · obtain rfl := Outcome.ok.inj hs
      rfl
  | timeout =>
    obtain rfl := Outcome.ok.inj hs
    rfl

theorem countFailure_sending (p : SendackPacket) (s : Session) :
    (s.countFailure p).client.sending = s.client.sending := by
  rw [countFailure]
  split
  · rfl
  · rfl

theorem wakeCaller_sending (p : SendackPacket) (s : Session) :
    (s.wakeCaller p).client.sending = s.client.sending := by
  rw [wakeCaller]
  split
  · rw [trigger_client]
  · rfl

theorem handleSendackPacket_sending (s : Session) (p : SendackPacket) :
    (s.handleSendackPacket p).client.sending =
      s.client.sending.eraseP fun x => x.clientSeq = p.clientSeq := by
  rw [handleSendackPacket]
  exact congrArg (List.eraseP _) ((wakeCaller_sending p _).trans (countFailure_sending p s))

theorem handleRecvPacket_sending {p : RecvPacket} (hs : s.handleRecvPacket p = .ok s') :
    s'.client.sending = s.client.sending := by
  rw [handleRecvPacket] at hs
  simp only at hs
  split at hs
  · split at hs
    · cases hs
    · cases hs
    · have hsame := settle_sending (leaves_sendPacket _) hs
      exact hsame
  · have hsame := settle_sending (leaves_sendPacket _) hs
    exact hsame

theorem sending_step {a : Event} (hmem : packet ∈ s.client.sending)
    (hs : s.step crypto a = .ok s') : packet ∈ s'.client.sending ∨ Answers packet a := by
  have hsame (heq : s'.client.sending = s.client.sending) :
      packet ∈ s'.client.sending ∨ Answers packet a := Or.inl (heq ▸ hmem)
  cases a with
  | dial privateKey now => exact hsame (settle_sending (leaves_dial _ _ _) hs)
  | connack frame => exact hsame (settle_sending (leaves_handleConnack _ _) hs)
  | start kind channel payload clientMsgNo => exact hsame (start_sending hs)
  | enlist i =>
    rw [step] at hs
    split at hs
    · split at hs
      · exact Or.inl ((enlist_sending hs).subset hmem)
      · exact hsame (congrArg (·.client.sending) (Outcome.ok.inj hs).symm)
    · exact hsame (congrArg (·.client.sending) (Outcome.ok.inj hs).symm)
  | write i =>
    rw [step] at hs
    split at hs
    · split at hs
      · exact hsame (write_sending hs)
      · exact hsame (congrArg (·.client.sending) (Outcome.ok.inj hs).symm)
    · exact hsame (congrArg (·.client.sending) (Outcome.ok.inj hs).symm)
  | wake i cause =>
    rw [step] at hs
    split at hs
    · split at hs
      · exact hsame (congrArg Client.sending (wake_client hs))
      · exact hsame (congrArg (·.client.sending) (Outcome.ok.inj hs).symm)
    · exact hsame (congrArg (·.client.sending) (Outcome.ok.inj hs).symm)
  | receive frame =>
    cases frame with
    | sendack p =>
      obtain rfl := Outcome.ok.inj hs
      by_cases hseq : p.clientSeq = packet.clientSeq
      · exact Or.inr hseq
      · left
        rw [handleSendackPacket_sending]
        exact (List.mem_eraseP_of_neg (by simpa using Ne.symm hseq)).mpr hmem
    | recv p =>
      have hrecv := handleRecvPacket_sending
        (s := { s with client := { s.client with retryPingCount := 0 } }) hs
      exact hsame hrecv
    | _ => exact hsame (congrArg (·.client.sending) (Outcome.ok.inj hs).symm)
  | heartbeat => exact hsame (settle_sending leaves_loopPing hs)
  | flush => exact hsame (settle_sending leaves_flush hs)
  | disconnect =>
    rw [step,disconnect] at hs
    split at hs
    · cases hs
    · have hclose := settle_sending leaves_handleClose hs
      exact hsame hclose
  | lost => exact hsame (settle_sending leaves_handleClose hs)

structure Resent (crypto : Crypto) (packet : SendPacket) (s : Session) : Prop where
  kept : packet ∈ s.client.sending
  resends : ∀ connack s', connack.reasonCode = reasonSuccess →
    s.step crypto (.connack (.connack connack)) = .ok s' →
    s'.client.sending = s.client.sending ∧
      (s'.client.written = s.client.written ++ s.client.sending.map .send ∨
        s'.client.rw.failed = true)

theorem resent_of_mem (hmem : packet ∈ s.client.sending) : Resent crypto packet s := by
  refine ⟨hmem,fun connack s' hsuccess hs => ?_⟩
  have hresends := handleConnack_resends crypto hsuccess s.client
  rw [step,settle] at hs
  rcases hrun : handleConnack crypto (.connack connack) s.client with ⟨r,client⟩
  rw [hrun] at hs hresends
  cases r with
  | ok a =>
    obtain rfl := Outcome.ok.inj hs
    exact hresends
  | error e =>
    obtain rfl := Outcome.ok.inj hs
    exact hresends
  | panic e => cases hs

theorem unacked_messages_resent (crypto : Crypto) {i : Nat} {call : Call} {opts : SendOptions}
    {s₀ : Session} (hcall : s₀.calls[i]? = some call) (hkind : call.kind = .sendMessage opts)
    (hbuilt : call.stage = .built) (henlist : s₀.step crypto (.enlist i) = .ok s)
    {events : List Event} (hrun : Run.run (step crypto) s events = .ok s') :
    Resent crypto call.packet s' ∨
      Run.Happens (step crypto) (fun _ a => Answers call.packet a) s events := by
  have hmem : call.packet ∈ s.client.sending := by
    rw [step,hcall] at henlist
    simp only [hbuilt] at henlist
    rw [enlist,hkind] at henlist
    obtain rfl := Outcome.ok.inj henlist
    exact List.mem_append_right _ (List.mem_singleton_self _)
  have hstep : ∀ t a t', True → step crypto t a = .ok t' → True ∧
      (call.packet ∈ t.client.sending →
        call.packet ∈ t'.client.sending ∨ Answers call.packet a) :=
    fun t a t' _ ht => ⟨trivial,fun hsending => sending_step hsending ht⟩
  exact (Run.holds_unless hstep trivial hmem hrun).imp_left resent_of_mem

def reconnect : List Event :=
  [.write 0,.lost,.dial devicePrivateKey 1,.connack (.connack deviceConnack)]

def enlistsOne (s : Session) : Bool :=
  match s.calls[0]? with
  | some call => match call.kind,call.stage with
    | .sendMessage _, .built =>
        Run.endsIn (fun t => Run.endsIn (fun _ => true) (Run.run (step deviceCrypto) t reconnect))
          (s.step deviceCrypto (.enlist 0))
    | _, _ => false
  | none => false

def greet : List Event :=
  [.dial devicePrivateKey 0,.connack (.connack deviceConnack),
    .start (.sendMessage {}) ⟨Bytes.ofString "v",1⟩ (Bytes.ofString "hi") (Bytes.ofString "m1")]

theorem greeting_resent : ∃ s₀ call s s',
    Run.run (step deviceCrypto) (.new ⟨4,Bytes.ofString "u",[]⟩ false) greet = .ok s₀ ∧
      s₀.calls[0]? = some call ∧ s₀.step deviceCrypto (.enlist 0) = .ok s ∧
      Run.run (step deviceCrypto) s reconnect = .ok s' ∧
      (Resent deviceCrypto call.packet s' ∨
        Run.Happens (step deviceCrypto) (fun _ a => Answers call.packet a) s reconnect) := by
  have hends : Run.endsIn enlistsOne (Run.run (step deviceCrypto)
      (.new ⟨4,Bytes.ofString "u",[]⟩ false) greet) = true := by
    decide +kernel
  obtain ⟨s₀,hrun₀,h⟩ := Run.endsIn_eq_true.mp hends
  rw [enlistsOne] at h
  split at h
  · rename_i call hcall
    split at h
    · rename_i opts hkind hbuilt
      obtain ⟨s,henlist,h⟩ := Run.endsIn_eq_true.mp h
      obtain ⟨s',hrun,-⟩ := Run.endsIn_eq_true.mp h
      exact ⟨s₀,call,s,s',hrun₀,hcall,henlist,hrun,
        unacked_messages_resent deviceCrypto hcall hkind hbuilt henlist hrun⟩
    · cases h
  · cases h

end Session

end LiMaoIM.Sdk

import LiMaoIM.Lim.Serving

namespace LiMaoIM.Lim

open Outcome Proto Exec

namespace Serving

variable {poolSize : Nat} {s₀ s : Serving} {events : List ServingEvent}

def Takes (sub : Submission) (o : Outlets) (t : Serving) (a : ServingEvent) : Prop :=
  ∃ index times, a = .deliver index times ∧
    t.dispatch.deliveryMsgPool[index]? = some sub.delivery ∧ FannedOut sub t.endpoints o

theorem waits_or_taken {sub : Submission} (hmem : sub.delivery ∈ s₀.dispatch.deliveryMsgPool)
    (hrun : Run.run (step poolSize) s₀ events = .ok s) :
    sub.delivery ∈ s.dispatch.deliveryMsgPool ∨
      Run.Happens (step poolSize) (Takes sub s.outlets) s₀ events := by
  refine (simulation.kept_or_happens trivial (P := fun x => sub.delivery ∈ x.pool)
    (Q := fun x => Delivering.Taken sub x.outlets)
      (fun _ _ _ hstep hwaits => Delivering.pool_step hwaits hstep)
        (fun x b x' hstep y c htaken => ?_) hmem hrun).imp_right fun htaken => ?_
  · obtain ⟨index,times,heq,hget,hfanned⟩ := htaken
    exact ⟨index,times,heq,hget,hfanned.mono (Delivering.step_extends hstep)⟩
  · refine htaken.imp fun t a hta => ?_
    obtain ⟨b,haccounts,index,times,rfl,hget,hfanned⟩ := hta
    exact ⟨index,times,haccounts,hget,hfanned⟩

end Serving

section Answered

variable {d : Dispatch} {fromUID : Bytes} {flag : DeviceFlag} {p : SendPacket} {input : SendInput}
  {r : SendResult} {c : Channel}

theorem LeavesPool.ensures {α : Type} {x : Exec Dispatch α} (h : LeavesPool x) {d₀ : Dispatch}
    (hd : d.deliveryMsgPool = d₀.deliveryMsgPool) :
    x.Ensures d (fun _ => True) fun _ d' => d'.deliveryMsgPool = d₀.deliveryMsgPool :=
  ⟨trivial,fun _ _ => (h d).trans hd⟩

theorem sendThrough_answered (hplain : (p.framer.syncOnce && !p.framer.noPersist) = false) :
    (sendThrough c fromUID flag p input).Ensures d (fun _ => True) fun r d' =>
      r.reasonCode = reasonSuccess → d'.deliveryMsgPool = d.deliveryMsgPool ++
        [⟨sentMessage fromUID flag p input r.messageSeq,[],c.recipients []⟩] := by
  have refused : reasonError ≠ reasonSuccess := by decide
  simp only [sendThrough]
  refine ((leavesPool_storeIf _ _).ensures rfl).bind fun stored d₁ _ h₁ => ?_
  cases stored with
  | error e => exact .pure trivial fun hsuccess => absurd hsuccess refused
  | ok seq =>
    refine ((leavesPool_storeIf _ _).ensures h₁).bind fun appended d₂ _ h₂ => ?_
    cases appended with
    | error e => exact .pure trivial fun hsuccess => absurd hsuccess refused
    | ok n =>
      refine ((leavesPool_notifyIfNeed _).ensures h₂).bind fun _ d₃ _ h₃ => ?_
      have hput := putMessage_skip (m := sentMessage fromUID flag p input seq) hplain c d₃
      rw [h₃] at hput
      have hdelivered : (putMessage c (sentMessage fromUID flag p input seq)).Ensures d₃
          (fun _ => True) fun _ d₄ => d₄.deliveryMsgPool = d.deliveryMsgPool ++
            [⟨sentMessage fromUID flag p input seq,[],c.recipients []⟩] := by
        refine ⟨trivial,fun _ _ => ?_⟩
        rw [hput]
        rfl
      exact hdelivered.bind fun _ d₄ _ h₄ => .pure trivial fun _ => h₄

theorem handleSend_none {d' : Dispatch} (hnone : ∀ c, ¬ Passes d fromUID p c)
    (hrun : handleSendPacketWithFrom fromUID flag p input d = (.ok r,d')) :
    r.reasonCode ≠ reasonSuccess := by
  obtain ⟨allow,d₁,hallow,hlook,hiff⟩ := allowSend_eq d fromUID p
  rw [handleSendPacketWithFrom,bind_of_ok hallow] at hrun
  cases allow with
  | false =>
    cases hrun
    decide
  | true =>
    obtain ⟨⟨found,reason⟩,d₂,hget,-,hfound⟩ :=
      getSendChannel_eq d₁ fromUID (sendChannelID fromUID p) p.channelType
    rw [hlook.channels,hlook.opts,hlook.systemUIDs] at hfound
    rw [if_neg (by simp),bind_of_ok hget] at hrun
    cases found with
    | none =>
      cases hrun
      show reasonSubscriberNotExist ≠ reasonSuccess
      decide
    | some c =>
      obtain ⟨hc,hpass⟩ := (hfound c).mp rfl
      exact absurd ⟨hiff.mp rfl,hc,fun hm => (hpass hm).1,fun hm => (hpass hm).2⟩ (hnone c)

theorem handleSend_answered (hrun : (handleSendPacketWithFrom fromUID flag p input d).1 = .ok r)
    (hsuccess : r.reasonCode = reasonSuccess)
    (hplain : (p.framer.syncOnce && !p.framer.noPersist) = false) :
    ∃ c, Passes d fromUID p c ∧
      (handleSendPacketWithFrom fromUID flag p input d).2.deliveryMsgPool = d.deliveryMsgPool ++
        [⟨sentMessage fromUID flag p input r.messageSeq,[],c.recipients []⟩] := by
  rcases handleSend_cases d fromUID flag p input with ⟨r',d',heq,-,hnone⟩ | ⟨c,d',heq,hlook,hpass⟩
  · rw [heq] at hrun
    obtain rfl := Outcome.ok.inj hrun
    exact absurd hsuccess (handleSend_none hnone heq)
  · rw [heq] at hrun ⊢
    refine ⟨c,hpass,?_⟩
    rw [← hlook.deliveryMsgPool]
    exact (sendThrough_answered hplain).post r hrun hsuccess

end Answered

namespace Serving

structure Reaches (t : Serving) (fromUID : Bytes) (flag : DeviceFlag) (p : SendPacket)
    (input : SendInput) (seq : UInt32) (sub : Submission) : Prop where
  packet : sub.packet = (sentMessage fromUID flag p input seq).recvPacket
  flag : sub.fromDeviceFlag = flag
  subscribers : ∃ c, Passes t.dispatch fromUID p c ∧ sub.subscribers = c.getAllSubscribers

def answersSuccess : Bool :=
  match (handleSendPacketWithFrom [0x61] 0 groupPacket groupInput groupStart.dispatch).1 with
  | .ok r => decide (r.reasonCode = reasonSuccess)
  | _ => false

end Serving

end LiMaoIM.Lim

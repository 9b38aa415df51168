import LiMaoIM.Foundation.Simulation
import LiMaoIM.Lim.DeliveryFanOut
import LiMaoIM.Lim.SendAuthorisation

namespace LiMaoIM.Lim

open Outcome Proto Exec

structure Serving where
  dispatch : Dispatch
  endpoints : Endpoints
  outlets : Outlets

inductive ServingEvent where
  | server (lim : LiMao)
  | endpoints (ends : Endpoints)
  | send (fromUID : Bytes) (fromDeviceFlag : DeviceFlag) (p : SendPacket) (input : SendInput)
  | request (req : MessageSendReq) (channelID : Bytes) (channelType : UInt8) (clientMsgNo : Bytes)
      (input : SendInput)
  | forwarded (fromDeviceFlag : DeviceFlag) (p : RecvPacket) (users : List Bytes)
  | deliver (index : Nat) (times : DeliveryTimes)
  | recvack (clientID messageID : Int64)
  | process (t : Int64)

def onRecvPacket (fromDeviceFlag : DeviceFlag) (p : RecvPacket) (users : List Bytes) :
    Exec Dispatch Unit :=
  handleLocalSubscribersMessage ⟨p,[],[],fromDeviceFlag,0⟩ users

namespace Serving

def initial (lim : LiMao) (webhookOn : Bool) : Serving :=
  ⟨⟨lim,webhookOn,[],[]⟩,⟨.empty,fun _ => 0⟩,⟨.new,[],[]⟩⟩

-- a handler submits one delivery at most, and a full pool refuses it
def accept (poolSize : Nat) (s : Serving) (d : Dispatch) : Serving :=
  { s with
    dispatch :=
      { d with
        deliveryMsgPool :=
          if s.dispatch.deliveryMsgPool.length < poolSize then d.deliveryMsgPool
          else s.dispatch.deliveryMsgPool } }

def handle {α : Type} (poolSize : Nat) (s : Serving) (x : Exec Dispatch α) : Outcome Serving :=
  match x s.dispatch with
  | (.ok _,d) => .ok (s.accept poolSize d)
  | (.error _,d) => .ok (s.accept poolSize d)
  | (.panic e,_) => .panic e

def delivering (s : Serving) : Delivering := ⟨s.endpoints,s.outlets,s.dispatch.deliveryMsgPool⟩

def withDelivering (s : Serving) (t : Delivering) : Serving :=
  ⟨{ s.dispatch with deliveryMsgPool := t.pool },t.endpoints,t.outlets⟩

def along (poolSize : Nat) (s : Serving) (e : DeliveringEvent) : Outcome Serving := do
  let t ← s.delivering.step Aes.cbc poolSize e
  pure (s.withDelivering t)

def step (poolSize : Nat) (s : Serving) : ServingEvent → Outcome Serving
  | .server lim => .ok { s with dispatch := { s.dispatch with lim := lim } }
  | .endpoints ends => s.along poolSize (.endpoints ends)
  | .send fromUID fromDeviceFlag p input =>
      s.handle poolSize (handleSendPacketWithFrom fromUID fromDeviceFlag p input)
  | .request req channelID channelType clientMsgNo input =>
      s.handle poolSize (sendMessageToChannel req channelID channelType clientMsgNo input)
  | .forwarded fromDeviceFlag p users =>
      s.handle poolSize (onRecvPacket fromDeviceFlag p users)
  | .deliver index times => s.along poolSize (.deliver index times)
  | .recvack clientID messageID => s.along poolSize (.recvack clientID messageID)
  | .process t => s.along poolSize (.process t)

end Serving

section Submits

variable {α : Type}

def Submits (x : Exec Dispatch α) (P : Delivery → Prop) : Prop :=
  Appends Dispatch.deliveryMsgPool x P

def LeavesPool (x : Exec Dispatch α) : Prop := Leaves Dispatch.deliveryMsgPool x

theorem leavesPool_onStore (x : Exec Db.Store α) : LeavesPool (onStore x) := fun _ => rfl

theorem leavesPool_storeMessageToUserQueueIfNeed (m : Message) (subscribers : List Bytes)
    (subscriberSeqMap : List (Bytes × UInt32)) :
    LeavesPool (storeMessageToUserQueueIfNeed m subscribers subscriberSeqMap) := by
  induction subscribers generalizing subscriberSeqMap with
  | nil => exact .pure _
  | cons subscriber subscribers ih =>
    rw [storeMessageToUserQueueIfNeed]
    split
    · exact .bind (leavesPool_onStore _) fun seq => ih _
    · exact ih subscriberSeqMap

theorem submits_handleLocalSubscribersMessage (m : Message) (subscribers : List Bytes) :
    Submits (handleLocalSubscribersMessage m subscribers) fun delivery =>
      ∃ subscriberSeqMap, delivery = ⟨m,subscriberSeqMap,subscribers⟩ := by
  refine Leaves.bind_appends (leavesPool_storeMessageToUserQueueIfNeed m subscribers [])
    fun seqMap d => ?_
  exact Or.inr ⟨_,⟨seqMap,rfl⟩,rfl⟩

theorem submits_putMessage (c : Channel) (m : Message) : Submits (putMessage c m) fun delivery =>
    ∃ subscriberSeqMap, delivery = ⟨m,subscriberSeqMap,c.recipients m.subscribers⟩ :=
  (submits_handleLocalSubscribersMessage m (c.recipients m.subscribers)).ignoreError

theorem leavesPool_notifyIfNeed (m : Db.Message) : LeavesPool (notifyIfNeed m) := by
  intro d
  obtain ⟨queue,hnotify⟩ := notifyIfNeed_eq m d
  rw [hnotify]

theorem leavesPool_storeIf {P : Prop} [Decidable P] (x : Exec Db.Store α) (a : α) :
    LeavesPool (Exec.attempt (if P then onStore x else pure a)) := by
  refine Leaves.attempt ?_
  split
  · exact leavesPool_onStore x
  · exact .pure a

theorem submits_sendThrough (c : Channel) (fromUID : Bytes) (flag : DeviceFlag) (p : SendPacket)
    (input : SendInput) : Submits (sendThrough c fromUID flag p input) fun delivery =>
      ∃ seq subscriberSeqMap, delivery =
        ⟨sentMessage fromUID flag p input seq,subscriberSeqMap,c.recipients []⟩ := by
  simp only [sendThrough]
  refine Leaves.bind_appends (leavesPool_storeIf _ _) fun stored => ?_
  cases stored with
  | error e => exact Leaves.appends (.pure _)
  | ok seq =>
    refine Leaves.bind_appends (leavesPool_storeIf _ _) fun appended => ?_
    cases appended with
    | error e => exact Leaves.appends (.pure _)
    | ok n =>
      refine Leaves.bind_appends (leavesPool_notifyIfNeed _) fun _ => ?_
      refine Appends.bind_leaves (fun d => ?_) fun _ => .pure _
      refine (submits_putMessage c (sentMessage fromUID flag p input seq) d).imp_right ?_
      rintro ⟨delivery,⟨seqMap,rfl⟩,hpool⟩
      exact ⟨_,⟨seq,seqMap,rfl⟩,hpool⟩

theorem submits_requestThrough (c : Channel) (req : MessageSendReq) (channelID : Bytes)
    (channelType : UInt8) (clientMsgNo : Bytes) (input : SendInput) :
    Submits (requestThrough c req channelID channelType clientMsgNo input) fun delivery =>
      ∃ seq subscriberSeqMap, delivery =
        ⟨requestedMessage req channelID channelType clientMsgNo input seq,subscriberSeqMap,
          c.recipients
            (requestedMessage req channelID channelType clientMsgNo input seq).subscribers⟩ := by
  simp only [requestThrough]
  refine Leaves.bind_appends (leavesPool_storeIf _ _) fun stored => ?_
  cases stored with
  | error e => exact Leaves.appends (.lift _)
  | ok seq =>
    refine Leaves.bind_appends (leavesPool_storeIf _ _) fun appended => ?_
    cases appended with
    | error e => exact Leaves.appends (.lift _)
    | ok n =>
      refine Leaves.bind_appends (leavesPool_notifyIfNeed _) fun _ d => ?_
      refine (submits_putMessage c _ d).imp_right ?_
      rintro ⟨delivery,⟨seqMap,rfl⟩,hpool⟩
      exact ⟨_,⟨seq,seqMap,rfl⟩,hpool⟩

end Submits

theorem handleSend_pool (d : Dispatch) (fromUID : Bytes) (flag : DeviceFlag) (p : SendPacket)
    (input : SendInput) :
    (handleSendPacketWithFrom fromUID flag p input d).2.deliveryMsgPool = d.deliveryMsgPool ∨
      ∃ c seq subscriberSeqMap, Passes d fromUID p c ∧
        (handleSendPacketWithFrom fromUID flag p input d).2.deliveryMsgPool = d.deliveryMsgPool ++
          [⟨sentMessage fromUID flag p input seq,subscriberSeqMap,c.recipients []⟩] := by
  rcases handleSend_cases d fromUID flag p input with ⟨r,d',hrun,hlook,-⟩ | ⟨c,d',hrun,hlook,hpass⟩
  · rw [hrun]
    exact Or.inl hlook.deliveryMsgPool
  · rw [hrun,← hlook.deliveryMsgPool]
    refine (submits_sendThrough c fromUID flag p input d').imp_right ?_
    rintro ⟨delivery,⟨seq,seqMap,rfl⟩,hpool⟩
    exact ⟨c,seq,seqMap,hpass,hpool⟩

theorem sendMessageToChannel_pool (d : Dispatch) (req : MessageSendReq) (channelID : Bytes)
    (channelType : UInt8) (clientMsgNo : Bytes) (input : SendInput) :
    (sendMessageToChannel req channelID channelType clientMsgNo input d).2.deliveryMsgPool =
        d.deliveryMsgPool ∨
      ∃ c seq subscriberSeqMap,
        (d.lim.getChannel (requestedChannelID req channelID channelType) channelType).1 = some c ∧
        (sendMessageToChannel req channelID channelType clientMsgNo input d).2.deliveryMsgPool =
          d.deliveryMsgPool ++ [⟨requestedMessage req channelID channelType clientMsgNo input seq,
            subscriberSeqMap,c.recipients
              (requestedMessage req channelID channelType clientMsgNo input seq).subscribers⟩] := by
  have hlook := looked_getChannel d (requestedChannelID req channelID channelType) channelType
  rw [sendMessageToChannel,bind_of_ok (onServer_getChannel d _ channelType)]
  cases hget : (d.lim.getChannel (requestedChannelID req channelID channelType) channelType).1 with
  | none => exact Or.inl hlook.deliveryMsgPool
  | some c =>
    simp only
    rw [← hlook.deliveryMsgPool]
    refine (submits_requestThrough c req channelID channelType clientMsgNo input _).imp_right ?_
    rintro ⟨delivery,⟨seq,seqMap,rfl⟩,hpool⟩
    exact ⟨c,seq,seqMap,rfl,hpool⟩

namespace Serving

variable {poolSize : Nat} {s s' : Serving} {events : List ServingEvent} {a : ServingEvent}

def Originates (sub : Submission) (t : Serving) : ServingEvent → Prop
  | .send fromUID flag p input => ∃ c seq, Passes t.dispatch fromUID p c ∧
      sub.packet = (sentMessage fromUID flag p input seq).recvPacket ∧
        sub.fromDeviceFlag = flag ∧ sub.subscribers = c.recipients []
  | .request req channelID channelType clientMsgNo input => ∃ c seq,
      (t.dispatch.lim.getChannel (requestedChannelID req channelID channelType) channelType).1 =
          some c ∧
        sub.packet =
          (requestedMessage req channelID channelType clientMsgNo input seq).recvPacket ∧
        sub.fromDeviceFlag = deviceFlagSystem ∧
        sub.subscribers = c.recipients
          (requestedMessage req channelID channelType clientMsgNo input seq).subscribers
  | .forwarded flag p users =>
      sub.packet = p ∧ sub.fromDeviceFlag = flag ∧ sub.subscribers = users
  | _ => False

def Accounts : DeliveringEvent → Serving → ServingEvent → Prop
  | .endpoints ends, _, a => a = .endpoints ends
  | .submit p flag named subscriberSeqMap subscribers, t, a =>
      Originates ⟨p,flag,named,subscriberSeqMap,subscribers⟩ t a
  | .deliver index times, _, a => a = .deliver index times
  | .recvack clientID messageID, _, a => a = .recvack clientID messageID
  | .process time, _, a => a = .process time

theorem handle_eq_ok {α : Type} {x : Exec Dispatch α} (h : s.handle poolSize x = .ok s') :
    s' = s.accept poolSize (x s.dispatch).2 := by
  rw [handle] at h
  split at h
  · rename_i hrun
    rw [hrun]
    exact (Outcome.ok.inj h).symm
  · rename_i hrun
    rw [hrun]
    exact (Outcome.ok.inj h).symm
  · cases h

theorem along_eq_ok {e : DeliveringEvent} (h : s.along poolSize e = .ok s') :
    s.delivering.step Aes.cbc poolSize e = .ok s'.delivering := by
  obtain ⟨t,ht,heq⟩ := bind_eq_ok.mp h
  obtain rfl := Outcome.ok.inj heq
  exact ht

theorem accept_same {d : Dispatch} (h : d.deliveryMsgPool = s.dispatch.deliveryMsgPool) :
    (s.accept poolSize d).delivering = s.delivering := by
  simp [accept,delivering,h]

theorem accept_submitted {d : Dispatch} {sub : Submission}
    (h : d.deliveryMsgPool = s.dispatch.deliveryMsgPool ++ [sub.delivery]) :
    s.delivering.step Aes.cbc poolSize sub.event = .ok (s.accept poolSize d).delivering := by
  simp only [accept,delivering,h]
  rfl

theorem moves_of_submission {α : Type} {x : Exec Dispatch α} {P : Submission → Prop}
    (hx : (x s.dispatch).2.deliveryMsgPool = s.dispatch.deliveryMsgPool ∨ ∃ sub, P sub ∧
      (x s.dispatch).2.deliveryMsgPool = s.dispatch.deliveryMsgPool ++ [sub.delivery])
    (hs : s.handle poolSize x = .ok s') (hfrom : ∀ sub, P sub → Originates sub s a) :
    s'.delivering = s.delivering ∨
      ∃ e, s.delivering.step Aes.cbc poolSize e = .ok s'.delivering ∧ Accounts e s a := by
  obtain rfl := handle_eq_ok hs
  rcases hx with hsame | ⟨sub,hsub,hpool⟩
  · exact Or.inl (accept_same hsame)
  · exact Or.inr ⟨sub.event,accept_submitted hpool,hfrom sub hsub⟩

theorem simulation : Simulation (step poolSize) (Delivering.step Aes.cbc poolSize) delivering
    (fun _ => True) Accounts := by
  refine ⟨fun _ _ _ h _ => h,fun s a s' _ hs => ?_⟩
  cases a with
  | server lim =>
    obtain rfl := Outcome.ok.inj hs
    exact Or.inl rfl
  | endpoints ends => exact Or.inr ⟨_,along_eq_ok hs,rfl⟩
  | send fromUID flag p input =>
    refine moves_of_submission (P := fun sub => ∃ c seq, Passes s.dispatch fromUID p c ∧
      ∃ seqMap, sub = ⟨(sentMessage fromUID flag p input seq).recvPacket,flag,[],seqMap,
        c.recipients []⟩) ?_ hs ?_
    · refine (handleSend_pool s.dispatch fromUID flag p input).imp_right ?_
      rintro ⟨c,seq,seqMap,hpass,hpool⟩
      exact ⟨_,⟨c,seq,hpass,seqMap,rfl⟩,hpool⟩
    · rintro sub ⟨c,seq,hpass,seqMap,rfl⟩
      exact ⟨c,seq,hpass,rfl,rfl,rfl⟩
  | request req channelID channelType clientMsgNo input =>
    let m := requestedMessage req channelID channelType clientMsgNo input
    refine moves_of_submission (P := fun sub => ∃ c seq,
      (s.dispatch.lim.getChannel (requestedChannelID req channelID channelType) channelType).1 =
          some c ∧
        ∃ seqMap, sub = ⟨(m seq).recvPacket,deviceFlagSystem,(m seq).subscribers,seqMap,
          c.recipients (m seq).subscribers⟩) ?_ hs ?_
    · refine (sendMessageToChannel_pool s.dispatch req channelID channelType clientMsgNo
        input).imp_right ?_
      rintro ⟨c,seq,seqMap,hget,hpool⟩
      exact ⟨_,⟨c,seq,hget,seqMap,rfl⟩,hpool⟩
    · rintro sub ⟨c,seq,hget,seqMap,rfl⟩
      exact ⟨c,seq,hget,rfl,rfl,rfl⟩
  | forwarded flag p users =>
    refine moves_of_submission (P := fun sub => ∃ seqMap, sub = ⟨p,flag,[],seqMap,users⟩) ?_ hs ?_
    · refine (submits_handleLocalSubscribersMessage ⟨p,[],[],flag,0⟩ users s.dispatch).imp_right ?_
      rintro ⟨delivery,⟨seqMap,rfl⟩,hpool⟩
      exact ⟨_,⟨seqMap,rfl⟩,hpool⟩
    · rintro sub ⟨seqMap,rfl⟩
      exact ⟨rfl,rfl,rfl⟩
  | deliver index times => exact Or.inr ⟨_,along_eq_ok hs,rfl⟩
  | recvack clientID messageID => exact Or.inr ⟨_,along_eq_ok hs,rfl⟩
  | process t => exact Or.inr ⟨_,along_eq_ok hs,rfl⟩

theorem written_was_sent (lim : LiMao) (webhookOn : Bool) (events : List ServingEvent)
    (hrun : Run.run (step poolSize) (initial lim webhookOn) events = .ok s) {w : WrittenRecv}
    (hw : w ∈ s.outlets.written) :
    ∃ sub subscriber ends,
      Run.Happens (step poolSize) (Originates sub) (initial lim webhookOn) events ∧
        subscriber ∈ sub.subscribers ∧ .endpoints ends ∈ events ∧
          SentTo sub subscriber ends w := by
  obtain ⟨trace,htrace,hall⟩ := simulation.run trivial hrun
  obtain ⟨sub,hsub,subscriber,hs,ends,hends,hsent⟩ :=
    (Delivering.accounted_run htrace).outlets.written w hw
  refine ⟨sub,subscriber,ends,hall _ (mem_submissions hsub),hs,?_,hsent⟩
  rcases mem_registries hends with rfl | hends
  · exact absurd hsent.device List.not_mem_nil
  · obtain ⟨pre,a,post,t,rfl,-,rfl⟩ := hall _ hends
    exact List.mem_append_right _ List.mem_cons_self

structure Brought (events : List ServingEvent) (w : WrittenRecv) (subscriber fromUID : Bytes)
    (flag : DeviceFlag) (payload : Bytes) : Prop where
  device : ∃ ends, .endpoints ends ∈ events ∧
    w.client ∈ ends.clientManager.getClientsWithUID subscriber
  other : ¬ (w.client.uid = fromUID ∧ w.client.deviceFlag = flag)
  fromUID : w.packet.fromUID = fromUID
  payload : Opens w.client w.version w.packet payload

def Explains (events : List ServingEvent) (w : WrittenRecv) (t : Serving) : ServingEvent → Prop
  | .send fromUID flag p _ => ∃ c, Passes t.dispatch fromUID p c ∧
      ∃ subscriber ∈ c.getAllSubscribers, Brought events w subscriber fromUID flag p.payload
  | .request req channelID channelType _ _ => ∃ c,
      (t.dispatch.lim.getChannel (requestedChannelID req channelID channelType) channelType).1 =
          some c ∧
        ∃ subscriber, (subscriber ∈ req.subscribers ∨
            req.subscribers = [] ∧ subscriber ∈ c.getAllSubscribers) ∧
          Brought events w subscriber req.fromUID deviceFlagSystem req.payload
  | .forwarded flag p users =>
      ∃ subscriber ∈ users, Brought events w subscriber p.fromUID flag p.payload
  | _ => False

theorem requested_recipient {req : MessageSendReq} {channelID : Bytes} {channelType : UInt8}
    {clientMsgNo : Bytes} {input : SendInput} {seq : UInt32} {c : Channel} {subscriber : Bytes}
    (h : subscriber ∈ c.recipients
      (requestedMessage req channelID channelType clientMsgNo input seq).subscribers) :
    subscriber ∈ req.subscribers ∨ req.subscribers = [] ∧ subscriber ∈ c.getAllSubscribers := by
  by_cases hnamed : req.subscribers = []
  · simp [requestedMessage,Channel.recipients,hnamed] at h
    exact Or.inr ⟨hnamed,h⟩
  · have hlen : 0 < req.subscribers.length := List.length_pos_iff.mpr hnamed
    have hdedup : 0 < req.subscribers.dedup.length := by
      obtain ⟨uid,huid⟩ := List.exists_mem_of_ne_nil req.subscribers hnamed
      exact List.length_pos_of_mem (List.mem_dedup.mpr huid)
    simp [requestedMessage,Channel.recipients,removeRepeatedElement,hlen,hdedup] at h
    exact Or.inl h

theorem explains_of_originates {sub : Submission} {subscriber : Bytes} {ends : Endpoints}
    {w : WrittenRecv} {t : Serving} (hs : subscriber ∈ sub.subscribers)
    (hends : .endpoints ends ∈ events) (hsent : SentTo sub subscriber ends w)
    (h : Originates sub t a) : Explains events w t a := by
  have hbrought : Brought events w subscriber sub.packet.fromUID sub.fromDeviceFlag
      sub.packet.payload :=
    ⟨⟨ends,hends,hsent.device⟩,hsent.other,hsent.header.fromUID,hsent.opens⟩
  cases a with
  | send fromUID flag p input =>
    obtain ⟨c,seq,hpass,hpacket,rfl,hsubscribers⟩ := h
    rw [hpacket] at hbrought
    have hmem : subscriber ∈ c.recipients [] := hsubscribers ▸ hs
    exact ⟨c,hpass,subscriber,hmem,hbrought⟩
  | request req channelID channelType clientMsgNo input =>
    obtain ⟨c,seq,hget,hpacket,hflag,hsubscribers⟩ := h
    rw [hpacket,hflag] at hbrought
    exact ⟨c,hget,subscriber,requested_recipient (hsubscribers ▸ hs),hbrought⟩
  | forwarded flag p users =>
    obtain ⟨rfl,rfl,rfl⟩ := h
    exact ⟨subscriber,hs,hbrought⟩
  | _ => exact h.elim

theorem every_recv_was_sent (poolSize : Nat) (lim : LiMao) (webhookOn : Bool)
    (events : List ServingEvent)
    (hrun : Run.run (step poolSize) (initial lim webhookOn) events = .ok s) :
    ∀ w ∈ s.outlets.written,
      Run.Happens (step poolSize) (Explains events w) (initial lim webhookOn) events := by
  intro w hw
  obtain ⟨sub,subscriber,ends,hhappens,hs,hends,hsent⟩ :=
    written_was_sent lim webhookOn events hrun hw
  exact hhappens.imp fun t a h => explains_of_originates hs hends hsent h

def groupServer : LiMao :=
  (channelCreateOrUpdate ⟨[0x67],2,[],[[0x61],[0x62],[0x63]]⟩ emptyServer).2

def groupPacket : SendPacket := ⟨{},{},[],1,[0x6D],[0x67],2,[0x68]⟩

def groupInput : SendInput := ⟨5,1700000000,[]⟩

def groupStart : Serving :=
  { initial groupServer false with endpoints := Delivering.twoDevices }

def groupEvents : List ServingEvent :=
  [.endpoints Delivering.twoDevices,.send [0x61] 0 groupPacket groupInput,.deliver 0 ⟨5,fun _ => 0⟩]

theorem groupEvents_sent : ∃ s w, Run.run (step 1) (initial groupServer false) groupEvents = .ok s ∧
    w ∈ s.outlets.written ∧
      Run.Happens (step 1) (Explains groupEvents w) (initial groupServer false) groupEvents := by
  have hends : Run.endsIn (fun s => !s.outlets.written.isEmpty)
      (Run.run (step 1) (initial groupServer false) groupEvents) = true := by
    decide +kernel
  obtain ⟨s,hrun,hsome⟩ := Run.endsIn_eq_true.mp hends
  obtain ⟨w,hw⟩ := List.exists_mem_of_ne_nil s.outlets.written (by simpa using hsome)
  exact ⟨s,w,hrun,hw,every_recv_was_sent 1 groupServer false groupEvents hrun w hw⟩

end Serving

end LiMaoIM.Lim

import LiMaoIM.Lim.DeliveryTracking
import LiMaoIM.Util.AesRoundTrip

namespace LiMaoIM.Lim

open Outcome Proto

structure Submission where
  packet : RecvPacket
  fromDeviceFlag : DeviceFlag
  named : List Bytes
  subscriberSeqMap : List (Bytes × UInt32)
  subscribers : List Bytes

namespace Submission

def message (sub : Submission) : Message := freshMessage sub.packet sub.fromDeviceFlag sub.named

def delivery (sub : Submission) : Delivery :=
  ⟨sub.message,sub.subscriberSeqMap,sub.subscribers⟩

def event (sub : Submission) : DeliveringEvent :=
  .submit sub.packet sub.fromDeviceFlag sub.named sub.subscriberSeqMap sub.subscribers

def recvPacket (sub : Submission) (subscriber : Bytes) : RecvPacket :=
  { sub.packet with
    framer := { redDot := sub.packet.framer.redDot, syncOnce := sub.packet.framer.syncOnce,
                noPersist := sub.packet.framer.noPersist }
    msgKey := []
    messageSeq := deliveredSeq sub.message sub.subscriberSeqMap subscriber
    channelID := deliveredChannelID sub.message subscriber }

end Submission

def submissions (events : List DeliveringEvent) : List Submission :=
  events.filterMap fun e => match e with
    | .submit p flag named subscriberSeqMap subscribers =>
        some ⟨p,flag,named,subscriberSeqMap,subscribers⟩
    | _ => none

def registries (events : List DeliveringEvent) : List Endpoints :=
  Delivering.initial.endpoints :: events.filterMap fun e => match e with
    | .endpoints ends => some ends
    | _ => none

theorem mem_submissions {events : List DeliveringEvent} {sub : Submission}
    (h : sub ∈ submissions events) : sub.event ∈ events := by
  obtain ⟨e,he,hsub⟩ := List.mem_filterMap.mp h
  cases e with
  | submit p flag named seqMap subscribers =>
    obtain rfl := Option.some.inj hsub
    exact he
  | _ => cases hsub

theorem mem_registries {events : List DeliveringEvent} {ends : Endpoints}
    (h : ends ∈ registries events) :
    ends = Delivering.initial.endpoints ∨ .endpoints ends ∈ events := by
  refine (List.mem_cons.mp h).imp_right fun hmem => ?_
  obtain ⟨e,he,hends⟩ := List.mem_filterMap.mp hmem
  cases e with
  | endpoints found =>
    obtain rfl := Option.some.inj hends
    exact he
  | _ => cases hends

def Opens (client : Client) (version : UInt8) (packet : RecvPacket) (payload : Bytes) : Prop :=
  if 2 < version then
    Util.aesDecryptPkcs7Base64 Aes.cbc packet.payload client.aesKey client.aesIV = .ok payload ∧
      ∃ msgKeyBytes, Util.aesEncryptPkcs7Base64 Aes.cbc (recvVerityString packet) client.aesKey
        client.aesIV = .ok msgKeyBytes ∧ packet.msgKey = md5 msgKeyBytes
  else packet.payload = payload

structure SameHeader (p q : RecvPacket) : Prop where
  framer : q.framer = p.framer
  setting : q.setting = p.setting
  messageID : q.messageID = p.messageID
  messageSeq : q.messageSeq = p.messageSeq
  clientMsgNo : q.clientMsgNo = p.clientMsgNo
  timestamp : q.timestamp = p.timestamp
  fromUID : q.fromUID = p.fromUID
  channelID : q.channelID = p.channelID
  channelType : q.channelType = p.channelType

structure SentTo (sub : Submission) (subscriber : Bytes) (ends : Endpoints) (w : WrittenRecv) :
    Prop where
  device : w.client ∈ ends.clientManager.getClientsWithUID subscriber
  version : w.version = ends.version w.client.conn
  other : ¬ (w.client.uid = sub.packet.fromUID ∧ w.client.deviceFlag = sub.fromDeviceFlag)
  header : SameHeader (sub.recvPacket subscriber) w.packet
  opens : Opens w.client w.version w.packet sub.packet.payload

theorem sealRecv_opens {client : Client} {version : UInt8} {p packet : RecvPacket}
    (h : sealRecv Aes.cbc client version p = .ok packet) :
    SameHeader p packet ∧ Opens client version packet p.payload := by
  rw [sealRecv] at h
  rw [Opens]
  split
  · rename_i hversion
    rw [if_pos hversion] at h
    obtain ⟨payloadEnc,hpayload,hrest⟩ := bind_eq_ok.mp h
    obtain ⟨msgKeyBytes,hkey,heq⟩ := bind_eq_ok.mp hrest
    obtain rfl := Outcome.ok.inj heq
    obtain ⟨hsize,hiv⟩ := Util.encrypt_eq_ok hpayload
    obtain rfl := Outcome.ok.inj ((Util.encrypt_ok hsize hiv p.payload).symm.trans hpayload)
    exact ⟨⟨rfl,rfl,rfl,rfl,rfl,rfl,rfl,rfl,rfl⟩,Util.decrypt_encrypted hsize hiv p.payload,
      msgKeyBytes,hkey,rfl⟩
  · rename_i hversion
    rw [if_neg hversion] at h
    obtain rfl := Outcome.ok.inj h
    exact ⟨⟨rfl,rfl,rfl,rfl,rfl,rfl,rfl,rfl,rfl⟩,rfl⟩

namespace Delivering

structure From (sub : Submission) (m : Message) : Prop where
  packet : m.recvPacket = { sub.packet with
    messageSeq := deliveredSeq sub.message sub.subscriberSeqMap m.toUID }
  flag : m.fromDeviceFlag = sub.fromDeviceFlag
  subscriber : m.toUID ∈ sub.subscribers

structure Sourced (subs : List Submission) (ends : List Endpoints) (o : Outlets) : Prop where
  tracked : o.retryQueue.Tracked
  queue : ∀ h < o.retryQueue.next, ∃ sub ∈ subs, From sub (o.retryQueue.message h)
  written : ∀ w ∈ o.written, ∃ sub ∈ subs, ∃ subscriber ∈ sub.subscribers, ∃ e ∈ ends,
    SentTo sub subscriber e w

def Carries (sub : Submission) (d : Delivery) : Prop :=
  d = ⟨sub.message,sub.subscriberSeqMap,sub.subscribers⟩ ∨
    From sub d.message ∧ d.subscriberSeqMap = [] ∧ d.subscribers = [d.message.toUID]

variable {subs : List Submission} {ends : List Endpoints} {e : Endpoints} {sub : Submission}
  {d : Delivery} {o : Outlets} {times : DeliveryTimes}

theorem Carries.addressed (h : Carries sub d) {subscriber : Bytes} (hs : subscriber ∈ d.subscribers)
    (client : Client) :
    From sub (addressed d.message d.subscriberSeqMap subscriber client) := by
  rcases h with rfl | ⟨hfrom,hmap,hsubscribers⟩
  · exact ⟨rfl,rfl,hs⟩
  · rw [hsubscribers] at hs
    obtain rfl := List.mem_singleton.mp hs
    refine ⟨?_,hfrom.flag,hfrom.subscriber⟩
    rw [hmap]
    exact hfrom.packet

theorem Carries.recvPacketOf (h : Carries sub d) {subscriber : Bytes}
    (hs : subscriber ∈ d.subscribers) (client : Client) :
    recvPacketOf (Lim.addressed d.message d.subscriberSeqMap subscriber client)
      (deliveredChannelID d.message subscriber) = sub.recvPacket subscriber := by
  rcases h with rfl | ⟨hfrom,hmap,hsubscribers⟩
  · rfl
  · rw [hsubscribers] at hs
    obtain rfl := List.mem_singleton.mp hs
    rw [hmap,Lim.recvPacketOf,Lim.addressed,deliveredChannelID,deliveredSeq,hfrom.packet]
    rfl

theorem Carries.isSelf_iff (h : Carries sub d) (client : Client) :
    clientIsSelf client d.message = true ↔
      client.uid = sub.packet.fromUID ∧ client.deviceFlag = sub.fromDeviceFlag := by
  rcases h with rfl | ⟨hfrom,-,-⟩
  · exact decide_eq_true_iff
  · rw [clientIsSelf,hfrom.packet,hfrom.flag]
    exact decide_eq_true_iff

theorem startInFlight_sourced (ho : Sourced subs ends o) (hsub : sub ∈ subs) {newMsg : Message}
    (hfrom : From sub newMsg) :
    (startInFlight times newMsg).Ensures o (Sourced subs ends) fun _ _ => True := by
  obtain ⟨q,hstart,htracked,hext,-⟩ := ho.tracked.start times.timeout
    (times.now o.retryQueue.next) ⟨newMsg,0,0⟩
  refine ⟨?_,fun _ _ => trivial⟩
  rw [startInFlight_of_ok hstart]
  refine ⟨htracked,fun h hlt => ?_,ho.written⟩
  have hlt' : h < o.retryQueue.next + 1 := hext.next ▸ hlt
  rcases Nat.lt_succ_iff_lt_or_eq.mp hlt' with hold | rfl
  · obtain ⟨sub',hsub',hfrom'⟩ := ho.queue h hold
    exact ⟨sub',hsub',(hext.old h hold).symm ▸ hfrom'⟩
  · exact ⟨sub,hsub,hext.fresh.symm ▸ hfrom⟩

theorem writeRecv_sourced (ho : Sourced subs ends o) (he : e ∈ ends) (hsub : sub ∈ subs)
    {subscriber : Bytes} (hs : subscriber ∈ sub.subscribers) {client : Client}
    (hdevice : client ∈ e.clientManager.getClientsWithUID subscriber)
    (hother : ¬ (client.uid = sub.packet.fromUID ∧ client.deviceFlag = sub.fromDeviceFlag)) :
    (writeRecv Aes.cbc e client (sub.recvPacket subscriber)).Ensures o (Sourced subs ends)
      fun _ _ => True := by
  rw [writeRecv]
  cases hseal : sealRecv Aes.cbc client (e.version client.conn) (sub.recvPacket subscriber) with
  | ok packet =>
    obtain ⟨hheader,hopens⟩ := sealRecv_opens hseal
    refine ⟨⟨ho.tracked,ho.queue,fun w hw => ?_⟩,fun _ _ => trivial⟩
    rcases List.mem_append.mp hw with hw | hw
    · exact ho.written w hw
    · obtain rfl := List.mem_singleton.mp hw
      exact ⟨sub,hsub,subscriber,hs,e,he,hdevice,rfl,hother,hheader,hopens⟩
  | error => exact .pure ho trivial
  | panic => exact .lift ho fun _ _ => trivial

theorem Carries.subscriber (h : Carries sub d) {subscriber : Bytes}
    (hs : subscriber ∈ d.subscribers) : subscriber ∈ sub.subscribers :=
  (h.addressed hs ⟨0,[],0,0,[],[]⟩).subscriber

theorem deliverToClient_sourced (ho : Sourced subs ends o) (he : e ∈ ends) (hsub : sub ∈ subs)
    (hd : Carries sub d) {subscriber : Bytes} (hs : subscriber ∈ d.subscribers) {client : Client}
    (hclient : client ∈ getRecvClients e d.message subscriber) :
    (deliverToClient Aes.cbc times e d.message d.subscriberSeqMap subscriber client).Ensures o
      (Sourced subs ends) fun _ _ => True := by
  obtain ⟨hdevice,hself⟩ := List.mem_filter.mp hclient
  have hother := mt (hd.isSelf_iff client).mpr (of_decide_eq_true hself)
  rw [deliverToClient]
  split
  · exact .pure ho trivial
  · refine (startInFlight_sourced ho hsub (hd.addressed hs client)).bind fun _ o' ho' _ => ?_
    rw [hd.recvPacketOf hs client]
    exact writeRecv_sourced ho' he hsub (hd.subscriber hs) hdevice hother

theorem deliverToClients_sourced (ho : Sourced subs ends o) (he : e ∈ ends) (hsub : sub ∈ subs)
    (hd : Carries sub d) {subscriber : Bytes} (hs : subscriber ∈ d.subscribers)
    {clients : List Client} (hclients : ∀ client ∈ clients,
      client ∈ getRecvClients e d.message subscriber) :
    (deliverToClients Aes.cbc times e d.message d.subscriberSeqMap subscriber clients).Ensures o
      (Sourced subs ends) fun _ _ => True := by
  induction clients generalizing o with
  | nil => exact .pure ho trivial
  | cons client clients ih =>
    refine (deliverToClient_sourced ho he hsub hd hs (hclients client List.mem_cons_self)).bind
      fun _ o' ho' _ => ?_
    exact ih ho' fun x hx => hclients x (List.mem_cons_of_mem _ hx)

theorem finishInFlight_sourced (ho : Sourced subs ends o) (clientID messageID : Int64) :
    (finishInFlight clientID messageID).Ensures o (Sourced subs ends) fun _ _ => True := by
  refine ⟨?_,fun _ _ => trivial⟩
  rw [finishInFlight]
  rcases ho.tracked.finish clientID messageID with ⟨hmissing,-⟩ | ⟨q,hfinish,htracked,hnext,hmsg,-⟩
  · rw [hmissing]
    exact ho
  · rw [hfinish]
    exact ⟨htracked,fun h hlt => hmsg ▸ ho.queue h (hnext ▸ hlt),ho.written⟩

theorem deliverToSubscribers_sourced (ho : Sourced subs ends o) (he : e ∈ ends) (hsub : sub ∈ subs)
    (hd : Carries sub d) {subscribers : List Bytes} (hs : ∀ x ∈ subscribers, x ∈ d.subscribers) :
    (deliverToSubscribers Aes.cbc times e d.message d.subscriberSeqMap subscribers).Ensures o
      (Sourced subs ends) fun _ _ => True := by
  induction subscribers generalizing o with
  | nil => exact .pure ho trivial
  | cons subscriber subscribers ih =>
    have hs' := fun x hx => hs x (List.mem_cons_of_mem subscriber hx)
    rw [deliverToSubscribers]
    cases hclients : getRecvClients e d.message subscriber with
    | nil =>
      have hrest {o' : Outlets} (ho' : Sourced subs ends o') :
          (deliverToSubscribers Aes.cbc times e d.message d.subscriberSeqMap subscribers >>=
            fun offline => pure (if subscriber = d.message.recvPacket.fromUID then offline
              else subscriber :: offline)).Ensures o' (Sourced subs ends) fun _ _ => True :=
        (ih ho' hs').bind fun _ _ ho'' _ => .pure ho'' trivial
      simp only
      split
      · exact (finishInFlight_sourced ho _ _).bind fun _ o' ho' _ => hrest ho'
      · exact hrest ho
    | cons client clients =>
      have hmem : ∀ x ∈ client :: clients, x ∈ getRecvClients e d.message subscriber := by
        rw [hclients]
        exact fun _ hx => hx
      exact (deliverToClients_sourced ho he hsub hd (hs subscriber List.mem_cons_self) hmem).bind
        fun _ o' ho' _ => ih ho' hs'

theorem deliveryMsg_sourced (ho : Sourced subs ends o) (he : e ∈ ends) (hsub : sub ∈ subs)
    (hd : Carries sub d) :
    (deliveryMsg Aes.cbc times e d.message d.subscriberSeqMap d.subscribers).Ensures o
      (Sourced subs ends) fun _ _ => True := by
  refine (deliverToSubscribers_sourced ho he hsub hd fun _ hx => hx).bind fun offline o' ho' _ => ?_
  split
  · exact .pure ho' trivial
  · exact ⟨⟨ho'.tracked,ho'.queue,ho'.written⟩,fun _ _ => trivial⟩

structure Accounted (events : List DeliveringEvent) (s : Delivering) : Prop where
  outlets : Sourced (submissions events) (registries events) s.outlets
  pool : ∀ d ∈ s.pool, ∃ sub ∈ submissions events, Carries sub d
  endpoints : s.endpoints ∈ registries events

variable {events : List DeliveringEvent} {s s' : Delivering} {poolSize : Nat}

theorem Sourced.mono {subs' : List Submission} {ends' : List Endpoints} (ho : Sourced subs ends o)
    (hsubs : subs ⊆ subs') (hends : ends ⊆ ends') : Sourced subs' ends' o := by
  refine ⟨ho.tracked,fun h hlt => ?_,fun w hw => ?_⟩
  · obtain ⟨sub,hsub,hfrom⟩ := ho.queue h hlt
    exact ⟨sub,hsubs hsub,hfrom⟩
  · obtain ⟨sub,hsub,subscriber,hs,e,he,hsent⟩ := ho.written w hw
    exact ⟨sub,hsubs hsub,subscriber,hs,e,hends he,hsent⟩

theorem submissions_append (events : List DeliveringEvent) (a : DeliveringEvent) :
    submissions events ⊆ submissions (events ++ [a]) := by
  rw [submissions,submissions,List.filterMap_append]
  exact List.subset_append_left _ _

theorem registries_append (events : List DeliveringEvent) (a : DeliveringEvent) :
    registries events ⊆ registries (events ++ [a]) := by
  rw [registries,registries,List.filterMap_append]
  exact List.cons_subset_cons _ (List.subset_append_left _ _)

theorem Accounted.append (h : Accounted events s) (a : DeliveringEvent) :
    Accounted (events ++ [a]) s := by
  have hsubs := submissions_append events a
  have hends := registries_append events a
  refine ⟨h.outlets.mono hsubs hends,fun d hd => ?_,hends h.endpoints⟩
  obtain ⟨sub,hsub,hcarries⟩ := h.pool d hd
  exact ⟨sub,hsubs hsub,hcarries⟩

theorem accounted_deliver (h : Accounted events s) {index : Nat}
    (hstep : s.step Aes.cbc poolSize (.deliver index times) = .ok s') : Accounted events s' := by
  rw [step] at hstep
  cases hd : s.pool[index]? with
  | none =>
    rw [hd] at hstep
    obtain rfl := Outcome.ok.inj hstep
    exact h
  | some d =>
    rw [hd] at hstep
    obtain ⟨-,rfl⟩ := settle_eq_ok hstep
    obtain ⟨sub,hsub,hcarries⟩ := h.pool d (List.mem_of_getElem? hd)
    exact ⟨(deliveryMsg_sourced h.outlets h.endpoints hsub hcarries).keeps,
      fun x hx => h.pool x (List.mem_of_mem_eraseIdx hx),h.endpoints⟩

theorem accounted_process (h : Accounted events s) {t : Int64}
    (hstep : s.step Aes.cbc poolSize (.process t) = .ok s') : Accounted events s' := by
  obtain ⟨handed,q,hprocess,hd⟩ := h.outlets.tracked.processInFlightQueue t
  rw [step,hprocess] at hstep
  obtain rfl := Outcome.ok.inj hstep
  refine ⟨⟨hd.tracked,fun x hlt => ?_,h.outlets.written⟩,fun d hmem => ?_,h.endpoints⟩
  · rw [hd.message]
    exact h.outlets.queue x (hd.next ▸ hlt)
  · rcases mem_poolSubmits hmem with hmem | hmem
    · exact h.pool d hmem
    · obtain ⟨r,hr,rfl⟩ := List.mem_map.mp hmem
      obtain ⟨heq,hlt⟩ := hd.delivery r hr
      obtain ⟨sub,hsub,hfrom⟩ := h.outlets.queue r.msg hlt
      rw [heq]
      exact ⟨sub,hsub,Or.inr ⟨hfrom,rfl,rfl⟩⟩

theorem accounted_step (h : Accounted events s) {a : DeliveringEvent}
    (hstep : s.step Aes.cbc poolSize a = .ok s') : Accounted (events ++ [a]) s' := by
  have hnow := h.append a
  cases a with
  | endpoints ends =>
    obtain rfl := Outcome.ok.inj hstep
    refine ⟨hnow.outlets,hnow.pool,?_⟩
    rw [registries,List.filterMap_append]
    exact List.mem_cons_of_mem _ (List.mem_append_right _ (List.mem_singleton_self ends))
  | submit p flag named seqMap subscribers =>
    obtain rfl := Outcome.ok.inj hstep
    refine ⟨hnow.outlets,fun d hd => ?_,hnow.endpoints⟩
    rcases mem_poolSubmit hd with hd | rfl
    · exact hnow.pool d hd
    · refine ⟨⟨p,flag,named,seqMap,subscribers⟩,?_,Or.inl rfl⟩
      rw [submissions,List.filterMap_append]
      exact List.mem_append_right _ (List.mem_singleton_self _)
  | deliver index times => exact accounted_deliver hnow hstep
  | recvack clientID messageID =>
    obtain ⟨-,rfl⟩ := settle_eq_ok hstep
    exact ⟨(finishInFlight_sourced hnow.outlets clientID messageID).keeps,hnow.pool,hnow.endpoints⟩
  | process t => exact accounted_process hnow hstep

theorem accounted_initial : Accounted [] initial :=
  ⟨⟨RetryQueue.tracked_new,fun _ hlt => absurd hlt (Nat.not_lt_zero _),fun _ hw =>
    absurd hw List.not_mem_nil⟩,fun _ hd => absurd hd List.not_mem_nil,List.mem_cons_self⟩

theorem accounted_run (hrun : Run.run (step Aes.cbc poolSize) initial events = .ok s) :
    Accounted events s := by
  have haccounted : Accounted ([] ++ events) s :=
    Run.run_keeps_trace Accounted (fun _ _ _ _ h hstep => accounted_step h hstep) accounted_initial
      hrun
  exact haccounted

theorem every_recv_was_submitted (poolSize : Nat) (events : List DeliveringEvent) {s : Delivering}
    (hrun : Run.run (step Aes.cbc poolSize) initial events = .ok s) {w : WrittenRecv}
    (hw : w ∈ s.outlets.written) :
    ∃ sub ∈ submissions events, ∃ subscriber ∈ sub.subscribers, ∃ ends ∈ registries events,
      SentTo sub subscriber ends w :=
  (accounted_run hrun).outlets.written w hw

theorem hello_was_submitted : ∃ q,
    Run.run (step Aes.cbc 1) initial [.endpoints plainEndpoints,.submit helloRecv 0 [] [] [[0x62]],
        .deliver 0 ⟨5,fun _ => 0⟩] = .ok ⟨plainEndpoints,⟨q,[helloWritten],[]⟩,[]⟩ ∧
      ∃ sub ∈ submissions [.endpoints plainEndpoints,.submit helloRecv 0 [] [] [[0x62]],
        .deliver 0 ⟨5,fun _ => 0⟩], ∃ subscriber ∈ sub.subscribers,
        ∃ ends ∈ registries [.endpoints plainEndpoints,.submit helloRecv 0 [] [] [[0x62]],
          .deliver 0 ⟨5,fun _ => 0⟩], SentTo sub subscriber ends helloWritten := by
  obtain ⟨q,hstep⟩ := hello_delivered
  have hrun : Run.run (step Aes.cbc 1) initial [.endpoints plainEndpoints,
      .submit helloRecv 0 [] [] [[0x62]],.deliver 0 ⟨5,fun _ => 0⟩] =
        .ok ⟨plainEndpoints,⟨q,[helloWritten],[]⟩,[]⟩ :=
    bind_eq_ok.mpr ⟨_,rfl,bind_eq_ok.mpr ⟨_,rfl,bind_eq_ok.mpr ⟨_,hstep,rfl⟩⟩⟩
  exact ⟨q,hrun,every_recv_was_submitted 1 _ hrun (List.mem_singleton_self helloWritten)⟩

end Delivering

end LiMaoIM.Lim

import LiMaoIM.Foundation.Run
import LiMaoIM.Lim.Delivery
import LiMaoIM.Lim.RetryTracking

namespace LiMaoIM.Lim

open Outcome Proto

def WrittenRecv.retryKey (w : WrittenRecv) : Bytes :=
  RetryQueue.inFlightKey w.packet.messageID w.client.getID

def Message.retryKey (m : Message) : Bytes :=
  RetryQueue.inFlightKey m.recvPacket.messageID m.toClientID

structure Delivering where
  endpoints : Endpoints
  outlets : Outlets
  pool : List Delivery

inductive DeliveringEvent where
  | endpoints (ends : Endpoints)
  | submit (p : RecvPacket) (fromDeviceFlag : DeviceFlag) (named : List Bytes)
      (subscriberSeqMap : List (Bytes × UInt32)) (subscribers : List Bytes)
  | deliver (index : Nat) (times : DeliveryTimes)
  | recvack (clientID messageID : Int64)
  | process (t : Int64)

def freshMessage (p : RecvPacket) (fromDeviceFlag : DeviceFlag) (subscribers : List Bytes) :
    Message :=
  ⟨p,[],subscribers,fromDeviceFlag,0⟩

namespace Delivering

def initial : Delivering := ⟨⟨.empty,fun _ => 0⟩,⟨.new,[],[]⟩,[]⟩

-- the pool does not block: a full one refuses the task, and nobody looks at the error
def poolSubmit (poolSize : Nat) (pool : List Delivery) (d : Delivery) : List Delivery :=
  if pool.length < poolSize then pool ++ [d] else pool

def settle (s : Delivering) (pool : List Delivery) : Outcome Unit × Outlets → Outcome Delivering
  | (.ok _,outlets) => .ok ⟨s.endpoints,outlets,pool⟩
  | (.error e,_) => .error e
  | (.panic e,_) => .panic e

def step (mode : Aes.BlockMode) (poolSize : Nat) (s : Delivering) :
    DeliveringEvent → Outcome Delivering
  | .endpoints ends => .ok { s with endpoints := ends }
  | .submit p fromDeviceFlag named subscriberSeqMap subscribers =>
      .ok { s with
        pool := poolSubmit poolSize s.pool
          ⟨freshMessage p fromDeviceFlag named,subscriberSeqMap,subscribers⟩ }
  | .deliver index times =>
      match s.pool[index]? with
      | none => .ok s
      | some d => s.settle (s.pool.eraseIdx index)
          (deliveryMsg mode times s.endpoints d.message d.subscriberSeqMap d.subscribers s.outlets)
  | .recvack clientID messageID => s.settle s.pool (finishInFlight clientID messageID s.outlets)
  | .process t =>
      match s.outlets.retryQueue.processInFlightQueue t with
      | .ok (handed,q) =>
          .ok { s with
            outlets := { s.outlets with retryQueue := q }
            pool := (handed.map Redelivery.delivery).foldl (poolSubmit poolSize) s.pool }
      | .error e => .error e
      | .panic e => .panic e

end Delivering

namespace Outlets

def InFlight (o : Outlets) (k : Bytes) : Prop := o.retryQueue.InFlight k

structure Grown (o o' : Outlets) : Prop where
  tracked : o'.retryQueue.Tracked
  kept : ∀ k, o.InFlight k → o'.InFlight k
  written : ∃ new, o'.written = o.written ++ new ∧ ∀ w ∈ new, o'.InFlight w.retryKey

theorem Grown.refl {o : Outlets} (h : o.retryQueue.Tracked) : Grown o o :=
  ⟨h,fun _ hk => hk,[],(List.append_nil _).symm,fun _ hw => absurd hw List.not_mem_nil⟩

theorem Grown.trans {o₁ o₂ o₃ : Outlets} (h : Grown o₁ o₂) (h' : Grown o₂ o₃) : Grown o₁ o₃ := by
  obtain ⟨new,hnew,hin⟩ := h.written
  obtain ⟨new',hnew',hin'⟩ := h'.written
  refine ⟨h'.tracked,fun k hk => h'.kept k (h.kept k hk),new ++ new',?_,fun w hw => ?_⟩
  · rw [hnew',hnew,List.append_assoc]
  · rcases List.mem_append.mp hw with hw | hw
    · exact h'.kept _ (hin w hw)
    · exact hin' w hw

end Outlets

section DeliveryMsg

variable {mode : Aes.BlockMode} {times : DeliveryTimes} {ends : Endpoints} {msg : Message}
  {subscriberSeqMap : List (Bytes × UInt32)} {subscriber : Bytes} {recvClient : Client}
  {o o' : Outlets}

theorem sealRecv_messageID {version : UInt8} {p packet : RecvPacket}
    (h : sealRecv mode recvClient version p = .ok packet) : packet.messageID = p.messageID := by
  rw [sealRecv] at h
  split at h
  · obtain ⟨payloadEnc,-,hrest⟩ := bind_eq_ok.mp h
    obtain ⟨msgKeyBytes,-,heq⟩ := bind_eq_ok.mp hrest
    obtain rfl := Outcome.ok.inj heq
    rfl
  · obtain rfl := Outcome.ok.inj h
    rfl

theorem Outlets.Grown.ensures {α : Type} {x : Exec Outlets α} {Q : α → Outlets → Prop}
    (h : Outlets.Grown o o') (hx : x.Ensures o' (Outlets.Grown o') Q) :
    x.Ensures o' (Outlets.Grown o) fun a o'' => Q a o'' ∧ Outlets.Grown o' o'' :=
  ⟨h.trans hx.keeps,fun a ha => ⟨hx.post a ha,hx.keeps⟩⟩

theorem startInFlight_of_ok {newMsg : Message} {q : RetryQueue}
    (h : (o.retryQueue.alloc ⟨newMsg,0,0⟩).startInFlightTimeout times.timeout
      (times.now o.retryQueue.next) o.retryQueue.next = .ok q) :
    startInFlight times newMsg o = (.ok (),{ o with retryQueue := q }) := by
  rw [startInFlight,h]

theorem startInFlight_ensures (ho : o.retryQueue.Tracked) (newMsg : Message) :
    (startInFlight times newMsg).Ensures o (Outlets.Grown o) fun _ o' =>
      o'.InFlight newMsg.retryKey := by
  obtain ⟨q,hstart,htracked,-,hin⟩ := ho.start times.timeout (times.now o.retryQueue.next)
    ⟨newMsg,0,0⟩
  have hrun := startInFlight_of_ok hstart
  constructor
  · rw [hrun]
    exact ⟨htracked,fun k hk => (hin k).mpr (Or.inl hk),[],(List.append_nil _).symm,
      fun _ hw => absurd hw List.not_mem_nil⟩
  · rw [hrun]
    exact fun _ _ => (hin _).mpr (Or.inr rfl)

theorem writeRecv_ensures (mode : Aes.BlockMode) (ends : Endpoints) (p : RecvPacket)
    (ho : o.retryQueue.Tracked)
    (hin : o.InFlight (RetryQueue.inFlightKey p.messageID recvClient.getID)) :
    (writeRecv mode ends recvClient p).Ensures o (Outlets.Grown o) fun _ _ => True := by
  rw [writeRecv]
  cases hseal : sealRecv mode recvClient (ends.version recvClient.conn) p with
  | ok packet =>
    refine ⟨⟨ho,fun k hk => hk,[_],rfl,fun w hw => ?_⟩,fun _ _ => trivial⟩
    obtain rfl := List.mem_singleton.mp hw
    rw [WrittenRecv.retryKey,sealRecv_messageID hseal]
    exact hin
  | error e => exact .pure (.refl ho) trivial
  | panic e => exact .lift (.refl ho) fun _ he => by cases he

theorem deliverToClient_ensures (ho : o.retryQueue.Tracked) :
    (deliverToClient mode times ends msg subscriberSeqMap subscriber recvClient).Ensures o
      (Outlets.Grown o) fun _ o' => recvClient.getID = msg.toClientID →
        o'.InFlight msg.retryKey := by
  rw [deliverToClient]
  split
  · rename_i hother
    exact .pure (.refl ho) fun heq => absurd heq hother.2
  · refine (startInFlight_ensures ho _).bind fun _ o' hgrown hin => ?_
    have hwrite := hgrown.ensures (writeRecv_ensures mode ends (recvPacketOf (addressed msg
      subscriberSeqMap subscriber recvClient) (deliveredChannelID msg subscriber)) hgrown.tracked
        hin)
    refine ⟨hwrite.keeps,fun a ha heq => ?_⟩
    have hkept := (hwrite.post a ha).2.kept _ hin
    rwa [Message.retryKey,addressed,heq] at hkept

theorem deliverToClients_ensures {recvClients : List Client} (ho : o.retryQueue.Tracked) :
    (deliverToClients mode times ends msg subscriberSeqMap subscriber recvClients).Ensures o
      (Outlets.Grown o) fun _ o' =>
        (∃ client ∈ recvClients, client.getID = msg.toClientID) → o'.InFlight msg.retryKey := by
  induction recvClients generalizing o with
  | nil => exact .pure (.refl ho) fun h => absurd h.choose_spec.1 List.not_mem_nil
  | cons recvClient recvClients ih =>
    refine (deliverToClient_ensures ho).bind fun _ o' hgrown hin => ?_
    have hrest := hgrown.ensures (ih hgrown.tracked)
    refine ⟨hrest.keeps,fun a ha => ?_⟩
    rintro ⟨client,hclient,heq⟩
    rcases List.mem_cons.mp hclient with rfl | hclient
    · exact (hrest.post a ha).2.kept _ (hin heq)
    · exact (hrest.post a ha).1 ⟨client,hclient,heq⟩

def Reaches (ends : Endpoints) (msg : Message) (subscribers : List Bytes) : Prop :=
  ∃ subscriber ∈ subscribers, ∃ client ∈ getRecvClients ends msg subscriber,
    client.getID = msg.toClientID

theorem deliverToSubscribers_ensures {subscribers : List Bytes} (ho : o.retryQueue.Tracked)
    (hmsg : msg.toClientID = 0 ∨
      ∀ subscriber ∈ subscribers, getRecvClients ends msg subscriber ≠ []) :
    (deliverToSubscribers mode times ends msg subscriberSeqMap subscribers).Ensures o
      (Outlets.Grown o) fun _ o' => Reaches ends msg subscribers → o'.InFlight msg.retryKey := by
  induction subscribers generalizing o with
  | nil => exact .pure (.refl ho) fun h => absurd h.choose_spec.1 List.not_mem_nil
  | cons subscriber subscribers ih =>
    have hmsg' := hmsg.imp_right fun h x hx => h x (List.mem_cons_of_mem _ hx)
    rw [deliverToSubscribers]
    cases hclients : getRecvClients ends msg subscriber with
    | nil =>
      have hzero := hmsg.resolve_right fun h => h subscriber List.mem_cons_self hclients
      simp only
      rw [if_neg (not_not.mpr hzero)]
      refine (ih ho hmsg').bind fun offline o'' hgrown hin => .pure hgrown ?_
      rintro ⟨x,hx,client,hclient,hid⟩
      rcases List.mem_cons.mp hx with rfl | hx
      · rw [hclients] at hclient
        exact absurd hclient List.not_mem_nil
      · exact hin ⟨x,hx,client,hclient,hid⟩
    | cons client clients =>
      refine (deliverToClients_ensures ho).bind fun _ o' hgrown hin => ?_
      have hrest := hgrown.ensures (ih hgrown.tracked hmsg')
      refine ⟨hrest.keeps,fun a ha => ?_⟩
      rintro ⟨x,hx,found,hfound,hid⟩
      rcases List.mem_cons.mp hx with rfl | hx
      · rw [hclients] at hfound
        exact (hrest.post a ha).2.kept _ (hin ⟨found,hfound,hid⟩)
      · exact (hrest.post a ha).1 ⟨x,hx,found,hfound,hid⟩

theorem deliveryMsg_ensures (mode : Aes.BlockMode) (times : DeliveryTimes)
    (subscriberSeqMap : List (Bytes × UInt32)) {subscribers : List Bytes}
    (ho : o.retryQueue.Tracked) (hmsg : msg.toClientID = 0 ∨
      ∀ subscriber ∈ subscribers, getRecvClients ends msg subscriber ≠ []) :
    (deliveryMsg mode times ends msg subscriberSeqMap subscribers).Ensures o
      (Outlets.Grown o) fun _ o' => Reaches ends msg subscribers → o'.InFlight msg.retryKey := by
  refine (deliverToSubscribers_ensures ho hmsg).bind fun offline o' hgrown hin => ?_
  split
  · exact .pure hgrown hin
  · exact ⟨⟨hgrown.tracked,hgrown.kept,hgrown.written⟩,fun _ _ => hin⟩

structure Dropped (k : Bytes) (o o' : Outlets) : Prop where
  tracked : o'.retryQueue.Tracked
  kept : ∀ k', k' ≠ k → o.InFlight k' → o'.InFlight k'
  written : o'.written = o.written

theorem finishInFlight_dropped (ho : o.retryQueue.Tracked) (clientID messageID : Int64) :
    ∃ o', finishInFlight clientID messageID o = (.ok (),o') ∧
      Dropped (RetryQueue.inFlightKey messageID clientID) o o' := by
  rw [finishInFlight]
  rcases ho.finish clientID messageID with ⟨hmissing,-⟩ | ⟨q,hfinish,htracked,-,-,hin⟩
  · rw [hmissing]
    exact ⟨o,rfl,ho,fun _ _ hk => hk,rfl⟩
  · rw [hfinish]
    exact ⟨_,rfl,htracked,fun k hne hk => (hin k).mpr ⟨hk,hne⟩,rfl⟩

theorem deliveryMsg_dropped (mode : Aes.BlockMode) (times : DeliveryTimes)
    (subscriberSeqMap : List (Bytes × UInt32)) (ho : o.retryQueue.Tracked)
    (hmsg : msg.toClientID ≠ 0) (hnone : getRecvClients ends msg subscriber = []) :
    ∃ o', deliveryMsg mode times ends msg subscriberSeqMap [subscriber] o = (.ok (),o') ∧
      Dropped msg.retryKey o o' := by
  obtain ⟨o',hfinish,hd⟩ := finishInFlight_dropped ho msg.toClientID msg.recvPacket.messageID
  have hsubscribers : deliverToSubscribers mode times ends msg subscriberSeqMap [subscriber] o =
      (.ok (if subscriber = msg.recvPacket.fromUID then [] else [subscriber]),o') := by
    rw [deliverToSubscribers,hnone]
    simp only [if_pos hmsg]
    rw [Exec.bind_of_ok hfinish]
    rfl
  rw [deliveryMsg,Exec.bind_of_ok hsubscribers]
  split
  · exact ⟨o',rfl,hd⟩
  · exact ⟨_,rfl,hd.tracked,hd.kept,hd.written⟩

end DeliveryMsg

namespace Delivering

def Retries (d : Delivery) (k : Bytes) : Prop :=
  d.message.retryKey = k ∧ d.subscribers = [d.message.toUID]

def Owed (s : Delivering) (k : Bytes) : Prop :=
  s.outlets.InFlight k ∨ ∃ d ∈ s.pool, Retries d k

def Missed (s : Delivering) (e : DeliveringEvent) (k : Bytes) : Prop :=
  ∃ index times d, e = .deliver index times ∧ s.pool[index]? = some d ∧ Retries d k ∧
    ∀ client ∈ getRecvClients s.endpoints d.message d.message.toUID,
      client.getID ≠ d.message.toClientID

def Acked (e : DeliveringEvent) (k : Bytes) : Prop :=
  ∃ clientID messageID, e = .recvack clientID messageID ∧
    RetryQueue.inFlightKey messageID clientID = k

def Overflowed (mode : Aes.BlockMode) (poolSize : Nat) (s : Delivering) (e : DeliveringEvent) :
    Prop :=
  ∃ t s', e = .process t ∧ s.step mode poolSize e = .ok s' ∧ poolSize ≤ s'.pool.length

section PoolSubmit

variable {poolSize : Nat} {pool : List Delivery} {d x : Delivery}

theorem mem_poolSubmit (h : x ∈ poolSubmit poolSize pool d) : x ∈ pool ∨ x = d := by
  rw [poolSubmit] at h
  split at h
  · simpa using h
  · exact Or.inl h

theorem poolSubmit_keeps (h : x ∈ pool) : x ∈ poolSubmit poolSize pool d := by
  rw [poolSubmit]
  split
  · exact List.mem_append_left _ h
  · exact h

theorem poolSubmit_of_room (h : pool.length < poolSize) :
    poolSubmit poolSize pool d = pool ++ [d] := if_pos h

theorem mem_poolSubmit_or_full : d ∈ poolSubmit poolSize pool d ∨ poolSize ≤ pool.length := by
  by_cases h : pool.length < poolSize
  · simp [poolSubmit_of_room h]
  · exact Or.inr (Nat.not_lt.mp h)

theorem length_poolSubmit : pool.length ≤ (poolSubmit poolSize pool d).length := by
  rw [poolSubmit]
  split
  · simp
  · exact Nat.le_refl _

theorem mem_poolSubmits {tasks : List Delivery}
    (h : x ∈ tasks.foldl (poolSubmit poolSize) pool) : x ∈ pool ∨ x ∈ tasks := by
  induction tasks generalizing pool with
  | nil => exact Or.inl h
  | cons d tasks ih =>
    rcases ih h with hpool | htasks
    · rcases mem_poolSubmit hpool with hold | rfl
      · exact Or.inl hold
      · exact Or.inr List.mem_cons_self
    · exact Or.inr (List.mem_cons_of_mem _ htasks)

theorem poolSubmits_keep {tasks : List Delivery} (h : x ∈ pool) :
    x ∈ tasks.foldl (poolSubmit poolSize) pool := by
  induction tasks generalizing pool with
  | nil => exact h
  | cons d tasks ih => exact ih (poolSubmit_keeps h)

theorem length_poolSubmits {tasks : List Delivery} :
    pool.length ≤ (tasks.foldl (poolSubmit poolSize) pool).length := by
  induction tasks generalizing pool with
  | nil => exact Nat.le_refl _
  | cons d tasks ih => exact Nat.le_trans length_poolSubmit ih

theorem mem_poolSubmits_or_full {tasks : List Delivery} (h : x ∈ tasks) :
    x ∈ tasks.foldl (poolSubmit poolSize) pool ∨
      poolSize ≤ (tasks.foldl (poolSubmit poolSize) pool).length := by
  induction tasks generalizing pool with
  | nil => exact absurd h List.not_mem_nil
  | cons d tasks ih =>
    rcases List.mem_cons.mp h with rfl | hrest
    · have hsubmitted : x ∈ poolSubmit poolSize pool x ∨ poolSize ≤ pool.length :=
        mem_poolSubmit_or_full
      rcases hsubmitted with hin | hfull
      · have hkept : x ∈ tasks.foldl (poolSubmit poolSize) (poolSubmit poolSize pool x) :=
          poolSubmits_keep hin
        exact Or.inl hkept
      · exact Or.inr (Nat.le_trans hfull (Nat.le_trans length_poolSubmit length_poolSubmits))
    · exact ih hrest

end PoolSubmit

structure Inv (s : Delivering) : Prop where
  tracked : s.outlets.retryQueue.Tracked
  pool : ∀ d ∈ s.pool, d.message.toClientID = 0 ∨ d.subscribers = [d.message.toUID]

def Excused (mode : Aes.BlockMode) (poolSize : Nat) (s : Delivering) (e : DeliveringEvent)
    (k : Bytes) : Prop :=
  Acked e k ∨ s.Missed e k ∨ s.Overflowed mode poolSize e

structure Progress (mode : Aes.BlockMode) (poolSize : Nat) (s : Delivering) (e : DeliveringEvent)
    (s' : Delivering) : Prop where
  inv : Inv s'
  owed : ∀ k, s.Owed k → s'.Owed k ∨ s.Excused mode poolSize e k
  written : ∃ new, s'.outlets.written = s.outlets.written ++ new ∧ ∀ w ∈ new, s'.Owed w.retryKey

variable {mode : Aes.BlockMode} {poolSize : Nat} {s s' : Delivering}

theorem inv_initial : Inv initial :=
  ⟨RetryQueue.tracked_new,fun _ hd => absurd hd List.not_mem_nil⟩

theorem Progress.of_outlets (h : Inv s) {e : DeliveringEvent} {ends : Endpoints}
    {pool : List Delivery}
    (hpool : ∀ d ∈ pool, d.message.toClientID = 0 ∨ d.subscribers = [d.message.toUID])
    (hkept : ∀ d ∈ s.pool, d ∈ pool) : Progress mode poolSize s e ⟨ends,s.outlets,pool⟩ := by
  refine ⟨⟨h.tracked,hpool⟩,fun k hk => Or.inl ?_,[],(List.append_nil _).symm,fun _ hw =>
    absurd hw List.not_mem_nil⟩
  rcases hk with hk | ⟨d,hd,hr⟩
  · exact Or.inl hk
  · exact Or.inr ⟨d,hkept d hd,hr⟩

theorem mem_eraseIdx {pool : List Delivery} {index : Nat} {d x : Delivery}
    (hd : pool[index]? = some d) (hx : x ∈ pool) : x = d ∨ x ∈ pool.eraseIdx index := by
  obtain ⟨i,hi⟩ := List.mem_iff_getElem?.mp hx
  rcases eq_or_ne i index with rfl | hne
  · exact Or.inl (Option.some.inj (hi.symm.trans hd))
  · exact Or.inr (List.mem_eraseIdx_iff_getElem?.mpr ⟨i,hne,hi⟩)

theorem settle_eq_ok {pool : List Delivery} {r : Outcome Unit × Outlets}
    (h : s.settle pool r = .ok s') : r.1 = .ok () ∧ s' = ⟨s.endpoints,r.2,pool⟩ := by
  rcases r with ⟨r,o⟩
  cases r with
  | ok u => exact ⟨rfl,(Outcome.ok.inj h).symm⟩
  | error e => cases h
  | panic e => cases h

theorem progress_delivered (h : Inv s) {index : Nat} {times : DeliveryTimes} {d : Delivery}
    (hd : s.pool[index]? = some d) {o' : Outlets} (hg : Outlets.Grown s.outlets o')
    (hreach : Reaches s.endpoints d.message d.subscribers → o'.InFlight d.message.retryKey) :
    Progress mode poolSize s (.deliver index times) ⟨s.endpoints,o',s.pool.eraseIdx index⟩ := by
  refine ⟨⟨hg.tracked,fun x hx => h.pool x (List.mem_of_mem_eraseIdx hx)⟩,fun k hk => ?_,?_⟩
  · rcases hk with hk | ⟨x,hx,hr⟩
    · exact Or.inl (Or.inl (hg.kept k hk))
    · rcases mem_eraseIdx hd hx with rfl | hx
      · by_cases hreaches : Reaches s.endpoints x.message x.subscribers
        · exact Or.inl (Or.inl (hr.1 ▸ hreach hreaches))
        · refine Or.inr (Or.inr (Or.inl ⟨index,times,x,rfl,hd,hr,fun client hclient hid =>
            hreaches ?_⟩))
          rw [hr.2]
          exact ⟨_,List.mem_singleton_self _,client,hclient,hid⟩
      · exact Or.inl (Or.inr ⟨x,hx,hr⟩)
  · obtain ⟨new,hnew,hin⟩ := hg.written
    exact ⟨new,hnew,fun w hw => Or.inl (hin w hw)⟩

theorem progress_dropped (h : Inv s) {index : Nat} {times : DeliveryTimes} {d : Delivery}
    (hd : s.pool[index]? = some d) (hsubscribers : d.subscribers = [d.message.toUID])
    (hnone : getRecvClients s.endpoints d.message d.message.toUID = []) {o' : Outlets}
    (hdrop : Dropped d.message.retryKey s.outlets o') :
    Progress mode poolSize s (.deliver index times) ⟨s.endpoints,o',s.pool.eraseIdx index⟩ := by
  have hmissed (k : Bytes) (hk : d.message.retryKey = k) : s.Missed (.deliver index times) k := by
    refine ⟨index,times,d,rfl,hd,⟨hk,hsubscribers⟩,fun client hclient => ?_⟩
    rw [hnone] at hclient
    exact absurd hclient List.not_mem_nil
  refine ⟨⟨hdrop.tracked,fun x hx => h.pool x (List.mem_of_mem_eraseIdx hx)⟩,fun k hk => ?_,[],
    hdrop.written.trans (List.append_nil _).symm,fun _ hw => absurd hw List.not_mem_nil⟩
  rcases hk with hk | ⟨x,hx,hr⟩
  · rcases eq_or_ne k d.message.retryKey with rfl | hne
    · exact Or.inr (Or.inr (Or.inl (hmissed _ rfl)))
    · exact Or.inl (Or.inl (hdrop.kept k hne hk))
  · rcases mem_eraseIdx hd hx with rfl | hx
    · exact Or.inr (Or.inr (Or.inl (hmissed k hr.1)))
    · exact Or.inl (Or.inr ⟨x,hx,hr⟩)

theorem progress_deliver (h : Inv s) {index : Nat} {times : DeliveryTimes}
    (hstep : s.step mode poolSize (.deliver index times) = .ok s') :
    Progress mode poolSize s (.deliver index times) s' := by
  rw [step] at hstep
  cases hd : s.pool[index]? with
  | none =>
    rw [hd] at hstep
    obtain rfl := Outcome.ok.inj hstep
    exact .of_outlets h h.pool fun _ hx => hx
  | some d =>
    rw [hd] at hstep
    obtain ⟨hok,rfl⟩ := settle_eq_ok hstep
    by_cases hmsg : d.message.toClientID = 0 ∨
        ∀ subscriber ∈ d.subscribers, getRecvClients s.endpoints d.message subscriber ≠ []
    · have hensures := deliveryMsg_ensures mode times d.subscriberSeqMap h.tracked hmsg
      exact progress_delivered h hd hensures.keeps (hensures.post () hok)
    · obtain ⟨hne,hclients⟩ := not_or.mp hmsg
      have hsubscribers := (h.pool d (List.mem_of_getElem? hd)).resolve_left hne
      have hnone : getRecvClients s.endpoints d.message d.message.toUID = [] := by
        by_contra hsome
        refine hclients fun x hx => ?_
        rw [hsubscribers] at hx
        rwa [List.mem_singleton.mp hx]
      obtain ⟨o',hrun,hdrop⟩ :=
        deliveryMsg_dropped mode times d.subscriberSeqMap h.tracked hne hnone
      rw [← hsubscribers] at hrun
      rw [hrun]
      exact progress_dropped h hd hsubscribers hnone hdrop

theorem progress_process (h : Inv s) {t : Int64}
    (hstep : s.step mode poolSize (.process t) = .ok s') :
    Progress mode poolSize s (.process t) s' := by
  obtain ⟨handed,q,hprocess,hd⟩ := h.tracked.processInFlightQueue t
  have hok := hstep
  rw [step,hprocess] at hstep
  obtain rfl := Outcome.ok.inj hstep
  have hretries (r : Redelivery) (hr : r ∈ handed) :
      Retries r.delivery (s.outlets.retryQueue.key r.msg) := by
    rw [(hd.delivery r hr).1]
    exact ⟨rfl,rfl⟩
  refine ⟨⟨hd.tracked,fun d hmem => ?_⟩,fun k hk => ?_,[],(List.append_nil _).symm,
    fun _ hw => absurd hw List.not_mem_nil⟩
  · rcases mem_poolSubmits hmem with hmem | hmem
    · exact h.pool d hmem
    · obtain ⟨r,hr,rfl⟩ := List.mem_map.mp hmem
      exact Or.inr (hretries r hr).2
  · rcases hk with hk | ⟨d,hmem,hr⟩
    · rcases hd.kept k hk with hk | ⟨r,hr,rfl⟩
      · exact Or.inl (Or.inl hk)
      · have htask : r.delivery ∈ handed.map Redelivery.delivery := List.mem_map_of_mem hr
        rcases mem_poolSubmits_or_full htask with hmem | hfull
        · exact Or.inl (Or.inr ⟨_,hmem,hretries r hr⟩)
        · exact Or.inr (Or.inr (Or.inr ⟨t,_,rfl,hok,hfull⟩))
    · exact Or.inl (Or.inr ⟨d,poolSubmits_keep hmem,hr⟩)

theorem progress_recvack (h : Inv s) {clientID messageID : Int64}
    (hstep : s.step mode poolSize (.recvack clientID messageID) = .ok s') :
    Progress mode poolSize s (.recvack clientID messageID) s' := by
  obtain ⟨o',hfinish,hd⟩ := finishInFlight_dropped h.tracked clientID messageID
  rw [step,hfinish] at hstep
  obtain rfl := Outcome.ok.inj hstep
  refine ⟨⟨hd.tracked,h.pool⟩,fun k hk => ?_,[],hd.written.trans (List.append_nil _).symm,
    fun _ hw => absurd hw List.not_mem_nil⟩
  rcases eq_or_ne (RetryQueue.inFlightKey messageID clientID) k with heq | hne
  · exact Or.inr (Or.inl ⟨clientID,messageID,rfl,heq⟩)
  · exact Or.inl (hk.imp_left (hd.kept k hne.symm))

theorem progress (h : Inv s) {e : DeliveringEvent} (hstep : s.step mode poolSize e = .ok s') :
    Progress mode poolSize s e s' := by
  cases e with
  | endpoints ends =>
    obtain rfl := Outcome.ok.inj hstep
    exact .of_outlets h h.pool fun _ hd => hd
  | submit p flag named seqMap subscribers =>
    obtain rfl := Outcome.ok.inj hstep
    refine .of_outlets h (fun d hd => ?_) fun d hd => poolSubmit_keeps hd
    rcases mem_poolSubmit hd with hd | rfl
    · exact h.pool d hd
    · exact Or.inl rfl
  | deliver index times => exact progress_deliver h hstep
  | recvack clientID messageID => exact progress_recvack h hstep
  | process t => exact progress_process h hstep

theorem inv_of_run {events : List DeliveringEvent} (hs : Inv s)
    (hrun : Run.run (step mode poolSize) s events = .ok s') : Inv s' :=
  Run.run_keeps (fun _ _ _ h hstep => (progress h hstep).inv) hs hrun

theorem recv_tracked_until_acked (mode : Aes.BlockMode) (poolSize : Nat)
    (before after : List DeliveringEvent) (e : DeliveringEvent) {s s' s'' : Delivering}
    (hbefore : Run.run (step mode poolSize) initial before = .ok s)
    (hstep : s.step mode poolSize e = .ok s')
    (hafter : Run.run (step mode poolSize) s' after = .ok s'') {w : WrittenRecv}
    (hw : w ∈ s'.outlets.written.drop s.outlets.written.length) :
    s''.Owed w.retryKey ∨
      Run.Happens (step mode poolSize) (fun t a => t.Excused mode poolSize a w.retryKey) s'
        after := by
  have hprogress := progress (inv_of_run inv_initial hbefore) hstep
  obtain ⟨new,hnew,howed⟩ := hprogress.written
  rw [hnew,List.drop_left] at hw
  refine Run.holds_unless (P := fun t => t.Owed w.retryKey) (fun t a t' ht hta => ?_) hprogress.inv
    (howed w hw) hafter
  have hnext := progress ht hta
  exact ⟨hnext.inv,hnext.owed w.retryKey⟩

def plainDevice : Client := ⟨7,[0x62],0,0,[],[]⟩

def plainEndpoints : Endpoints := ⟨ClientManager.empty.add plainDevice,fun _ => 2⟩

def helloRecv : RecvPacket := ⟨{},{},[],5,1,[],0,[0x61],[0x67],2,[0x68]⟩

def helloWritten : WrittenRecv := ⟨plainDevice,2,helloRecv⟩

def helloPending : Delivering :=
  ⟨plainEndpoints,⟨.new,[],[]⟩,[⟨freshMessage helloRecv 0 [],[],[[0x62]]⟩]⟩

theorem hello_delivered : ∃ q, helloPending.step Aes.cbc 1 (.deliver 0 ⟨5,fun _ => 0⟩) =
    .ok ⟨plainEndpoints,⟨q,[helloWritten],[]⟩,[]⟩ := by
  obtain ⟨q,hstart,-⟩ := RetryQueue.tracked_new.start 5 0
    ⟨addressed (freshMessage helloRecv 0 []) [] [0x62] plainDevice,0,0⟩
  refine ⟨q,?_⟩
  have hclient : deliverToClient Aes.cbc ⟨5,fun _ => 0⟩ plainEndpoints
      (freshMessage helloRecv 0 []) [] [0x62] plainDevice ⟨.new,[],[]⟩ =
        (.ok (),⟨q,[helloWritten],[]⟩) :=
    Exec.bind_of_ok (startInFlight_of_ok hstart)
  have hclients : deliverToClients Aes.cbc ⟨5,fun _ => 0⟩ plainEndpoints
      (freshMessage helloRecv 0 []) [] [0x62] [plainDevice] ⟨.new,[],[]⟩ =
        (.ok (),⟨q,[helloWritten],[]⟩) :=
    Exec.bind_of_ok hclient
  have hsubscribers : deliverToSubscribers Aes.cbc ⟨5,fun _ => 0⟩ plainEndpoints
      (freshMessage helloRecv 0 []) [] [[0x62]] ⟨.new,[],[]⟩ = (.ok [],⟨q,[helloWritten],[]⟩) :=
    Exec.bind_of_ok hclients
  have hmsg : deliveryMsg Aes.cbc ⟨5,fun _ => 0⟩ plainEndpoints (freshMessage helloRecv 0 []) []
      [[0x62]] ⟨.new,[],[]⟩ = (.ok (),⟨q,[helloWritten],[]⟩) := Exec.bind_of_ok hsubscribers
  exact congrArg (settle helloPending []) hmsg

theorem hello_tracked_until_acked : ∃ q : RetryQueue, ∃ s'',
    Run.run (step Aes.cbc 1) ⟨plainEndpoints,⟨q,[helloWritten],[]⟩,[]⟩
        [.endpoints ⟨.empty,fun _ => 0⟩] = .ok s'' ∧
      (s''.Owed helloWritten.retryKey ∨ Run.Happens (step Aes.cbc 1)
        (fun t a => t.Excused Aes.cbc 1 a helloWritten.retryKey)
        ⟨plainEndpoints,⟨q,[helloWritten],[]⟩,[]⟩ [.endpoints ⟨.empty,fun _ => 0⟩]) := by
  obtain ⟨q,hstep⟩ := hello_delivered
  exact ⟨q,_,rfl,recv_tracked_until_acked Aes.cbc 1
    [.endpoints plainEndpoints,.submit helloRecv 0 [] [] [[0x62]]] _ (.deliver 0 ⟨5,fun _ => 0⟩) rfl
    hstep rfl (List.mem_singleton_self helloWritten)⟩

end Delivering

end LiMaoIM.Lim

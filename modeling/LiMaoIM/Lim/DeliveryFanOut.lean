import LiMaoIM.Lim.DeliveryOrigin

namespace LiMaoIM.Lim

open Outcome Proto

def Sealable (client : Client) (version : UInt8) : Prop :=
  2 < version → Util.KeySize client.aesKey ∧ client.aesIV.length = Aes.blockSize

theorem sealRecv_of_sealable {client : Client} {version : UInt8} (h : Sealable client version)
    (p : RecvPacket) : ∃ packet, sealRecv Aes.cbc client version p = .ok packet := by
  rw [sealRecv]
  split
  · rename_i hversion
    obtain ⟨hkey,hiv⟩ := h hversion
    rw [encryptRecv,Util.encrypt_ok hkey hiv,ok_bind]
    simp only
    rw [Util.encrypt_ok hkey hiv,ok_bind]
    exact ⟨_,rfl⟩
  · exact ⟨p,rfl⟩

structure Outlets.Extends (o o' : Outlets) : Prop where
  written : o.written ⊆ o'.written
  offline : o.offline ⊆ o'.offline

theorem Outlets.Extends.refl (o : Outlets) : Outlets.Extends o o :=
  ⟨List.Subset.refl _,List.Subset.refl _⟩

theorem Outlets.Extends.trans {o₁ o₂ o₃ : Outlets} (h : Outlets.Extends o₁ o₂)
    (h' : Outlets.Extends o₂ o₃) : Outlets.Extends o₁ o₃ :=
  ⟨fun _ hw => h'.written (h.written hw),fun _ hx => h'.offline (h.offline hx)⟩

theorem Outlets.Extends.ensures {α : Type} {o o' : Outlets} {x : Exec Outlets α}
    {Q : α → Outlets → Prop} (h : Outlets.Extends o o')
    (hx : x.Ensures o' (Outlets.Extends o') Q) :
    x.Ensures o' (Outlets.Extends o) fun a o'' => Q a o'' ∧ Outlets.Extends o' o'' :=
  ⟨h.trans hx.keeps,fun a ha => ⟨hx.post a ha,hx.keeps⟩⟩

structure Wrote (ends : Endpoints) (client : Client) (p : RecvPacket) (w : WrittenRecv) :
    Prop where
  device : w.client = client
  version : w.version = ends.version client.conn
  header : SameHeader p w.packet
  opens : Opens client w.version w.packet p.payload

section DeliveryMsg

variable {times : DeliveryTimes} {ends : Endpoints} {msg : Message}
  {subscriberSeqMap : List (Bytes × UInt32)} {subscriber : Bytes} {o o' : Outlets}

def sentTo (msg : Message) (subscriberSeqMap : List (Bytes × UInt32)) (subscriber : Bytes)
    (client : Client) : RecvPacket :=
  recvPacketOf (addressed msg subscriberSeqMap subscriber client)
    (deliveredChannelID msg subscriber)

def Served (ends : Endpoints) (msg : Message) (subscriberSeqMap : List (Bytes × UInt32))
    (subscriber : Bytes) (clients : List Client) (o : Outlets) : Prop :=
  ∀ client ∈ clients, Sealable client (ends.version client.conn) →
    ∃ w ∈ o.written, Wrote ends client (sentTo msg subscriberSeqMap subscriber client) w

theorem Served.mono {clients : List Client}
    (h : Served ends msg subscriberSeqMap subscriber clients o) (he : Outlets.Extends o o') :
    Served ends msg subscriberSeqMap subscriber clients o' := by
  intro client hclient hsealable
  obtain ⟨w,hw,hwrote⟩ := h client hclient hsealable
  exact ⟨w,he.written hw,hwrote⟩

theorem startInFlight_extends (newMsg : Message) :
    (startInFlight times newMsg).Ensures o (Outlets.Extends o) fun _ _ => True := by
  refine ⟨?_,fun _ _ => trivial⟩
  rw [startInFlight]
  split
  · exact ⟨List.Subset.refl _,List.Subset.refl _⟩
  · exact .refl o
  · exact .refl o

theorem writeRecv_extends (ends : Endpoints) (client : Client) (p : RecvPacket) :
    (writeRecv Aes.cbc ends client p).Ensures o (Outlets.Extends o) fun _ o' =>
      Sealable client (ends.version client.conn) → ∃ w ∈ o'.written, Wrote ends client p w := by
  rw [writeRecv]
  cases hseal : sealRecv Aes.cbc client (ends.version client.conn) p with
  | ok packet =>
    obtain ⟨hheader,hopens⟩ := sealRecv_opens hseal
    refine ⟨⟨List.subset_append_left _ _,List.Subset.refl _⟩,fun _ _ _ => ?_⟩
    exact ⟨_,List.mem_append_right _ (List.mem_singleton_self _),rfl,rfl,hheader,hopens⟩
  | error e =>
    refine .pure (.refl o) fun hsealable => ?_
    obtain ⟨packet,hok⟩ := sealRecv_of_sealable hsealable p
    cases hseal.symm.trans hok
  | panic e => exact .lift (.refl o) fun _ he => by cases he

theorem finishInFlight_extends (clientID messageID : Int64) :
    (finishInFlight clientID messageID).Ensures o (Outlets.Extends o) fun _ _ => True := by
  refine ⟨?_,fun _ _ => trivial⟩
  rw [finishInFlight]
  split
  · exact ⟨List.Subset.refl _,List.Subset.refl _⟩
  · exact .refl o
  · exact .refl o

theorem deliverToClient_extends (client : Client) :
    (deliverToClient Aes.cbc times ends msg subscriberSeqMap subscriber client).Ensures o
      (Outlets.Extends o) fun _ o' => msg.toClientID = 0 →
        Served ends msg subscriberSeqMap subscriber [client] o' := by
  rw [deliverToClient]
  split
  · rename_i hother
    exact .pure (.refl o) fun hfresh => absurd hfresh hother.1
  · refine (startInFlight_extends _).bind fun _ o' hext _ => ?_
    have hwrite := hext.ensures (writeRecv_extends ends client
      (sentTo msg subscriberSeqMap subscriber client))
    refine ⟨hwrite.keeps,fun a ha _ x hx => ?_⟩
    obtain rfl := List.mem_singleton.mp hx
    exact (hwrite.post a ha).1

theorem deliverToClients_extends (clients : List Client) :
    (deliverToClients Aes.cbc times ends msg subscriberSeqMap subscriber clients).Ensures o
      (Outlets.Extends o) fun _ o' => msg.toClientID = 0 →
        Served ends msg subscriberSeqMap subscriber clients o' := by
  induction clients generalizing o with
  | nil => exact .pure (.refl o) fun _ _ hx => absurd hx List.not_mem_nil
  | cons client clients ih =>
    refine (deliverToClient_extends client).bind fun _ o' hext hserved => ?_
    have hrest := hext.ensures (ih (o := o'))
    refine ⟨hrest.keeps,fun a ha hfresh x hx => ?_⟩
    rcases List.mem_cons.mp hx with rfl | hx
    · exact ((hserved hfresh).mono (hrest.post a ha).2) x (List.mem_singleton_self x)
    · exact (hrest.post a ha).1 hfresh x hx

structure Covered (ends : Endpoints) (msg : Message) (subscriberSeqMap : List (Bytes × UInt32))
    (subscribers offline : List Bytes) (o : Outlets) : Prop where
  served : ∀ subscriber ∈ subscribers, Served ends msg subscriberSeqMap subscriber
    (getRecvClients ends msg subscriber) o
  missing : ∀ subscriber ∈ subscribers, getRecvClients ends msg subscriber = [] →
    subscriber ≠ msg.recvPacket.fromUID → subscriber ∈ offline

theorem Covered.absent {subscribers offline : List Bytes}
    (h : Covered ends msg subscriberSeqMap subscribers offline o)
    (hnone : getRecvClients ends msg subscriber = []) :
    Covered ends msg subscriberSeqMap (subscriber :: subscribers)
      (if subscriber = msg.recvPacket.fromUID then offline else subscriber :: offline) o := by
  refine ⟨fun x hx => ?_,fun x hx hempty hother => ?_⟩
  · rcases List.mem_cons.mp hx with rfl | hx
    · rw [hnone]
      exact fun _ hmem => absurd hmem List.not_mem_nil
    · exact h.served x hx
  · rcases List.mem_cons.mp hx with rfl | hx
    · rw [if_neg hother]
      exact List.mem_cons_self
    · have hmem := h.missing x hx hempty hother
      split
      · exact hmem
      · exact List.mem_cons_of_mem _ hmem

theorem deliverToSubscribers_extends (subscribers : List Bytes) :
    (deliverToSubscribers Aes.cbc times ends msg subscriberSeqMap subscribers).Ensures o
      (Outlets.Extends o) fun offline o' => msg.toClientID = 0 →
        Covered ends msg subscriberSeqMap subscribers offline o' := by
  induction subscribers generalizing o with
  | nil => exact .pure (.refl o) fun _ => ⟨fun _ hx => absurd hx List.not_mem_nil,fun _ hx =>
      absurd hx List.not_mem_nil⟩
  | cons subscriber subscribers ih =>
    rw [deliverToSubscribers]
    cases hclients : getRecvClients ends msg subscriber with
    | nil =>
      have hrest {o' : Outlets} (hext : Outlets.Extends o o') :
          (deliverToSubscribers Aes.cbc times ends msg subscriberSeqMap subscribers >>=
            fun offline => pure (if subscriber = msg.recvPacket.fromUID then offline
              else subscriber :: offline)).Ensures o' (Outlets.Extends o) fun offline o'' =>
                msg.toClientID = 0 →
                  Covered ends msg subscriberSeqMap (subscriber :: subscribers) offline o'' :=
        (hext.ensures (ih (o := o'))).bind fun offline o'' hgrown hcovered =>
          .pure hgrown fun hfresh => (hcovered.1 hfresh).absent hclients
      simp only
      split
      · exact (finishInFlight_extends _ _).bind fun _ _ hext _ => hrest hext
      · exact hrest (.refl o)
    | cons client clients =>
      refine (deliverToClients_extends (client :: clients)).bind fun _ o' hext hserved => ?_
      have hrest := hext.ensures (ih (o := o'))
      refine ⟨hrest.keeps,fun a ha hfresh => ⟨fun x hx => ?_,fun x hx hnone hother => ?_⟩⟩
      · rcases List.mem_cons.mp hx with rfl | hx
        · rw [hclients]
          exact (hserved hfresh).mono (hrest.post a ha).2
        · exact ((hrest.post a ha).1 hfresh).served x hx
      · rcases List.mem_cons.mp hx with rfl | hx
        · cases hclients.symm.trans hnone
        · exact ((hrest.post a ha).1 hfresh).missing x hx hnone hother

structure Reached (ends : Endpoints) (msg : Message) (subscriberSeqMap : List (Bytes × UInt32))
    (subscribers : List Bytes) (o : Outlets) : Prop where
  served : ∀ subscriber ∈ subscribers, Served ends msg subscriberSeqMap subscriber
    (getRecvClients ends msg subscriber) o
  reported : ∀ subscriber ∈ subscribers, getRecvClients ends msg subscriber = [] →
    subscriber ≠ msg.recvPacket.fromUID →
      ∃ x ∈ o.offline, x.message = msg.recvPacket ∧ subscriber ∈ x.toUIDs

theorem Reached.mono {subscribers : List Bytes}
    (h : Reached ends msg subscriberSeqMap subscribers o) (he : Outlets.Extends o o') :
    Reached ends msg subscriberSeqMap subscribers o' := by
  refine ⟨fun x hx => (h.served x hx).mono he,fun x hx hnone hother => ?_⟩
  obtain ⟨y,hy,hreported⟩ := h.reported x hx hnone hother
  exact ⟨y,he.offline hy,hreported⟩

theorem deliveryMsg_reaches (subscribers : List Bytes) :
    (deliveryMsg Aes.cbc times ends msg subscriberSeqMap subscribers).Ensures o
      (Outlets.Extends o) fun _ o' => msg.toClientID = 0 →
        Reached ends msg subscriberSeqMap subscribers o' := by
  refine (deliverToSubscribers_extends subscribers).bind fun offline o' hext hcovered => ?_
  split
  · rename_i hempty
    subst hempty
    exact .pure hext fun hfresh => ⟨(hcovered hfresh).served,fun x hx hnone hother =>
      absurd ((hcovered hfresh).missing x hx hnone hother) List.not_mem_nil⟩
  · have hgrown : Outlets.Extends o'
        { o' with offline := o'.offline ++ [⟨msg.recvPacket,offline⟩] } :=
      ⟨List.Subset.refl _,List.subset_append_left _ _⟩
    refine ⟨hext.trans hgrown,fun _ _ hfresh => ⟨fun x hx => ?_,fun x hx hnone hother => ?_⟩⟩
    · exact ((hcovered hfresh).served x hx).mono hgrown
    · exact ⟨_,List.mem_append_right _ (List.mem_singleton_self _),rfl,
        (hcovered hfresh).missing x hx hnone hother⟩

end DeliveryMsg

structure FannedOut (sub : Submission) (ends : Endpoints) (o : Outlets) : Prop where
  devices : ∀ subscriber ∈ sub.subscribers,
    ∀ client ∈ ends.clientManager.getClientsWithUID subscriber,
      ¬ (client.uid = sub.packet.fromUID ∧ client.deviceFlag = sub.fromDeviceFlag) →
        Sealable client (ends.version client.conn) →
          ∃ w ∈ o.written, w.client = client ∧ SentTo sub subscriber ends w
  offline : ∀ subscriber ∈ sub.subscribers, subscriber ≠ sub.packet.fromUID →
    (∀ client ∈ ends.clientManager.getClientsWithUID subscriber,
      client.uid = sub.packet.fromUID ∧ client.deviceFlag = sub.fromDeviceFlag) →
        ∃ x ∈ o.offline, x.message = sub.packet ∧ subscriber ∈ x.toUIDs

theorem Reached.fannedOut {sub : Submission} {ends : Endpoints} {o : Outlets}
    (h : Reached ends sub.message sub.subscriberSeqMap sub.subscribers o) :
    FannedOut sub ends o := by
  refine ⟨fun subscriber hs client hclient hother hsealable => ?_,
    fun subscriber hs hne hself => h.reported subscriber hs ?_ hne⟩
  · have hself : ¬ clientIsSelf client sub.message = true :=
      fun heq => hother (decide_eq_true_iff.mp heq)
    have hrecv : client ∈ getRecvClients ends sub.message subscriber :=
      List.mem_filter.mpr ⟨hclient,decide_eq_true hself⟩
    obtain ⟨w,hw,hwrote⟩ := h.served subscriber hs client hrecv hsealable
    obtain ⟨rfl,hversion,hheader,hopens⟩ := hwrote
    exact ⟨w,hw,rfl,hclient,hversion,hother,hheader,hopens⟩
  · refine List.filter_eq_nil_iff.mpr fun client hclient => ?_
    have hmine : clientIsSelf client sub.message = true :=
      decide_eq_true_iff.mpr (hself client hclient)
    simp [hmine]

theorem FannedOut.mono {sub : Submission} {ends : Endpoints} {o o' : Outlets}
    (h : FannedOut sub ends o)
    (he : Outlets.Extends o o') : FannedOut sub ends o' := by
  refine ⟨fun u hu client hclient hother hsealable => ?_,fun u hu hne hself => ?_⟩
  · obtain ⟨w,hw,hsent⟩ := h.devices u hu client hclient hother hsealable
    exact ⟨w,he.written hw,hsent⟩
  · obtain ⟨x,hx,hreported⟩ := h.offline u hu hne hself
    exact ⟨x,he.offline hx,hreported⟩

namespace Delivering

def Taken (sub : Submission) (o : Outlets) (t : Delivering) (a : DeliveringEvent) : Prop :=
  ∃ index times, a = .deliver index times ∧ t.pool[index]? = some sub.delivery ∧
    FannedOut sub t.endpoints o

variable {s s' : Delivering} {sub : Submission} {o o' : Outlets} {poolSize : Nat}

theorem step_extends {a : DeliveringEvent} (hs : s.step Aes.cbc poolSize a = .ok s') :
    Outlets.Extends s.outlets s'.outlets := by
  cases a with
  | endpoints ends =>
    obtain rfl := Outcome.ok.inj hs
    exact .refl _
  | submit p flag named seqMap subscribers =>
    obtain rfl := Outcome.ok.inj hs
    exact .refl _
  | deliver index times =>
    rw [step] at hs
    split at hs
    · obtain rfl := Outcome.ok.inj hs
      exact .refl _
    · rename_i d hd
      obtain ⟨-,rfl⟩ := settle_eq_ok hs
      exact (deliveryMsg_reaches d.subscribers).keeps
  | recvack clientID messageID =>
    obtain ⟨-,rfl⟩ := settle_eq_ok hs
    exact (finishInFlight_extends clientID messageID).keeps
  | process t =>
    rw [step] at hs
    split at hs
    · obtain rfl := Outcome.ok.inj hs
      exact ⟨List.Subset.refl _,List.Subset.refl _⟩
    · cases hs
    · cases hs

theorem pool_step {a : DeliveringEvent} (hmem : sub.delivery ∈ s.pool)
    (hs : s.step Aes.cbc poolSize a = .ok s') :
    sub.delivery ∈ s'.pool ∨ Taken sub s'.outlets s a := by
  cases a with
  | endpoints ends =>
    obtain rfl := Outcome.ok.inj hs
    exact Or.inl hmem
  | submit p flag named seqMap subscribers =>
    obtain rfl := Outcome.ok.inj hs
    exact Or.inl (poolSubmit_keeps hmem)
  | deliver index times =>
    rw [step] at hs
    split at hs
    · obtain rfl := Outcome.ok.inj hs
      exact Or.inl hmem
    · rename_i d hd
      obtain ⟨hok,rfl⟩ := settle_eq_ok hs
      rcases mem_eraseIdx hd hmem with rfl | hleft
      · refine Or.inr ⟨index,times,rfl,hd,?_⟩
        exact ((deliveryMsg_reaches sub.subscribers).post () hok rfl).fannedOut
      · exact Or.inl hleft
  | recvack clientID messageID =>
    obtain ⟨-,rfl⟩ := settle_eq_ok hs
    exact Or.inl hmem
  | process t =>
    rw [step] at hs
    split at hs
    · obtain rfl := Outcome.ok.inj hs
      exact Or.inl (poolSubmits_keep hmem)
    · cases hs
    · cases hs

def sealedDevice : Client :=
  ⟨8,[0x62],1,0,Bytes.ofString "0123456789abcdef",Bytes.ofString "fedcba9876543210"⟩

def twoDevices : Endpoints :=
  ⟨(ClientManager.empty.add plainDevice).add sealedDevice,fun conn => if conn = 8 then 4 else 2⟩

def groupHello : Submission := ⟨helloRecv,0,[],[],[[0x61],[0x62],[0x63]]⟩

def groupStart : Delivering := ⟨twoDevices,⟨.new,[],[]⟩,[]⟩

end Delivering

end LiMaoIM.Lim

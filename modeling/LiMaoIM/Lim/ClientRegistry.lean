import LiMaoIM.Foundation.Run
import LiMaoIM.Lim.Authentication

namespace LiMaoIM.Lim

open Outcome Proto

namespace ClientManager

variable {m : ClientManager} {client x y : Client} {id : Int64} {uid : Bytes}

def ids (m : ClientManager) (uid : Bytes) : List Int64 := (Assoc.get uid m.userClientMap).getD []

theorem getClientsWithUID_eq (m : ClientManager) (uid : Bytes) :
    m.getClientsWithUID uid = (m.ids uid).filterMap m.get := rfl

theorem get_add_self (m : ClientManager) (client : Client) :
    (m.add client).get client.getID = some client := by
  simp [add, get]

theorem get_add_ne (h : id ≠ client.getID) : (m.add client).get id = m.get id :=
  Assoc.get_put_ne h

theorem ids_add_self (m : ClientManager) (client : Client) :
    (m.add client).ids client.uid = m.ids client.uid ++ [client.getID] := by
  rw [ids, ids, add]
  cases Assoc.get client.uid m.userClientMap with
  | none => simp
  | some userList => simp

theorem ids_add_ne (h : uid ≠ client.uid) : (m.add client).ids uid = m.ids uid := by
  rw [ids, ids, add]
  cases Assoc.get client.uid m.userClientMap with
  | none => rw [Assoc.get_put_ne h]
  | some userList => rw [Assoc.get_put_ne h]

theorem get_remove_self (m : ClientManager) (id : Int64) : (m.remove id).get id = none := by
  rw [remove]
  split
  · assumption
  · exact Assoc.get_erase_self

theorem get_remove_ne {removed : Int64} (h : id ≠ removed) : (m.remove removed).get id = m.get id := by
  rw [remove]
  split
  · rfl
  · exact Assoc.get_erase_ne h

theorem ids_remove_self (h : m.get id = some x) :
    (m.remove id).ids x.uid = (m.ids x.uid).erase x.getID := by
  rw [get] at h
  simp only [ids, remove, h]
  cases hids : Assoc.get x.uid m.userClientMap with
  | none => simp [hids]
  | some userList => simp

theorem ids_remove_ne (h : m.get id = some x) (hne : uid ≠ x.uid) :
    (m.remove id).ids uid = m.ids uid := by
  rw [get] at h
  simp only [ids, remove, h]
  cases hids : Assoc.get x.uid m.userClientMap with
  | none => rfl
  | some userList => simp only [Assoc.get_put_ne hne]

structure Coherent (m : ClientManager) : Prop where
  conn : ∀ {id x}, m.get id = some x → x.getID = id
  nodup : ∀ uid, (m.ids uid).Nodup
  listed : ∀ {uid id}, id ∈ m.ids uid ↔ ∃ x, m.get id = some x ∧ x.uid = uid
  unique : ∀ {i j x y}, m.get i = some x → m.get j = some y → x.uid = y.uid →
    x.deviceFlag = y.deviceFlag → i = j

theorem coherent_empty : Coherent .empty := by
  refine ⟨fun h => ?_,fun uid => List.nodup_nil,⟨fun h => ?_,?_⟩,fun h => ?_⟩
  · cases h
  · cases h
  · rintro ⟨x,hx,-⟩
    cases hx
  · cases h

theorem Coherent.mem_clients (h : Coherent m) :
    x ∈ m.getClientsWithUID uid ↔ m.get x.getID = some x ∧ x.uid = uid := by
  rw [getClientsWithUID_eq, List.mem_filterMap]
  constructor
  · rintro ⟨id,hid,hx⟩
    obtain rfl := h.conn hx
    obtain ⟨y,hy,huid⟩ := h.listed.mp hid
    obtain rfl : x = y := Option.some.inj (hx.symm.trans hy)
    exact ⟨hx,huid⟩
  · rintro ⟨hx,huid⟩
    exact ⟨x.getID,h.listed.mpr ⟨x,hx,huid⟩,hx⟩

theorem Coherent.nodup_clients (h : Coherent m) (uid : Bytes) : (m.getClientsWithUID uid).Nodup := by
  rw [getClientsWithUID_eq]
  refine (h.nodup uid).filterMap ?_
  intro i j x hi hj
  rw [← h.conn hi, ← h.conn hj]

theorem length_le_one {α : Type} {l : List α} (hn : l.Nodup) (h : ∀ a ∈ l, ∀ b ∈ l, a = b) :
    l.length ≤ 1 := by
  match l with
  | [] => exact Nat.zero_le 1
  | [a] => exact Nat.le_refl 1
  | a :: b :: rest =>
    obtain rfl : a = b := h a (by simp) b (by simp)
    simp at hn

theorem Coherent.flag_clients (h : Coherent m) (uid : Bytes) (flag : DeviceFlag) :
    ((m.getClientsWithUID uid).filter fun x => x.deviceFlag = flag).length ≤ 1 := by
  apply length_le_one ((h.nodup_clients uid).filter _)
  intro x hx y hy
  obtain ⟨hx,hxf⟩ := List.mem_filter.mp hx
  obtain ⟨hy,hyf⟩ := List.mem_filter.mp hy
  obtain ⟨hx,hxu⟩ := h.mem_clients.mp hx
  obtain ⟨hy,hyu⟩ := h.mem_clients.mp hy
  have hid := h.unique hx hy (hxu.trans hyu.symm)
    ((of_decide_eq_true hxf).trans (of_decide_eq_true hyf).symm)
  rw [hid, hy] at hx
  exact (Option.some.inj hx).symm

theorem Coherent.getClientWith_some (h : Coherent m) {flag : DeviceFlag}
    (hx : m.getClientWith uid flag = some x) :
    m.get x.getID = some x ∧ x.uid = uid ∧ x.deviceFlag = flag := by
  obtain ⟨hget,huid⟩ := h.mem_clients.mp (List.mem_of_find?_eq_some hx)
  rw [getClientWith, List.find?_eq_some_iff_append] at hx
  exact ⟨hget,huid,of_decide_eq_true hx.1⟩

theorem Coherent.getClientWith_none (h : Coherent m) {flag : DeviceFlag}
    (hnone : m.getClientWith uid flag = none) (hx : m.get id = some x) :
    ¬ (x.uid = uid ∧ x.deviceFlag = flag) := by
  rintro ⟨huid,hflag⟩
  obtain rfl := h.conn hx
  have hno := List.find?_eq_none.mp hnone x (h.mem_clients.mpr ⟨hx,huid⟩)
  exact hno (decide_eq_true hflag)

theorem Coherent.remove (h : Coherent m) (removed : Int64) : Coherent (m.remove removed) := by
  cases hget : m.get removed with
  | none =>
    have hsame : m.remove removed = m := by
      rw [get] at hget
      rw [ClientManager.remove, hget]
    rwa [hsame]
  | some z =>
    obtain rfl := h.conn hget
    refine ⟨fun {id x} hx => h.conn (get_remove hx),fun uid => ?_,fun {uid id} => ?_,
      fun {i j x y} hi hj => h.unique (get_remove hi) (get_remove hj)⟩
    · rcases eq_or_ne uid z.uid with rfl | hne
      · rw [ids_remove_self hget]
        exact (h.nodup z.uid).erase _
      · rw [ids_remove_ne hget hne]
        exact h.nodup uid
    · rcases eq_or_ne id z.getID with rfl | hid
      · rw [get_remove_self]
        constructor
        · intro hmem
          rcases eq_or_ne uid z.uid with rfl | hne
          · rw [ids_remove_self hget] at hmem
            exact absurd hmem (h.nodup z.uid).not_mem_erase
          · rw [ids_remove_ne hget hne] at hmem
            obtain ⟨x,hx,huid⟩ := h.listed.mp hmem
            obtain rfl := Option.some.inj (hx.symm.trans hget)
            exact absurd huid.symm hne
        · rintro ⟨x,hx,-⟩
          cases hx
      · rw [get_remove_ne hid, ← h.listed]
        rcases eq_or_ne uid z.uid with rfl | hne
        · rw [ids_remove_self hget, List.mem_erase_of_ne hid]
        · rw [ids_remove_ne hget hne]

theorem Coherent.add (h : Coherent m) (hfresh : m.get client.getID = none)
    (halone : ∀ {id x}, m.get id = some x → ¬ (x.uid = client.uid ∧ x.deviceFlag = client.deviceFlag)) :
    Coherent (m.add client) := by
  refine ⟨fun {id x} hx => ?_,fun uid => ?_,fun {uid id} => ?_,fun {i j x y} hi hj huid hflag => ?_⟩
  · rcases eq_or_ne id client.getID with rfl | hid
    · rw [get_add_self] at hx
      rw [← Option.some.inj hx]
    · rw [get_add_ne hid] at hx
      exact h.conn hx
  · rcases eq_or_ne uid client.uid with rfl | hne
    · rw [ids_add_self]
      refine (h.nodup client.uid).append (List.nodup_singleton _) fun id hid hid' => ?_
      obtain rfl := List.mem_singleton.mp hid'
      obtain ⟨x,hx,-⟩ := h.listed.mp hid
      rw [hfresh] at hx
      cases hx
    · rw [ids_add_ne hne]
      exact h.nodup uid
  · rcases eq_or_ne id client.getID with rfl | hid
    · rw [get_add_self]
      rcases eq_or_ne uid client.uid with rfl | hne
      · rw [ids_add_self]
        simp
      · rw [ids_add_ne hne, h.listed, hfresh]
        simp [hne.symm]
    · rw [get_add_ne hid, ← h.listed]
      rcases eq_or_ne uid client.uid with rfl | hne
      · rw [ids_add_self]
        simp [hid]
      · rw [ids_add_ne hne]
  · rcases eq_or_ne i client.getID with rfl | hi'
    · rw [get_add_self] at hi
      obtain rfl := Option.some.inj hi
      rcases eq_or_ne j client.getID with rfl | hj'
      · rfl
      · rw [get_add_ne hj'] at hj
        exact absurd ⟨huid.symm,hflag.symm⟩ (halone hj)
    · rw [get_add_ne hi'] at hi
      rcases eq_or_ne j client.getID with rfl | hj'
      · rw [get_add_self] at hj
        obtain rfl := Option.some.inj hj
        exact absurd ⟨huid,hflag⟩ (halone hi)
      · rw [get_add_ne hj'] at hj
        exact h.unique hi hj huid hflag

end ClientManager

inductive Registration where
  | added (client : Client)
  | removed (id : Int64)

def registered (id : Int64) : List Registration → Option Client
  | [] => none
  | .added client :: rest => if client.getID = id then some client else registered id rest
  | .removed r :: rest => if r = id then none else registered id rest

structure Registry where
  server : Server
  history : List Registration

inductive ConnEvent where
  | connect (conn : Int64) (packet : ConnectPacket) (deviceLevel : UInt8) (keys : SessionKeys)
      (input : TaskInput)
  | disconnect (conn : Int64)

def connectClient (conn : Int64) (p : ConnectPacket) (deviceLevel : UInt8) (keys : SessionKeys) :
    Client :=
  ⟨conn,p.uid,p.deviceFlag,deviceLevel,keys.aesKey,keys.aesIV⟩

def kicked (m : ClientManager) (p : ConnectPacket) (history : List Registration) :
    List Registration :=
  match m.getClientWith p.uid p.deviceFlag with
  | none => history
  | some oldClient => .removed oldClient.getID :: history

def disconnected (m : ClientManager) (conn : Int64) (history : List Registration) :
    List Registration :=
  match m.get conn with
  | none => history
  | some _ => .removed conn :: history

def registryStep (s : Registry) : ConnEvent → Outcome Registry
  | .connect conn p deviceLevel keys input =>
      .ok ⟨(s.server.setVersion conn p.version).register input conn p deviceLevel keys,
        .added (connectClient conn p deviceLevel keys) ::
          kicked s.server.clientManager p s.history⟩
  | .disconnect conn =>
      .ok ⟨s.server.handleDisconnect conn,disconnected s.server.clientManager conn s.history⟩

def Registry.initial (slotCount : Nat) : Registry := ⟨.initial slotCount,[]⟩

structure Consistent (s : Registry) : Prop where
  each : ∀ uid, (s.server.clientManager.getClientsWithUID uid).Nodup
  exact : ∀ uid client, client ∈ s.server.clientManager.getClientsWithUID uid ↔
    registered client.getID s.history = some client ∧ client.uid = uid
  device : ∀ uid flag, ((s.server.clientManager.getClientsWithUID uid).filter fun client =>
    client.deviceFlag = flag).length ≤ 1

def Reconnects (s : Registry) : ConnEvent → Prop
  | .connect conn p _ _ _ => ∀ client, s.server.clientManager.get conn = some client →
      client.uid = p.uid ∧ client.deviceFlag = p.deviceFlag
  | .disconnect _ => True

structure RegistryInv (s : Registry) : Prop where
  coherent : s.server.clientManager.Coherent
  history : ∀ id, registered id s.history = s.server.clientManager.get id

section Events

variable {s : Registry} {p : ConnectPacket}

theorem RegistryInv.consistent (h : RegistryInv s) : Consistent s := by
  refine ⟨h.coherent.nodup_clients,fun uid client => ?_,h.coherent.flag_clients⟩
  rw [h.coherent.mem_clients, h.history]

theorem registryInv_initial (slotCount : Nat) : RegistryInv (.initial slotCount) :=
  ⟨ClientManager.coherent_empty,fun _ => rfl⟩

theorem clientManager_register (s : Server) (input : TaskInput) (conn : Int64) (p : ConnectPacket)
    (deviceLevel : UInt8) (keys : SessionKeys) :
    ((s.setVersion conn p.version).register input conn p deviceLevel keys).clientManager =
      (match s.clientManager.getClientWith p.uid p.deviceFlag with
        | none => s.clientManager
        | some oldClient => s.clientManager.remove oldClient.getID).add
          (connectClient conn p deviceLevel keys) := by
  rw [Server.register, Server.kickOldClient]
  simp only [Server.setVersion]
  cases s.clientManager.getClientWith p.uid p.deviceFlag with
  | none => rfl
  | some oldClient => rfl

theorem registered_removed {history : List Registration} {m : ClientManager}
    (h : ∀ id, registered id history = m.get id) (r id : Int64) :
    registered id (.removed r :: history) = (m.remove r).get id := by
  rw [registered]
  rcases eq_or_ne r id with rfl | hne
  · rw [if_pos rfl, ClientManager.get_remove_self]
  · rw [if_neg hne, h, ClientManager.get_remove_ne hne.symm]

theorem registered_added {history : List Registration} {m : ClientManager}
    (h : ∀ id, registered id history = m.get id) (client : Client) (id : Int64) :
    registered id (.added client :: history) = (m.add client).get id := by
  rw [registered]
  rcases eq_or_ne client.getID id with rfl | hne
  · rw [if_pos rfl, ClientManager.get_add_self]
  · rw [if_neg hne, h, ClientManager.get_add_ne hne.symm]

theorem RegistryInv.disconnect (h : RegistryInv s) (conn : Int64) :
    ∃ s', registryStep s (.disconnect conn) = .ok s' ∧ RegistryInv s' := by
  refine ⟨_,rfl,?_⟩
  rw [Server.handleDisconnect, disconnected]
  cases s.server.clientManager.get conn with
  | none => exact h
  | some client => exact ⟨h.coherent.remove conn,registered_removed h.history conn⟩

theorem RegistryInv.connect (h : RegistryInv s) {conn : Int64} {deviceLevel : UInt8}
    {keys : SessionKeys} {input : TaskInput}
    (hc : Reconnects s (.connect conn p deviceLevel keys input)) :
    ∃ s', registryStep s (.connect conn p deviceLevel keys input) = .ok s' ∧ RegistryInv s' := by
  refine ⟨_,rfl,?_⟩
  have hcm := clientManager_register s.server input conn p deviceLevel keys
  cases hold : s.server.clientManager.getClientWith p.uid p.deviceFlag with
  | none =>
    simp only [hold] at hcm
    simp only [kicked, hold]
    constructor
    · rw [hcm]
      apply h.coherent.add
      · cases hget : s.server.clientManager.get conn with
        | none => exact hget
        | some x => exact absurd (hc x hget) (h.coherent.getClientWith_none hold hget)
      · exact fun hx => h.coherent.getClientWith_none hold hx
    · rw [hcm]
      exact registered_added h.history _
  | some oldClient =>
    simp only [hold] at hcm
    simp only [kicked, hold]
    obtain ⟨hget,huid,hflag⟩ := h.coherent.getClientWith_some hold
    have hgone : ∀ {id x}, s.server.clientManager.get id = some x → x.uid = p.uid →
        x.deviceFlag = p.deviceFlag → id = oldClient.getID :=
      fun hx hxu hxf => h.coherent.unique hx hget (hxu.trans huid.symm) (hxf.trans hflag.symm)
    have halone : ∀ {id x}, (s.server.clientManager.remove oldClient.getID).get id = some x →
        ¬ (x.uid = p.uid ∧ x.deviceFlag = p.deviceFlag) := by
      rintro id x hx ⟨hxu,hxf⟩
      obtain rfl := hgone (ClientManager.get_remove hx) hxu hxf
      rw [ClientManager.get_remove_self] at hx
      cases hx
    constructor
    · rw [hcm]
      apply (h.coherent.remove oldClient.getID).add
      · cases hconn : (s.server.clientManager.remove oldClient.getID).get conn with
        | none => exact hconn
        | some x => exact absurd (hc x (ClientManager.get_remove hconn)) (halone hconn)
      · exact fun hx => halone hx
    · rw [hcm]
      exact registered_added (registered_removed h.history _) _

theorem registryStep_keeps (a : ConnEvent) (h : RegistryInv s) (hc : Reconnects s a) :
    ∃ s', registryStep s a = .ok s' ∧ RegistryInv s' := by
  cases a with
  | connect conn p deviceLevel keys input => exact h.connect hc
  | disconnect conn => exact h.disconnect conn

theorem inconsistent_add {m : ClientManager} {history : List Registration} (hm : m.Coherent)
    {client x : Client} (hx : m.get client.getID = some x) {server : Server}
    (hcm : server.clientManager = m.add client) :
    ¬ Consistent ⟨server,.added client :: history⟩ := by
  intro hcons
  obtain ⟨heach,hexact,-⟩ := hcons
  simp only [hcm, ClientManager.getClientsWithUID_eq] at heach hexact
  have hlisted : client.getID ∈ m.ids x.uid := hm.listed.mpr ⟨x,hx,rfl⟩
  rcases eq_or_ne x.uid client.uid with hu | hu
  · rw [hu] at hlisted
    have hn := heach client.uid
    obtain ⟨front,back,hsplit⟩ := List.append_of_mem hlisted
    rw [ClientManager.ids_add_self, List.filterMap_append, hsplit, List.filterMap_append] at hn
    have hself := ClientManager.get_add_self m client
    simp only [List.filterMap_cons, hself, List.filterMap_nil] at hn
    obtain ⟨-,-,hdisjoint⟩ := List.nodup_append'.mp hn
    exact hdisjoint (List.mem_append_right _ List.mem_cons_self) List.mem_cons_self
  · have hmem : client ∈ ((m.add client).ids x.uid).filterMap (m.add client).get := by
      rw [ClientManager.ids_add_ne hu, List.mem_filterMap]
      exact ⟨client.getID,hlisted,ClientManager.get_add_self m client⟩
    exact hu ((hexact x.uid client).mp hmem).2.symm

theorem registryStep_breaks {s' : Registry} (a : ConnEvent) (h : RegistryInv s)
    (hc : ¬ Reconnects s a) (hstep : registryStep s a = .ok s') : ¬ Consistent s' := by
  cases a with
  | disconnect conn => exact absurd trivial hc
  | connect conn p deviceLevel keys input =>
    simp only [Reconnects, not_forall] at hc
    obtain ⟨x,hx,hother⟩ := hc
    cases hstep
    have hcm := clientManager_register s.server input conn p deviceLevel keys
    have hid : conn = (connectClient conn p deviceLevel keys).getID := rfl
    cases hold : s.server.clientManager.getClientWith p.uid p.deviceFlag with
    | none =>
      simp only [hold] at hcm
      simp only [kicked, hold]
      exact inconsistent_add h.coherent (hid ▸ hx) hcm
    | some oldClient =>
      simp only [hold] at hcm
      simp only [kicked, hold]
      obtain ⟨hget,huid,hflag⟩ := h.coherent.getClientWith_some hold
      have hne : conn ≠ oldClient.getID := by
        rintro rfl
        obtain rfl := Option.some.inj (hx.symm.trans hget)
        exact hother ⟨huid,hflag⟩
      have hkept : (s.server.clientManager.remove oldClient.getID).get conn = some x := by
        rwa [ClientManager.get_remove_ne hne]
      exact inconsistent_add (h.coherent.remove _) (hid ▸ hkept) hcm

end Events

theorem client_registry_consistent_iff (slotCount : Nat) (events : List ConnEvent) :
    Run.Always registryStep Consistent (.initial slotCount) events ↔
      Run.Meets registryStep Reconnects (.initial slotCount) events :=
  Run.always_iff_meets (fun _ h => h.consistent) (fun _ a h hc => registryStep_keeps a h hc)
    (fun _ a _ h hc hstep => registryStep_breaks a h hc hstep) (registryInv_initial slotCount)

def connectAs (uid : Bytes) (deviceFlag : DeviceFlag) : ConnEvent :=
  .connect 7 ⟨{},2,[],[],deviceFlag,0,uid,[]⟩ 0 ⟨[],[],[]⟩ ⟨0,[],[]⟩

theorem second_uid_listed_under_first :
    ¬ Run.Always registryStep Consistent (.initial 256)
      [connectAs (Bytes.ofString "u1") 0,connectAs (Bytes.ofString "u2") 0] := by
  intro h
  have hlast := h.last rfl
  have hmem : (⟨7,Bytes.ofString "u2",0,0,[],[]⟩ : Client) ∈
      (((ClientManager.empty.add ⟨7,Bytes.ofString "u1",0,0,[],[]⟩).add
        ⟨7,Bytes.ofString "u2",0,0,[],[]⟩).getClientsWithUID (Bytes.ofString "u1")) := by decide
  have huid := ((hlast.exact (Bytes.ofString "u1") _).mp hmem).2
  revert huid
  decide

end LiMaoIM.Lim

import LiMaoIM.Lim.ConcurrentRegistry

namespace LiMaoIM.Lim

def RegistryCall.apply (m : ClientManager) : RegistryCall → ClientManager
  | .add client => m.add client
  | .remove id => m.remove id

def completed (calls : List RegistryCall) : ClientManager := calls.foldl RegistryCall.apply .empty

def added (calls : List RegistryCall) : List Client :=
  calls.filterMap fun call =>
    match call with
    | .add client => some client
    | .remove _ => none

def Remains (calls : List RegistryCall) (client : Client) : Prop :=
  ∃ before after, calls = before ++ .add client :: after ∧ .remove client.getID ∉ after

variable {calls : List RegistryCall} {client : Client} {id : Int64} {uid : Bytes}

theorem not_remains_nil : ¬ Remains [] client := by
  rintro ⟨before,after,h,-⟩
  cases before with
  | nil => cases h
  | cons call before => cases h

theorem remains_append (call : RegistryCall) :
    Remains (calls ++ [call]) client ↔
      call = .add client ∨ Remains calls client ∧ call ≠ .remove client.getID := by
  constructor
  · rintro ⟨before,after,h,hafter⟩
    rcases List.eq_nil_or_concat after with rfl | ⟨rest,last,rfl⟩
    · obtain ⟨-,hcall⟩ := List.append_inj' h rfl
      exact Or.inl (List.cons.inj hcall).1
    · rw [List.concat_eq_append, List.mem_append, not_or, List.mem_singleton] at hafter
      have h' : calls ++ [call] = (before ++ .add client :: rest) ++ [last] := by
        rw [h, List.concat_eq_append, List.append_assoc]
        rfl
      obtain ⟨rfl,hcall⟩ := List.append_inj' h' rfl
      obtain rfl := (List.cons.inj hcall).1
      exact Or.inr ⟨⟨before,rest,rfl,hafter.1⟩,fun heq => hafter.2 heq.symm⟩
  · rintro (rfl | ⟨⟨before,after,rfl,hafter⟩,hne⟩)
    · exact ⟨calls,[],rfl,List.not_mem_nil⟩
    · refine ⟨before,after ++ [call],by rw [List.append_assoc]; rfl,fun hmem => ?_⟩
      rcases List.mem_append.mp hmem with hmem | hmem
      · exact hafter hmem
      · exact hne (List.mem_singleton.mp hmem).symm

theorem Remains.added (h : Remains calls client) : client ∈ added calls := by
  obtain ⟨before,after,rfl,-⟩ := h
  exact List.mem_filterMap.mpr ⟨.add client,List.mem_append_right _ List.mem_cons_self,rfl⟩

namespace ClientManager

variable {m : ClientManager}

theorem isSome_add (m : ClientManager) (client : Client) (uid : Bytes) :
    (Assoc.get uid (m.add client).userClientMap).isSome = true ↔
      uid = client.uid ∨ (Assoc.get uid m.userClientMap).isSome = true := by
  rcases eq_or_ne uid client.uid with rfl | hne
  · rw [add]
    cases Assoc.get client.uid m.userClientMap with
    | none => simp
    | some users => simp
  · rw [add]
    cases Assoc.get client.uid m.userClientMap with
    | none => simp [Assoc.get_put_ne hne, hne]
    | some users => simp [Assoc.get_put_ne hne, hne]

theorem isSome_remove (m : ClientManager) (id : Int64) (uid : Bytes) :
    (Assoc.get uid (m.remove id).userClientMap).isSome =
      (Assoc.get uid m.userClientMap).isSome := by
  rw [remove]
  cases Assoc.get id m.clientMap with
  | none => rfl
  | some client =>
    cases hids : Assoc.get client.uid m.userClientMap with
    | none => simp [hids]
    | some users =>
      rcases eq_or_ne uid client.uid with rfl | hne
      · simp [hids]
      · simp [hids, Assoc.get_put_ne hne]

theorem get_add_iff {x : Client} : (m.add client).get id = some x ↔
    id = client.getID ∧ x = client ∨ id ≠ client.getID ∧ m.get id = some x := by
  rcases eq_or_ne id client.getID with rfl | hne
  · rw [get_add_self]
    simp [eq_comm]
  · rw [get_add_ne hne]
    simp [hne]

theorem mem_ids_add : id ∈ (m.add client).ids uid ↔
    id ∈ m.ids uid ∨ uid = client.uid ∧ id = client.getID := by
  rcases eq_or_ne uid client.uid with rfl | hne
  · rw [ids_add_self, List.mem_append, List.mem_singleton]
    simp
  · rw [ids_add_ne hne]
    simp [hne]

theorem get_remove_iff {id' : Int64} {x : Client} :
    (m.remove id).get id' = some x ↔ id' ≠ id ∧ m.get id' = some x := by
  rcases eq_or_ne id' id with rfl | hne
  · rw [get_remove_self]
    simp
  · rw [get_remove_ne hne]
    simp [hne]

end ClientManager

structure Recorded (calls : List RegistryCall) (m : ClientManager) : Prop where
  client : ∀ {id x}, m.get id = some x ↔ x.getID = id ∧ Remains calls x
  nodup : ∀ uid, (m.ids uid).Nodup
  listed : ∀ {uid id}, id ∈ m.ids uid ↔ ∃ x, m.get id = some x ∧ x.uid = uid
  known : ∀ uid, (Assoc.get uid m.userClientMap).isSome = true ↔ ∃ x ∈ added calls, x.uid = uid

theorem recorded_nil : Recorded [] .empty := by
  refine ⟨⟨fun h => ?_,fun h => absurd h.2 not_remains_nil⟩,fun uid => List.nodup_nil,
    ⟨fun h => ?_,?_⟩,fun uid => ⟨fun h => ?_,?_⟩⟩
  · cases h
  · cases h
  · rintro ⟨x,hx,-⟩
    cases hx
  · cases h
  · rintro ⟨x,hx,-⟩
    cases hx

theorem Recorded.add {m : ClientManager} (h : Recorded calls m)
    (hnew : client.getID ∉ (added calls).map Client.getID) :
    Recorded (calls ++ [.add client]) (m.add client) := by
  have hfree : m.get client.getID = none := by
    cases hget : m.get client.getID with
    | none => rfl
    | some x =>
      obtain ⟨hid,hremains⟩ := h.client.mp hget
      exact absurd (hid ▸ List.mem_map_of_mem hremains.added) hnew
  have hunlisted : ∀ uid, client.getID ∉ m.ids uid := by
    intro uid hmem
    obtain ⟨x,hx,-⟩ := h.listed.mp hmem
    rw [hfree] at hx
    cases hx
  refine ⟨?_,fun uid => ?_,?_,fun uid => ?_⟩
  · intro id x
    rw [ClientManager.get_add_iff, remains_append, h.client]
    constructor
    · rintro (⟨rfl,rfl⟩ | ⟨hne,hid,hremains⟩)
      · exact ⟨rfl,Or.inl rfl⟩
      · exact ⟨hid,Or.inr ⟨hremains,RegistryCall.noConfusion⟩⟩
    · rintro ⟨rfl,heq | ⟨hremains,-⟩⟩
      · obtain rfl := RegistryCall.add.inj heq
        exact Or.inl ⟨rfl,rfl⟩
      · refine Or.inr ⟨fun heq => ?_,rfl,hremains⟩
        exact hnew (heq ▸ List.mem_map_of_mem hremains.added)
  · rcases eq_or_ne uid client.uid with rfl | hne
    · rw [ClientManager.ids_add_self]
      refine (h.nodup _).append (List.nodup_singleton _) fun id hid hself => ?_
      rw [List.mem_singleton.mp hself] at hid
      exact hunlisted _ hid
    · rw [ClientManager.ids_add_ne hne]
      exact h.nodup uid
  · intro uid id
    rw [ClientManager.mem_ids_add, h.listed]
    constructor
    · rintro (⟨x,hx,huid⟩ | ⟨rfl,rfl⟩)
      · refine ⟨x,ClientManager.get_add_iff.mpr (Or.inr ⟨fun heq => ?_,hx⟩),huid⟩
        rw [heq, hfree] at hx
        cases hx
      · exact ⟨client,ClientManager.get_add_iff.mpr (Or.inl ⟨rfl,rfl⟩),rfl⟩
    · rintro ⟨x,hx,huid⟩
      rcases ClientManager.get_add_iff.mp hx with ⟨rfl,rfl⟩ | ⟨-,hold⟩
      · exact Or.inr ⟨huid.symm,rfl⟩
      · exact Or.inl ⟨x,hold,huid⟩
  · have hadded : added (calls ++ [.add client]) = added calls ++ [client] := by
      simp [added]
    rw [ClientManager.isSome_add, h.known, hadded]
    simp [or_comm, or_and_right, exists_or, eq_comm]

theorem Recorded.ids_remove {m : ClientManager} (h : Recorded calls m) (id : Int64) (uid : Bytes) :
    ((m.remove id).ids uid).Nodup ∧
      ∀ id', id' ∈ (m.remove id).ids uid ↔ id' ≠ id ∧ id' ∈ m.ids uid := by
  have hsame : (m.remove id).ids uid = m.ids uid → id ∉ m.ids uid →
      ((m.remove id).ids uid).Nodup ∧
        ∀ id', id' ∈ (m.remove id).ids uid ↔ id' ≠ id ∧ id' ∈ m.ids uid := by
    intro heq hnot
    rw [heq]
    refine ⟨h.nodup uid,fun id' => ⟨fun hmem => ⟨?_,hmem⟩,And.right⟩⟩
    rintro rfl
    exact hnot hmem
  cases hx : m.get id with
  | none =>
    have hnone : Assoc.get id m.clientMap = none := hx
    apply hsame
    · rw [ClientManager.remove, hnone]
    · intro hmem
      obtain ⟨x,hx',-⟩ := h.listed.mp hmem
      rw [hx] at hx'
      cases hx'
  | some x =>
    rcases eq_or_ne uid x.uid with rfl | hne
    · rw [ClientManager.ids_remove_self hx, (h.client.mp hx).1]
      exact ⟨(h.nodup _).erase _,fun id' => (h.nodup _).mem_erase_iff⟩
    · apply hsame (ClientManager.ids_remove_ne hx hne)
      intro hmem
      obtain ⟨y,hy,huid⟩ := h.listed.mp hmem
      obtain rfl := Option.some.inj (hx.symm.trans hy)
      exact hne huid.symm

theorem Recorded.remove {m : ClientManager} (h : Recorded calls m) (id : Int64) :
    Recorded (calls ++ [.remove id]) (m.remove id) := by
  refine ⟨?_,fun uid => (h.ids_remove id uid).1,?_,fun uid => ?_⟩
  · intro id' x
    rw [ClientManager.get_remove_iff, remains_append, h.client]
    constructor
    · rintro ⟨hne,rfl,hremains⟩
      refine ⟨rfl,Or.inr ⟨hremains,fun heq => ?_⟩⟩
      exact hne (RegistryCall.remove.inj heq).symm
    · rintro ⟨rfl,heq | ⟨hremains,hne⟩⟩
      · cases heq
      · exact ⟨fun heq => hne (heq ▸ rfl),rfl,hremains⟩
  · intro uid id'
    rw [(h.ids_remove id uid).2, h.listed]
    constructor
    · rintro ⟨hne,x,hx,huid⟩
      exact ⟨x,ClientManager.get_remove_iff.mpr ⟨hne,hx⟩,huid⟩
    · rintro ⟨x,hx,huid⟩
      obtain ⟨hne,hold⟩ := ClientManager.get_remove_iff.mp hx
      exact ⟨hne,x,hold,huid⟩
  · have hadded : added (calls ++ [.remove id]) = added calls := by
      simp [added]
    rw [ClientManager.isSome_remove, h.known, hadded]

theorem recorded_completed (hdistinct : ((added calls).map Client.getID).Nodup) :
    Recorded calls (completed calls) := by
  induction calls using List.reverseRecOn with
  | nil => exact recorded_nil
  | append_singleton calls call ih =>
    have hrun : completed (calls ++ [call]) = RegistryCall.apply (completed calls) call := by
      rw [completed, List.foldl_append]
      rfl
    rw [hrun]
    cases call with
    | add client =>
      have hadded : added (calls ++ [.add client]) = added calls ++ [client] := by
        simp [added]
      rw [hadded, List.map_append, List.map_singleton] at hdistinct
      obtain ⟨hold,-,hnew⟩ := List.nodup_append'.mp hdistinct
      exact (ih hold).add fun hmem => hnew hmem List.mem_cons_self
    | remove id =>
      have hadded : added (calls ++ [.remove id]) = added calls := by
        simp [added]
      rw [hadded] at hdistinct
      exact (ih hdistinct).remove id

theorem Recorded.clients_iff {m : ClientManager} (h : Recorded calls m) (uid : Bytes) :
    m.getClientsWithUID uid ≠ [] ↔ ∃ x, Remains calls x ∧ x.uid = uid := by
  constructor
  · intro hne
    obtain ⟨x,hx⟩ := List.exists_mem_of_ne_nil _ hne
    rw [ClientManager.getClientsWithUID_eq, List.mem_filterMap] at hx
    obtain ⟨id,hid,hget⟩ := hx
    obtain ⟨y,hy,huid⟩ := h.listed.mp hid
    obtain rfl := Option.some.inj (hget.symm.trans hy)
    exact ⟨x,(h.client.mp hget).2,huid⟩
  · rintro ⟨x,hremains,huid⟩
    have hget := h.client.mpr ⟨rfl,hremains⟩
    apply List.ne_nil_of_mem (a := x)
    rw [ClientManager.getClientsWithUID_eq, List.mem_filterMap]
    exact ⟨x.getID,h.listed.mpr ⟨x,hget,huid⟩,hget⟩

theorem online_status_exact_iff {calls : List RegistryCall}
    (hdistinct : ((added calls).map Client.getID).Nodup) (uids : List Bytes) :
    ((completed calls).getOnlineUIDs uids =
        uids.filter fun uid => (completed calls).getClientsWithUID uid ≠ []) ↔
      ∀ uid ∈ uids, (∃ x ∈ added calls, x.uid = uid) → ∃ x, Remains calls x ∧ x.uid = uid := by
  have h := recorded_completed hdistinct
  rw [ClientManager.getOnlineUIDs]
  constructor
  · intro heq uid huid hadded
    have hmem : uid ∈ uids.filter fun uid =>
        (Assoc.get uid (completed calls).userClientMap).isSome :=
      List.mem_filter.mpr ⟨huid,(h.known uid).mpr hadded⟩
    rw [heq, List.mem_filter] at hmem
    exact (h.clients_iff uid).mp (of_decide_eq_true hmem.2)
  · intro hall
    refine List.filter_congr fun uid huid => ?_
    rw [Bool.eq_iff_iff, h.known, decide_eq_true_iff, h.clients_iff]
    refine ⟨hall uid huid,?_⟩
    rintro ⟨x,hremains,hx⟩
    exact ⟨x,hremains.added,hx⟩

def onlineDevice : Client := ⟨1,[0x75],0,0,[],[]⟩

theorem logged_in_user_online :
    (completed [.add onlineDevice]).getOnlineUIDs [[0x75]] =
      [[0x75]].filter fun uid => (completed [.add onlineDevice]).getClientsWithUID uid ≠ [] := by
  refine (online_status_exact_iff (by decide) [[0x75]]).mpr fun uid huid _ => ?_
  rw [List.mem_singleton.mp huid]
  exact ⟨onlineDevice,⟨[],[],rfl,List.not_mem_nil⟩,rfl⟩

theorem logged_out_user_online :
    ((added [.add onlineDevice,.remove 1]).map Client.getID).Nodup ∧
      (completed [.add onlineDevice,.remove 1]).getOnlineUIDs [[0x75]] ≠
        [[0x75]].filter fun uid =>
          (completed [.add onlineDevice,.remove 1]).getClientsWithUID uid ≠ [] := by
  decide

end LiMaoIM.Lim

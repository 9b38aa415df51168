import LiMaoIM.Lim.ClientRegistry

namespace LiMaoIM.Lim

open Outcome

inductive RegistryCall where
  | add (client : Client)
  | remove (id : Int64)
deriving DecidableEq

def RegistryCall.id : RegistryCall → Int64
  | .add client => client.getID
  | .remove id => id

inductive CallState where
  | start
  | mapped (client : Client)
  | loaded (client : Client) (users : List Int64)
  | done
deriving DecidableEq

namespace ClientManager

def storeUsers (m : ClientManager) (uid : Bytes) (users : List Int64) : ClientManager :=
  { m with userClientMap := Assoc.put uid users m.userClientMap }

end ClientManager

def advanceAdd (client : Client) (m : ClientManager) : CallState → ClientManager × CallState
  | .start => ({ m with clientMap := Assoc.put client.getID client m.clientMap },.mapped client)
  | .mapped client =>
      match Assoc.get client.uid m.userClientMap with
      | none => (m.storeUsers client.uid [client.getID],.done)
      | some users => (m,.loaded client users)
  | .loaded client users => (m.storeUsers client.uid (users ++ [client.getID]),.done)
  | .done => (m,.done)

def advanceRemove (id : Int64) (m : ClientManager) : CallState → ClientManager × CallState
  | .start =>
      match Assoc.get id m.clientMap with
      | none => (m,.done)
      | some client => ({ m with clientMap := Assoc.erase id m.clientMap },.mapped client)
  | .mapped client =>
      match Assoc.get client.uid m.userClientMap with
      | none => (m,.done)
      | some users => (m,.loaded client users)
  | .loaded client users =>
      if client.getID ∈ users then (m.storeUsers client.uid (users.erase client.getID),.done)
      else (m,.done)
  | .done => (m,.done)

def advance : RegistryCall → ClientManager → CallState → ClientManager × CallState
  | .add client => advanceAdd client
  | .remove id => advanceRemove id

structure Interleaving where
  manager : ClientManager
  state : Int64 → CallState

def Interleaving.initial (m : ClientManager) : Interleaving := ⟨m,fun _ => .start⟩

def callStep (calls : List RegistryCall) (s : Interleaving) (call : RegistryCall) :
    Outcome Interleaving :=
  if call ∈ calls then
    let (m,state) := advance call s.manager (s.state call.id)
    .ok ⟨m,Function.update s.state call.id state⟩
  else .ok s

def alone (call : RegistryCall) (m : ClientManager) : ClientManager × CallState :=
  let first := advance call m .start
  let second := advance call first.1 first.2
  advance call second.1 second.2

section Alone

variable (m : ClientManager)

theorem alone_add (client : Client) : alone (.add client) m = (m.add client,.done) := by
  simp only [alone, advance, advanceAdd, ClientManager.add]
  cases hget : Assoc.get client.uid m.userClientMap with
  | none => simp [ClientManager.storeUsers]
  | some users => simp [ClientManager.storeUsers]

theorem alone_remove (id : Int64) :
    ((alone (.remove id) m).1.clientMap,(alone (.remove id) m).2) =
      ((m.remove id).clientMap,.done) ∧
    ∀ uid, (alone (.remove id) m).1.ids uid = (m.remove id).ids uid := by
  simp only [alone, advance, advanceRemove, ClientManager.remove]
  cases hclient : Assoc.get id m.clientMap with
  | none => simp
  | some client =>
    simp only
    cases husers : Assoc.get client.uid m.userClientMap with
    | none => exact ⟨rfl,fun _ => rfl⟩
    | some users =>
      simp only
      split
      · exact ⟨rfl,fun _ => rfl⟩
      · rename_i hmem
        refine ⟨rfl,fun uid => ?_⟩
        rw [List.erase_of_not_mem hmem]
        simp only [ClientManager.ids]
        rcases eq_or_ne uid client.uid with rfl | hne
        · rw [husers, Assoc.get_put_self]
        · rw [Assoc.get_put_ne hne]

end Alone

structure Concurrent (m₀ : ClientManager) (uid : Bytes) (calls : List RegistryCall) : Prop where
  distinct : (calls.map RegistryCall.id).Nodup
  added : ∀ client, .add client ∈ calls → client.uid = uid
  removed : ∀ id client, .remove id ∈ calls → m₀.get id = some client →
    client.uid = uid ∧ client.getID = id

structure ExactIds (m₀ : ClientManager) (uid : Bytes) (calls : List RegistryCall)
    (m : ClientManager) : Prop where
  each : (m.ids uid).Nodup
  exact : ∀ id, id ∈ m.ids uid ↔
    (id ∈ m₀.ids uid ∨ ∃ client, .add client ∈ calls ∧ client.getID = id) ∧ .remove id ∉ calls

def Fresh (m₀ : ClientManager) (uid : Bytes) (calls : List RegistryCall) : Prop :=
  ∀ client, .add client ∈ calls → client.getID ∉ m₀.ids uid

def Current (uid : Bytes) (s : Interleaving) : RegistryCall → Prop
  | .add client =>
      match s.state client.getID with
      | .loaded _ users => users = s.manager.ids uid ∧ client.getID ∉ users
      | _ => True
  | .remove id =>
      match s.state id with
      | .start => s.manager.get id = none → id ∉ s.manager.ids uid
      | .loaded _ users => id ∈ users → users = s.manager.ids uid
      | _ => True

instance (uid : Bytes) (s : Interleaving) : (call : RegistryCall) → Decidable (Current uid s call)
  | .add client =>
      match h : s.state client.getID with
      | .loaded _ users =>
          decidable_of_iff (users = s.manager.ids uid ∧ client.getID ∉ users) (by simp [Current, h])
      | .start => isTrue (by simp [Current, h])
      | .mapped _ => isTrue (by simp [Current, h])
      | .done => isTrue (by simp [Current, h])
  | .remove id =>
      match h : s.state id with
      | .start =>
          decidable_of_iff (s.manager.get id = none → id ∉ s.manager.ids uid) (by simp [Current, h])
      | .loaded _ users =>
          decidable_of_iff (id ∈ users → users = s.manager.ids uid) (by simp [Current, h])
      | .mapped _ => isTrue (by simp [Current, h])
      | .done => isTrue (by simp [Current, h])

def effect : RegistryCall → List Int64 → List Int64
  | .add client, users => users ++ [client.getID]
  | .remove id, users => users.erase id

def Stores : RegistryCall → List Int64 → Prop
  | .add _, _ => True
  | .remove id, users => id ∈ users

def Took : RegistryCall → List Int64 → Prop
  | .add client, users => client.getID ∈ users
  | .remove id, users => id ∉ users

def Known (m₀ m : ClientManager) (uid : Bytes) (call : RegistryCall) : CallState → Prop
  | .start => m.get call.id = m₀.get call.id
  | .mapped client => client.uid = uid ∧ client.getID = call.id
  | .loaded client _ => client.uid = uid ∧ client.getID = call.id
  | .done => True

inductive Read (uid : Bytes) (m : ClientManager) : CallState → List Int64 → Prop where
  | absent (client : Client) (h : m.ids uid = []) : Read uid m (.mapped client) []
  | loaded (client : Client) (users : List Int64) : Read uid m (.loaded client users) users

structure Moved (uid : Bytes) (m m' : ClientManager) (state' : CallState) : Prop where
  going : state' ≠ .done
  ids : m'.ids uid = m.ids uid
  loaded : ∀ client users, state' = .loaded client users → users = m.ids uid

structure Passed (uid : Bytes) (call : RegistryCall) (m m' : ClientManager) (state state' : CallState) :
    Prop where
  done : state' = .done
  ids : m'.ids uid = m.ids uid
  absent : ∃ id, call = .remove id ∧ (state = .start ∧ m.get id = none ∨ m.ids uid = [] ∨
    ∃ client users, state = .loaded client users ∧ id ∉ users)

structure Stored (uid : Bytes) (call : RegistryCall) (m m' : ClientManager) (state state' : CallState) :
    Prop where
  done : state' = .done
  stored : ∃ users, Read uid m state users ∧ Stores call users ∧ m'.ids uid = effect call users

section Steps

variable {m₀ m : ClientManager} {uid : Bytes} {calls : List RegistryCall} {call other : RegistryCall}
  {users : List Int64}

theorem mem_effect_ne {id : Int64} (h : id ≠ call.id) : id ∈ effect call users ↔ id ∈ users := by
  cases call with
  | add client =>
    have hne : id ≠ client.getID := h
    simp [effect, hne]
  | remove removed => exact List.mem_erase_of_ne h

theorem took_effect_ne (h : other.id ≠ call.id) : Took other (effect call users) ↔ Took other users := by
  cases other with
  | add client => exact mem_effect_ne h
  | remove id => exact not_congr (mem_effect_ne h)

theorem ids_storeUsers (m : ClientManager) (uid : Bytes) (users : List Int64) :
    (m.storeUsers uid users).ids uid = users := by
  simp [ClientManager.ids, ClientManager.storeUsers]

theorem ids_of_get (h : Assoc.get uid m.userClientMap = some users) : m.ids uid = users := by
  rw [ClientManager.ids, h]
  rfl

theorem ids_of_none (h : Assoc.get uid m.userClientMap = none) : m.ids uid = [] := by
  rw [ClientManager.ids, h]
  rfl

theorem advanceAdd_cases {client : Client} {state : CallState} (huid : client.uid = uid)
    (hk : Known m₀ m uid (.add client) state) (hgoing : state ≠ .done) :
    Moved uid m (advanceAdd client m state).1 (advanceAdd client m state).2 ∨
      Stored uid (.add client) m (advanceAdd client m state).1 state (advanceAdd client m state).2 := by
  cases state with
  | start =>
    left
    refine ⟨fun h => ?_,rfl,fun _ _ h => ?_⟩
    · cases h
    · cases h
  | mapped c =>
    obtain ⟨rfl,hid⟩ := hk
    have hc : c.getID = client.getID := hid
    simp only [advanceAdd]
    cases hget : Assoc.get c.uid m.userClientMap with
    | none =>
      right
      refine ⟨rfl,[],.absent c (ids_of_none hget),trivial,?_⟩
      rw [ids_storeUsers, effect, hc]
      rfl
    | some users =>
      left
      refine ⟨fun h => ?_,rfl,fun _ _ h => ?_⟩
      · cases h
      · cases h
        exact (ids_of_get hget).symm
  | loaded c users =>
    obtain ⟨rfl,hid⟩ := hk
    have hc : c.getID = client.getID := hid
    right
    refine ⟨rfl,users,.loaded c users,trivial,?_⟩
    rw [advanceAdd, ids_storeUsers, effect, hc]
  | done => exact absurd rfl hgoing

theorem advanceRemove_cases {id : Int64} {state : CallState}
    (hk : Known m₀ m uid (.remove id) state) (hgoing : state ≠ .done) :
    Moved uid m (advanceRemove id m state).1 (advanceRemove id m state).2 ∨
      Passed uid (.remove id) m (advanceRemove id m state).1 state (advanceRemove id m state).2 ∨
      Stored uid (.remove id) m (advanceRemove id m state).1 state (advanceRemove id m state).2 := by
  cases state with
  | start =>
    simp only [advanceRemove]
    cases hget : Assoc.get id m.clientMap with
    | none => exact Or.inr (Or.inl ⟨rfl,rfl,id,rfl,Or.inl ⟨rfl,hget⟩⟩)
    | some client =>
      left
      refine ⟨fun h => ?_,rfl,fun _ _ h => ?_⟩
      · cases h
      · cases h
  | mapped c =>
    obtain ⟨rfl,hid⟩ := hk
    simp only [advanceRemove]
    cases hget : Assoc.get c.uid m.userClientMap with
    | none => exact Or.inr (Or.inl ⟨rfl,rfl,id,rfl,Or.inr (Or.inl (ids_of_none hget))⟩)
    | some users =>
      left
      refine ⟨fun h => ?_,rfl,fun _ _ h => ?_⟩
      · cases h
      · cases h
        exact (ids_of_get hget).symm
  | loaded c users =>
    obtain ⟨rfl,hid⟩ := hk
    have hc : c.getID = id := hid
    subst hc
    simp only [advanceRemove]
    split
    · rename_i hmem
      right
      right
      refine ⟨rfl,users,.loaded c users,hmem,?_⟩
      rw [ids_storeUsers, effect]
    · rename_i hmem
      exact Or.inr (Or.inl ⟨rfl,rfl,c.getID,rfl,Or.inr (Or.inr ⟨c,users,rfl,hmem⟩)⟩)
  | done => exact absurd rfl hgoing

theorem advance_cases {state : CallState} (hc : Concurrent m₀ uid calls) (hmem : call ∈ calls)
    (hk : Known m₀ m uid call state) (hgoing : state ≠ .done) :
    Moved uid m (advance call m state).1 (advance call m state).2 ∨
      Passed uid call m (advance call m state).1 state (advance call m state).2 ∨
      Stored uid call m (advance call m state).1 state (advance call m state).2 := by
  cases call with
  | add client =>
    rcases advanceAdd_cases (hc.added client hmem) hk hgoing with h | h
    · exact Or.inl h
    · exact Or.inr (Or.inr h)
  | remove id => exact advanceRemove_cases hk hgoing

theorem get_advance_ne {state : CallState} {id : Int64} (h : id ≠ call.id) :
    (advance call m state).1.get id = m.get id := by
  cases call with
  | add client =>
    cases state with
    | start => exact Assoc.get_put_ne h
    | mapped c =>
      simp only [advance, advanceAdd]
      split
      · rfl
      · rfl
    | loaded c users => rfl
    | done => rfl
  | remove removed =>
    cases state with
    | start =>
      simp only [advance, advanceRemove]
      split
      · rfl
      · exact Assoc.get_erase_ne h
    | mapped c =>
      simp only [advance, advanceRemove]
      split
      · rfl
      · rfl
    | loaded c users =>
      simp only [advance, advanceRemove]
      split
      · rfl
      · rfl
    | done => rfl

theorem known_advance {state : CallState} (hc : Concurrent m₀ uid calls) (hmem : call ∈ calls)
    (hk : Known m₀ m uid call state) :
    Known m₀ (advance call m state).1 uid call (advance call m state).2 := by
  cases call with
  | add client =>
    cases state with
    | start => exact ⟨hc.added client hmem,rfl⟩
    | mapped c =>
      simp only [advance, advanceAdd]
      split
      · trivial
      · exact hk
    | loaded c users => trivial
    | done => trivial
  | remove id =>
    cases state with
    | start =>
      simp only [advance, advanceRemove]
      split
      · trivial
      · rename_i client hget
        exact hc.removed id client hmem (hk.symm.trans hget)
    | mapped c =>
      simp only [advance, advanceRemove]
      split
      · trivial
      · exact hk
    | loaded c users =>
      simp only [advance, advanceRemove]
      split
      · trivial
      · trivial
    | done => trivial

end Steps

def Live (uid : Bytes) (calls : List RegistryCall) (s : Interleaving) (users : List Int64) : Prop :=
  users = s.manager.ids uid ∨ ∃ call ∈ calls, ∃ client, s.state call.id = .loaded client users

def Effective (m₀ : ClientManager) (uid : Bytes) (call : RegistryCall) : Prop :=
  ¬ Took call (m₀.ids uid)

structure Progress (m₀ : ClientManager) (uid : Bytes) (calls : List RegistryCall) (s : Interleaving) :
    Prop where
  known : ∀ call ∈ calls, Known m₀ s.manager uid call (s.state call.id)
  pending : ∀ call ∈ calls, s.state call.id ≠ .done → Effective m₀ uid call →
    ∀ users, Live uid calls s users → ¬ Took call users
  within : ∀ users, Live uid calls s users → ∀ id ∈ users,
    id ∈ m₀.ids uid ∨ ∃ client, .add client ∈ calls ∧ client.getID = id
  kept : ∀ users, Live uid calls s users → ∀ id, (.remove id ∈ calls → s.state id ≠ .done) →
    (m₀.ids uid).count id ≤ users.count id
  nearly : ∀ users, Live uid calls s users → ∀ id, (m₀.ids uid).count id ≤ users.count id + 1

section Interleavings

variable {m₀ : ClientManager} {uid : Bytes} {calls : List RegistryCall} {call other : RegistryCall}
  {s s' : Interleaving} {users : List Int64}

theorem Concurrent.eq_of_id (hc : Concurrent m₀ uid calls) (h : call ∈ calls) (h' : other ∈ calls)
    (hid : other.id = call.id) : other = call :=
  List.inj_on_of_nodup_map hc.distinct h' h hid

structure Active (calls : List RegistryCall) (s : Interleaving) (call : RegistryCall)
    (s' : Interleaving) : Prop where
  mem : call ∈ calls
  going : s.state call.id ≠ .done
  manager : s'.manager = (advance call s.manager (s.state call.id)).1
  here : s'.state call.id = (advance call s.manager (s.state call.id)).2
  other : ∀ id, id ≠ call.id → s'.state id = s.state id

theorem callStep_cases (h : callStep calls s call = .ok s') :
    s' = s ∧ (call ∈ calls → s.state call.id = .done) ∨ Active calls s call s' := by
  rw [callStep] at h
  split at h
  · rename_i hmem
    cases hstate : s.state call.id with
    | done =>
      left
      have hself : advance call s.manager .done = (s.manager,.done) := by cases call <;> rfl
      simp only [hstate, hself] at h
      rw [← hstate, Function.update_eq_self] at h
      exact ⟨(Outcome.ok.inj h).symm,fun _ => rfl⟩
    | _ =>
      right
      obtain rfl := Outcome.ok.inj h
      refine ⟨hmem,?_,rfl,Function.update_self ..,fun id hid => Function.update_of_ne hid ..⟩
      rw [hstate]
      nofun
  · rename_i hmem
    exact Or.inl ⟨(Outcome.ok.inj h).symm,fun h => absurd h hmem⟩

theorem Progress.cases (hc : Concurrent m₀ uid calls) (h : Progress m₀ uid calls s)
    (ha : Active calls s call s') :
    Moved uid s.manager s'.manager (s'.state call.id) ∨
      Passed uid call s.manager s'.manager (s.state call.id) (s'.state call.id) ∨
      Stored uid call s.manager s'.manager (s.state call.id) (s'.state call.id) := by
  rw [ha.manager, ha.here]
  exact advance_cases hc ha.mem (h.known call ha.mem) ha.going

theorem Active.live (ha : Active calls s call s') (h : users ≠ s'.manager.ids uid)
    (hl : Live uid calls s' users) : Live uid calls s users ∨
      ∃ client, s'.state call.id = .loaded client users := by
  rcases hl with heq | ⟨c,hcmem,client,hstate⟩
  · exact absurd heq h
  · rcases eq_or_ne c.id call.id with hid | hid
    · rw [hid] at hstate
      exact Or.inr ⟨client,hstate⟩
    · rw [ha.other c.id hid] at hstate
      exact Or.inl (Or.inr ⟨c,hcmem,client,hstate⟩)

structure Written (uid : Bytes) (calls : List RegistryCall) (s : Interleaving) (call : RegistryCall)
    (s' : Interleaving) (users : List Int64) : Prop where
  done : s'.state call.id = .done
  read : ∃ old, Read uid s.manager (s.state call.id) old ∧ Stores call old ∧ users = effect call old

theorem Active.read_live (ha : Active calls s call s')
    (hr : Read uid s.manager (s.state call.id) users) : Live uid calls s users := by
  generalize hstate : s.state call.id = state at hr
  cases hr with
  | absent client h => exact Or.inl h.symm
  | loaded client users => exact Or.inr ⟨call,ha.mem,client,hstate⟩

theorem Progress.live (hc : Concurrent m₀ uid calls) (h : Progress m₀ uid calls s)
    (ha : Active calls s call s') (hl : Live uid calls s' users) :
    Live uid calls s users ∨ Written uid calls s call s' users := by
  rcases h.cases hc ha with hm | hp | hs
  · left
    rcases eq_or_ne users (s'.manager.ids uid) with heq | hne
    · exact Or.inl (heq.trans hm.ids)
    · rcases ha.live hne hl with hold | ⟨client,hnew⟩
      · exact hold
      · exact Or.inl (hm.loaded client users hnew)
  · left
    rcases eq_or_ne users (s'.manager.ids uid) with heq | hne
    · exact Or.inl (heq.trans hp.ids)
    · rcases ha.live hne hl with hold | ⟨client,hnew⟩
      · exact hold
      · rw [hp.done] at hnew
        cases hnew
  · obtain ⟨old,hread,hstores,hids⟩ := hs.stored
    rcases eq_or_ne users (s'.manager.ids uid) with heq | hne
    · right
      exact ⟨hs.done,old,hread,hstores,heq.trans hids⟩
    · rcases ha.live hne hl with hold | ⟨client,hnew⟩
      · exact Or.inl hold
      · rw [hs.done] at hnew
        cases hnew

theorem progress_initial (m₀ : ClientManager) (uid : Bytes) (calls : List RegistryCall) :
    Progress m₀ uid calls (.initial m₀) := by
  have hlive : ∀ users, Live uid calls (.initial m₀) users → users = m₀.ids uid := by
    rintro users (heq | ⟨call,-,client,hstate⟩)
    · exact heq
    · cases hstate
  constructor
  · exact fun call _ => rfl
  · intro call _ _ heff users hl
    rw [hlive users hl]
    exact heff
  · intro users hl id hid
    rw [hlive users hl] at hid
    exact Or.inl hid
  · intro users hl id _
    rw [hlive users hl]
  · intro users hl id
    rw [hlive users hl]
    exact Nat.le_succ _

theorem Active.going_before (ha : Active calls s call s') {id : Int64} (h : s'.state id ≠ .done) :
    s.state id ≠ .done := by
  rcases eq_or_ne id call.id with rfl | hne
  · exact ha.going
  · rwa [← ha.other id hne]

theorem Active.done_after (ha : Active calls s call s') {id : Int64} (h : s.state id = .done) :
    s'.state id = .done := by
  by_contra hgoing
  exact ha.going_before hgoing h

theorem Progress.active (hc : Concurrent m₀ uid calls) (h : Progress m₀ uid calls s)
    (ha : Active calls s call s') : Progress m₀ uid calls s' := by
  constructor
  · intro c hcmem
    rcases eq_or_ne c.id call.id with hid | hid
    · obtain rfl := hc.eq_of_id ha.mem hcmem hid
      rw [ha.manager, ha.here]
      exact known_advance hc hcmem (h.known c hcmem)
    · have hget : s'.manager.get c.id = s.manager.get c.id := by
        rw [ha.manager, get_advance_ne hid]
      have hk := h.known c hcmem
      rw [ha.other c.id hid]
      cases hstate : s.state c.id with
      | start =>
        rw [hstate] at hk
        exact hget.trans hk
      | mapped client => rwa [hstate] at hk
      | loaded client users => rwa [hstate] at hk
      | done => trivial
  · intro c hcmem hgoing heff users hl
    rcases h.live hc ha hl with hold | ⟨hdone,old,hread,-,rfl⟩
    · exact h.pending c hcmem (ha.going_before hgoing) heff users hold
    · rcases eq_or_ne c.id call.id with hid | hid
      · rw [hid] at hgoing
        exact absurd hdone hgoing
      · rw [took_effect_ne hid]
        rw [ha.other c.id hid] at hgoing
        exact h.pending c hcmem hgoing heff old (ha.read_live hread)
  · intro users hl id hid
    rcases h.live hc ha hl with hold | ⟨-,old,hread,-,rfl⟩
    · exact h.within users hold id hid
    · rcases eq_or_ne id call.id with heq | hne
      · cases hcall : call with
        | add client =>
          rw [hcall] at heq
          exact Or.inr ⟨client,hcall ▸ ha.mem,heq.symm⟩
        | remove removed =>
          rw [hcall] at hid
          exact h.within old (ha.read_live hread) id (List.mem_of_mem_erase hid)
      · exact h.within old (ha.read_live hread) id ((mem_effect_ne hne).mp hid)
  · intro users hl id hgoing
    rcases h.live hc ha hl with hold | ⟨hdone,old,hread,-,rfl⟩
    · exact h.kept users hold id fun hmem => ha.going_before (hgoing hmem)
    · refine (h.kept old (ha.read_live hread) id fun hmem => ha.going_before (hgoing hmem)).trans ?_
      cases call with
      | add client => exact (List.sublist_append_left old _).count_le id
      | remove removed =>
        have hne : id ≠ removed := by
          rintro rfl
          exact hgoing ha.mem hdone
        rw [effect, List.count_erase_of_ne hne]
  · intro users hl id
    rcases h.live hc ha hl with hold | ⟨hdone,old,hread,-,rfl⟩
    · exact h.nearly users hold id
    · have hlive := ha.read_live hread
      cases call with
      | add client =>
        have hle := (List.sublist_append_left old [client.getID]).count_le id
        exact (h.nearly old hlive id).trans (Nat.add_le_add_right hle 1)
      | remove removed =>
        rcases eq_or_ne id removed with rfl | hne
        · have hle := h.kept old hlive id fun _ => ha.going
          rw [effect, List.count_erase_self]
          omega
        · rw [effect, List.count_erase_of_ne hne]
          exact h.nearly old hlive id

theorem Progress.step (hc : Concurrent m₀ uid calls) (h : Progress m₀ uid calls s)
    (hstep : callStep calls s call = .ok s') : Progress m₀ uid calls s' := by
  rcases callStep_cases hstep with ⟨rfl,-⟩ | ha
  · exact h
  · exact h.active hc ha

theorem Concurrent.not_both (hc : Concurrent m₀ uid calls) {client : Client} {id : Int64}
    (hadd : .add client ∈ calls) (hremove : .remove id ∈ calls) : client.getID ≠ id := by
  intro hid
  cases hc.eq_of_id hremove hadd hid

theorem Progress.initially (hc : Concurrent m₀ uid calls) (h : Progress m₀ uid calls s) {id : Int64}
    (hmem : .remove id ∈ calls) (hl : Live uid calls s users) (hid : id ∈ users) : id ∈ m₀.ids uid := by
  rcases h.within users hl id hid with hinit | ⟨client,hadd,heq⟩
  · exact hinit
  · exact absurd heq (hc.not_both hadd hmem)

structure Tracks (m₀ : ClientManager) (uid : Bytes) (calls : List RegistryCall) (s : Interleaving) :
    Prop where
  each : (s.manager.ids uid).Nodup
  tracked : ∀ id, id ∈ s.manager.ids uid ↔
    (id ∈ m₀.ids uid ∨ ∃ client, .add client ∈ calls ∧ client.getID = id ∧ s.state id = .done) ∧
      ¬ (.remove id ∈ calls ∧ s.state id = .done)

theorem Tracks.exact (h : Tracks m₀ uid calls s) (hdone : ∀ call ∈ calls, s.state call.id = .done) :
    ExactIds m₀ uid calls s.manager := by
  refine ⟨h.each,fun id => ?_⟩
  rw [h.tracked id]
  constructor
  · rintro ⟨hin,hout⟩
    refine ⟨hin.imp_right fun ⟨client,hadd,heq,_⟩ => ⟨client,hadd,heq⟩,fun hremove => ?_⟩
    exact hout ⟨hremove,hdone _ hremove⟩
  · rintro ⟨hin,hout⟩
    refine ⟨hin.imp_right fun ⟨client,hadd,heq⟩ => ⟨client,hadd,heq,?_⟩,fun hremove => hout hremove.1⟩
    exact heq ▸ hdone _ hadd

theorem tracks_initial (hn : (m₀.ids uid).Nodup) : Tracks m₀ uid calls (.initial m₀) := by
  refine ⟨hn,fun id => ⟨fun hid => ⟨Or.inl hid,?_⟩,?_⟩⟩
  · rintro ⟨-,hdone⟩
    cases hdone
  · rintro ⟨hinit | ⟨client,-,-,hdone⟩,-⟩
    · exact hinit
    · cases hdone

theorem Current.read (h : Current uid s call) (hr : Read uid s.manager (s.state call.id) users)
    (hstores : Stores call users) :
    users = s.manager.ids uid ∧ ∀ client, call = .add client → client.getID ∉ users := by
  generalize hstate : s.state call.id = state at hr
  cases hr with
  | absent client hnone => exact ⟨hnone.symm,fun _ _ => List.not_mem_nil⟩
  | loaded client users =>
    cases call with
    | add c =>
      have hstate' : s.state c.getID = .loaded client users := hstate
      rw [Current, hstate'] at h
      refine ⟨h.1,fun c' heq => ?_⟩
      cases heq
      exact h.2
    | remove id =>
      have hstate' : s.state id = .loaded client users := hstate
      rw [Current, hstate'] at h
      exact ⟨h hstores,nofun⟩

theorem Passed.absent_now (hc : Concurrent m₀ uid calls) (h : Progress m₀ uid calls s)
    (ha : Active calls s call s') (hcur : Current uid s call)
    (hp : Passed uid call s.manager s'.manager (s.state call.id) (s'.state call.id)) :
    ∃ id, call = .remove id ∧ id ∉ s.manager.ids uid := by
  obtain ⟨id,rfl,hwhy⟩ := hp.absent
  refine ⟨id,rfl,fun hid => ?_⟩
  rcases hwhy with ⟨hstart,hnone⟩ | hempty | ⟨client,users,hloaded,hnot⟩
  · have hstart' : s.state id = .start := hstart
    rw [Current, hstart'] at hcur
    exact hcur hnone hid
  · rw [hempty] at hid
    cases hid
  · have hinit := h.initially hc ha.mem (Or.inl rfl) hid
    have hlive : Live uid calls s users := Or.inr ⟨_,ha.mem,client,hloaded⟩
    exact h.pending _ ha.mem ha.going (fun hnot => hnot hinit) users hlive hnot

theorem Tracks.active (hc : Concurrent m₀ uid calls) (h : Progress m₀ uid calls s)
    (ht : Tracks m₀ uid calls s) (ha : Active calls s call s') (hcur : Current uid s call) :
    Tracks m₀ uid calls s' := by
  have hothers : s'.manager.ids uid = s.manager.ids uid ∨
      s'.manager.ids uid = effect call (s.manager.ids uid) → ∀ id, id ≠ call.id →
      (id ∈ s'.manager.ids uid ↔
        (id ∈ m₀.ids uid ∨ ∃ client, .add client ∈ calls ∧ client.getID = id ∧ s'.state id = .done) ∧
          ¬ (.remove id ∈ calls ∧ s'.state id = .done)) := by
    intro hids id hne
    have hsame : id ∈ s'.manager.ids uid ↔ id ∈ s.manager.ids uid := by
      rcases hids with hids | hids
      · rw [hids]
      · rw [hids, mem_effect_ne hne]
    rw [hsame, ha.other id hne, ht.tracked id]
  rcases h.cases hc ha with hm | hp | hs
  · have hids := hm.ids
    refine ⟨hids ▸ ht.each,fun id => ?_⟩
    rcases eq_or_ne id call.id with rfl | hne
    · rw [hids, ht.tracked call.id]
      simp only [ha.going, hm.going, and_false, exists_false, or_false, not_false_eq_true]
    · exact hothers (Or.inl hids) id hne
  · obtain ⟨removed,rfl,hnot⟩ := Passed.absent_now hc h ha hcur hp
    refine ⟨hp.ids ▸ ht.each,fun id => ?_⟩
    rcases eq_or_ne id removed with rfl | hne
    · rw [hp.ids]
      exact ⟨fun hid => absurd hid hnot,fun hid => absurd ⟨ha.mem,hp.done⟩ hid.2⟩
    · exact hothers (Or.inl hp.ids) id hne
  · obtain ⟨users,hread,hstores,hids⟩ := hs.stored
    obtain ⟨rfl,hnew⟩ := hcur.read hread hstores
    cases call with
    | add client =>
      refine ⟨?_,fun id => ?_⟩
      · rw [hids]
        refine ht.each.append (List.nodup_singleton _) fun id hid hid' => ?_
        obtain rfl := List.mem_singleton.mp hid'
        exact hnew client rfl hid
      · rcases eq_or_ne id client.getID with rfl | hne
        · rw [hids]
          refine ⟨fun _ => ⟨Or.inr ⟨client,ha.mem,rfl,hs.done⟩,fun hremove => ?_⟩,fun _ => ?_⟩
          · exact hc.not_both ha.mem hremove.1 rfl
          · exact List.mem_append_right _ List.mem_cons_self
        · exact hothers (Or.inr hids) id hne
    | remove removed =>
      refine ⟨?_,fun id => ?_⟩
      · rw [hids]
        exact ht.each.erase removed
      · rcases eq_or_ne id removed with rfl | hne
        · rw [hids]
          exact ⟨fun hid => absurd hid ht.each.not_mem_erase,fun hid => absurd ⟨ha.mem,hs.done⟩ hid.2⟩
        · exact hothers (Or.inr hids) id hne

theorem current_of_done (h : s.state call.id = .done) : Current uid s call := by
  cases call with
  | add client =>
    have hdone : s.state client.getID = .done := h
    rw [Current, hdone]
    trivial
  | remove id =>
    have hdone : s.state id = .done := h
    rw [Current, hdone]
    trivial

theorem Tracks.step (hc : Concurrent m₀ uid calls) (h : Progress m₀ uid calls s)
    (ht : Tracks m₀ uid calls s) (hcur : call ∈ calls → Current uid s call)
    (hstep : callStep calls s call = .ok s') : Tracks m₀ uid calls s' := by
  rcases callStep_cases hstep with ⟨rfl,-⟩ | ha
  · exact ht
  · exact ht.active hc h ha (hcur ha.mem)

def Lost (uid : Bytes) (calls : List RegistryCall) (s : Interleaving) : Prop :=
  ∀ users, Live uid calls s users → ∃ call ∈ calls, s.state call.id = .done ∧ ¬ Took call users

def Explained (uid : Bytes) (calls : List RegistryCall) (s : Interleaving) : Prop :=
  ∀ call ∈ calls, ∀ client users, s.state call.id = .loaded client users →
    users = s.manager.ids uid ∨ ∃ d ∈ calls, s.state d.id = .done ∧ ¬ Took d users

theorem Progress.effective (hc : Concurrent m₀ uid calls) (hf : Fresh m₀ uid calls)
    (h : Progress m₀ uid calls s) (hmem : call ∈ calls) (hl : Live uid calls s users)
    (hstores : Stores call users) : Effective m₀ uid call := by
  cases call with
  | add client => exact hf client hmem
  | remove id => exact fun hnot => hnot (h.initially hc hmem hl hstores)

theorem Active.ne_of_done (ha : Active calls s call s') {id : Int64} (h : s.state id = .done) :
    id ≠ call.id := by
  rintro rfl
  exact ha.going h

theorem Explained.active (hc : Concurrent m₀ uid calls) (hf : Fresh m₀ uid calls)
    (h : Progress m₀ uid calls s) (he : Explained uid calls s) (ha : Active calls s call s') :
    Explained uid calls s' := by
  have hearlier : ∀ {c client users}, c ∈ calls → c.id ≠ call.id → s'.state c.id = .loaded client users →
      users = s.manager.ids uid ∨ ∃ d ∈ calls, s'.state d.id = .done ∧ ¬ Took d users := by
    intro c client users hcmem hid hstate
    rw [ha.other c.id hid] at hstate
    refine (he c hcmem client users hstate).imp_right ?_
    rintro ⟨d,hd,hdone,hnot⟩
    exact ⟨d,hd,ha.done_after hdone,hnot⟩
  rcases h.cases hc ha with hm | hp | hs
  · intro c hcmem client users hstate
    rw [hm.ids]
    rcases eq_or_ne c.id call.id with hid | hid
    · rw [hid] at hstate
      exact Or.inl (hm.loaded client users hstate)
    · exact hearlier hcmem hid hstate
  · intro c hcmem client users hstate
    rw [hp.ids]
    rcases eq_or_ne c.id call.id with hid | hid
    · rw [hid, hp.done] at hstate
      cases hstate
    · exact hearlier hcmem hid hstate
  · obtain ⟨old,hread,hstores,-⟩ := hs.stored
    have heff := h.effective hc hf ha.mem (ha.read_live hread) hstores
    intro c hcmem client users hstate
    rcases eq_or_ne c.id call.id with hid | hid
    · rw [hid, hs.done] at hstate
      cases hstate
    · right
      rw [ha.other c.id hid] at hstate
      exact ⟨call,ha.mem,hs.done,
        h.pending call ha.mem ha.going heff users (Or.inr ⟨c,hcmem,client,hstate⟩)⟩

theorem Lost.active (hc : Concurrent m₀ uid calls) (h : Progress m₀ uid calls s)
    (hl : Lost uid calls s) (ha : Active calls s call s') : Lost uid calls s' := by
  intro users hlive
  rcases h.live hc ha hlive with hold | ⟨-,old,hread,-,rfl⟩
  · obtain ⟨d,hd,hdone,hnot⟩ := hl users hold
    exact ⟨d,hd,ha.done_after hdone,hnot⟩
  · obtain ⟨d,hd,hdone,hnot⟩ := hl old (ha.read_live hread)
    refine ⟨d,hd,ha.done_after hdone,?_⟩
    rwa [took_effect_ne (ha.ne_of_done hdone)]

theorem Progress.lost (hc : Concurrent m₀ uid calls) (h : Progress m₀ uid calls s)
    (ha : Active calls s call s') (heff : Effective m₀ uid call) (hdone : s'.state call.id = .done)
    (hstale : ∀ old, Read uid s.manager (s.state call.id) old → Stores call old →
      ∃ d ∈ calls, s.state d.id = .done ∧ ¬ Took d old) : Lost uid calls s' := by
  intro users hlive
  rcases h.live hc ha hlive with hold | ⟨-,old,hread,hstores,rfl⟩
  · exact ⟨call,ha.mem,hdone,h.pending call ha.mem ha.going heff users hold⟩
  · obtain ⟨d,hd,hdone',hnot⟩ := hstale old hread hstores
    refine ⟨d,hd,ha.done_after hdone',?_⟩
    rwa [took_effect_ne (ha.ne_of_done hdone')]

theorem Explained.stale (he : Explained uid calls s) (hmem : call ∈ calls) {client : Client}
    (hstate : s.state call.id = .loaded client users) (hne : users ≠ s.manager.ids uid)
    (old : List Int64) (hread : Read uid s.manager (s.state call.id) old) :
    ∃ d ∈ calls, s.state d.id = .done ∧ ¬ Took d old := by
  rw [hstate] at hread
  cases hread
  exact (he call hmem client users hstate).resolve_left hne

theorem Active.done_of_loaded (hk : Known m₀ s.manager uid call (s.state call.id))
    (ha : Active calls s call s') {client : Client} (hstate : s.state call.id = .loaded client users)
    (hstores : Stores call users) : s'.state call.id = .done := by
  rw [ha.here, hstate]
  rw [hstate] at hk
  cases call with
  | add c => rfl
  | remove id =>
    have hid : client.getID = id := hk.2
    have hmem : id ∈ users := hstores
    rw [advance, advanceRemove, hid, if_pos hmem]

theorem Explained.lost (hc : Concurrent m₀ uid calls) (hf : Fresh m₀ uid calls)
    (h : Progress m₀ uid calls s) (he : Explained uid calls s) (hcur : ¬ Current uid s call)
    (ha : Active calls s call s') : Lost uid calls s' := by
  have hk := h.known call ha.mem
  cases call with
  | add client =>
    rw [Current] at hcur
    split at hcur
    · rename_i c users hstate
      have hlive : Live uid calls s users := Or.inr ⟨_,ha.mem,c,hstate⟩
      have heff : Effective m₀ uid (.add client) := hf client ha.mem
      have hnew : client.getID ∉ users := h.pending _ ha.mem ha.going heff users hlive
      have hdone := ha.done_of_loaded hk hstate trivial
      exact h.lost hc ha heff hdone fun old hread _ =>
        he.stale ha.mem hstate (fun heq => hcur ⟨heq,hnew⟩) old hread
    · exact absurd trivial hcur
  | remove id =>
    rw [Current] at hcur
    split at hcur
    · rename_i hstate
      have hstart : s.state (RegistryCall.remove id).id = .start := hstate
      simp only [Classical.not_imp, not_not] at hcur
      obtain ⟨hnone,hid⟩ := hcur
      have heff : Effective m₀ uid (.remove id) :=
        fun hnot => hnot (h.initially hc ha.mem (Or.inl rfl) hid)
      have hget : Assoc.get id s.manager.clientMap = none := hnone
      have hdone : s'.state (RegistryCall.remove id).id = .done := by
        rw [ha.here, hstart, advance, advanceRemove]
        simp only [hget]
      refine h.lost hc ha heff hdone fun old hread _ => ?_
      rw [hstart] at hread
      cases hread
    · rename_i c users hstate
      simp only [Classical.not_imp] at hcur
      have hlive : Live uid calls s users := Or.inr ⟨_,ha.mem,c,hstate⟩
      have heff := h.effective hc hf ha.mem hlive hcur.1
      have hdone := ha.done_of_loaded hk hstate hcur.1
      exact h.lost hc ha heff hdone fun old hread _ => he.stale ha.mem hstate hcur.2 old hread
    · exact absurd trivial hcur

theorem ExactIds.not_lost (hc : Concurrent m₀ uid calls) (h : ExactIds m₀ uid calls s.manager) :
    ¬ Lost uid calls s := by
  intro hl
  obtain ⟨call,hmem,-,hnot⟩ := hl _ (Or.inl rfl)
  cases call with
  | add client =>
    exact hnot ((h.exact client.getID).mpr
      ⟨Or.inr ⟨client,hmem,rfl⟩,fun hremove => hc.not_both hmem hremove rfl⟩)
  | remove id => exact ((h.exact id).mp (not_not.mp hnot)).2 hmem

theorem ExactIds.nodup (h : ExactIds m₀ uid calls s.manager) (hp : Progress m₀ uid calls s) :
    (m₀.ids uid).Nodup := by
  rw [List.nodup_iff_count_le_one]
  intro id
  rcases Classical.em (.remove id ∈ calls) with hremove | hstays
  · have hgone : id ∉ s.manager.ids uid := fun hid => ((h.exact id).mp hid).2 hremove
    have hle := hp.nearly _ (Or.inl rfl) id
    rwa [List.count_eq_zero.mpr hgone] at hle
  · exact (hp.kept _ (Or.inl rfl) id fun hremove => absurd hremove hstays).trans
      (List.nodup_iff_count_le_one.mp h.each id)

end Interleavings

section Runs

variable {m₀ : ClientManager} {uid : Bytes} {calls schedule : List RegistryCall} {s : Interleaving}

theorem callStep_total (calls : List RegistryCall) (s : Interleaving) (call : RegistryCall) :
    ∃ s', callStep calls s call = .ok s' := by
  rw [callStep]
  split
  · exact ⟨_,rfl⟩
  · exact ⟨_,rfl⟩

theorem tracks_run (hc : Concurrent m₀ uid calls) (hn : (m₀.ids uid).Nodup)
    (hm : Run.Meets (callStep calls) (fun s call => call ∈ calls → Current uid s call)
      (.initial m₀) schedule)
    (hr : Run.run (callStep calls) (.initial m₀) schedule = .ok s) : Tracks m₀ uid calls s := by
  have halways : Run.Always (callStep calls) (Tracks m₀ uid calls) (.initial m₀) schedule := by
    have hkeeps : ∀ s call, Progress m₀ uid calls s ∧ Tracks m₀ uid calls s →
        (call ∈ calls → Current uid s call) → ∃ s', callStep calls s call = .ok s' ∧
          Progress m₀ uid calls s' ∧ Tracks m₀ uid calls s' := by
      rintro s call ⟨hp,ht⟩ hcur
      obtain ⟨s',hstep⟩ := callStep_total calls s call
      exact ⟨s',hstep,hp.step hc hstep,ht.step hc hp hcur hstep⟩
    exact Run.always_of_invariant (fun _ h => h.2) hkeeps
      ⟨progress_initial m₀ uid calls,tracks_initial hn⟩ hm
  exact halways.last hr

theorem current_of_exact (hc : Concurrent m₀ uid calls) (hf : Fresh m₀ uid calls)
    (hr : Run.run (callStep calls) (.initial m₀) schedule = .ok s)
    (hexact : ExactIds m₀ uid calls s.manager) :
    Run.Meets (callStep calls) (fun s call => call ∈ calls → Current uid s call)
      (.initial m₀) schedule := by
  have hinv : ∀ s call s', Progress m₀ uid calls s ∧ Explained uid calls s →
      callStep calls s call = .ok s' → Progress m₀ uid calls s' ∧ Explained uid calls s' := by
    rintro s call s' ⟨hp,he⟩ hstep
    rcases callStep_cases hstep with ⟨rfl,-⟩ | ha
    · exact ⟨hp,he⟩
    · exact ⟨hp.active hc ha,he.active hc hf hp ha⟩
  refine Run.meets_of_kept hinv ?_ ?_ ⟨progress_initial m₀ uid calls,nofun⟩ hr (hexact.not_lost hc)
  · rintro s call s' ⟨hp,he⟩ hcur hstep
    obtain ⟨hmem,hcur⟩ := Classical.not_imp.mp hcur
    rcases callStep_cases hstep with ⟨rfl,hdone⟩ | ha
    · exact absurd (current_of_done (hdone hmem)) hcur
    · exact he.lost hc hf hp hcur ha
  · rintro s call s' ⟨hinv₁,hl⟩ hstep
    refine ⟨hinv s call s' hinv₁ hstep,?_⟩
    rcases callStep_cases hstep with ⟨rfl,-⟩ | ha
    · exact hl
    · exact hl.active hc hinv₁.1 ha

theorem progress_run (hc : Concurrent m₀ uid calls)
    (hr : Run.run (callStep calls) (.initial m₀) schedule = .ok s) : Progress m₀ uid calls s :=
  Run.run_keeps (fun _ _ _ h hstep => h.step hc hstep) (progress_initial m₀ uid calls) hr

end Runs

def KeepsCurrent (m₀ : ClientManager) (uid : Bytes) (calls schedule : List RegistryCall) : Prop :=
  (m₀.ids uid).Nodup ∧ Run.Meets (callStep calls) (fun s call => call ∈ calls → Current uid s call)
    (.initial m₀) schedule

instance (m₀ : ClientManager) (uid : Bytes) (calls schedule : List RegistryCall) :
    Decidable (KeepsCurrent m₀ uid calls schedule) :=
  inferInstanceAs (Decidable (_ ∧ _))

def device (id : Int64) : Client := ⟨id,[],0,0,[],[]⟩

def oneDevice : ClientManager := ClientManager.empty.add (device 1)

theorem concurrent_device (calls : List RegistryCall) (hd : (calls.map RegistryCall.id).Nodup)
    (ha : ∀ client, .add client ∈ calls → client.uid = []) : Concurrent oneDevice [] calls := by
  refine ⟨hd,ha,fun id client _ hget => ?_⟩
  have hclient : client = device 1 ∧ id = 1 := by
    simp only [oneDevice, ClientManager.empty, ClientManager.get, ClientManager.add, Assoc.put,
      Assoc.get] at hget
    split at hget
    · rename_i h
      exact ⟨(Option.some.inj hget).symm,h.symm⟩
    · cases hget
  obtain ⟨rfl,rfl⟩ := hclient
  exact ⟨rfl,rfl⟩

def switch : List RegistryCall := [.add (device 2),.remove 1]

def switchSchedule : List RegistryCall :=
  [.add (device 2),.remove 1,.add (device 2),.add (device 2),.remove 1,.remove 1]

def logins : List RegistryCall := [.add (device 2),.add (device 3)]

end LiMaoIM.Lim

import LiMaoIM.Db.Sequential

namespace LiMaoIM.Db

open Outcome

theorem topicName_injective {id id' : Bytes} {ty ty' : UInt8}
    (h : topicName id ty = topicName id' ty') : id = id' ∧ ty = ty' := by
  have hrev := congrArg List.reverse h
  rw [topicName, topicName, List.reverse_append, List.reverse_append, List.reverse_cons,
    List.reverse_cons, List.append_assoc, List.append_assoc, List.singleton_append,
    List.singleton_append] at hrev
  obtain ⟨hid,hty⟩ := Bytes.last_separator
    (fun hmem => FileDB.dash_not_mem_decimal _ (List.mem_reverse.mp hmem))
    (fun hmem => FileDB.dash_not_mem_decimal _ (List.mem_reverse.mp hmem)) hrev
  exact ⟨List.reverse_injective hid,
    UInt8.toNat_inj.mp (Bytes.decimal_injective (List.reverse_injective hty))⟩

inductive StoredLog where
  | channel (channelID : Bytes) (channelType : UInt8)
  | user (uid : Bytes)
deriving DecidableEq, Repr

namespace StoredLog

def slot (f : FileDB) : StoredLog → Outcome Nat
  | channel channelID channelType => f.slotNumForChannel channelID channelType
  | user uid => f.slotNum uid

def topic : StoredLog → Bytes
  | channel channelID channelType => topicName channelID channelType
  | user uid => uid

def Holds (m : Message) : StoredLog → Prop
  | channel channelID channelType => m.channelID = channelID ∧ m.channelType = channelType
  | user uid => m.queueUID = uid

def append (m : Message) : StoredLog → Exec Store Nat
  | channel _ _ => Store.appendMessage m
  | user _ => Store.appendMessageOfUser m

def messages (offset : UInt32) (limit : UInt64) : StoredLog → Exec Store (List Message)
  | channel channelID channelType => Store.getMessages channelID channelType offset limit
  | user uid => Store.getMessagesOfUser uid offset limit

def nextSeq : StoredLog → Exec Store UInt32
  | channel channelID channelType => Store.getNextMessageSeq channelID channelType
  | user uid => Store.getUserNextMessageSeq uid

def lastSeq (st : Store) (log : StoredLog) : Outcome UInt32 := do
  let slot ← log.slot st.db
  st.getLastSeq slot log.topic

structure SeenAlike (log : StoredLog) (st st' : Store) : Prop where
  messages : ∀ offset limit, (log.messages offset limit st).1 = (log.messages offset limit st').1
  nextSeq : (log.nextSeq st).1 = (log.nextSeq st').1
  lastSeq : log.lastSeq st = log.lastSeq st'

structure Separate (slotCount : Nat) (log log' : StoredLog) : Prop where
  place : ∀ (st : Store) (slot slot' : Nat), st.db.slotCount = slotCount →
    log.slot st.db = .ok slot → log'.slot st.db = .ok slot' → (slot,log.topic) ≠ (slot',log'.topic)
  unchanged : ∀ (st : Store) (m : Message), st.db.slotCount = slotCount → log.Holds m →
    SeenAlike log' st (log.append m st).2

def Collides (slotCount : Nat) (channelID : Bytes) (channelType : UInt8) (uid : Bytes) : Prop :=
  uid = topicName channelID channelType ∧
    ∃ slot, getSlotNum slotCount channelID = .ok slot ∧ getSlotNum slotCount uid = .ok slot

def Clash (slotCount : Nat) : StoredLog → StoredLog → Prop
  | channel channelID channelType, user uid => Collides slotCount channelID channelType uid
  | user uid, channel channelID channelType => Collides slotCount channelID channelType uid
  | channel _ _, channel _ _ => False
  | user _, user _ => False

variable {slotCount : Nat} {log log' : StoredLog} {st st' : Store} {m : Message}

theorem place_ne (hne : log ≠ log') (hclash : ¬ Clash slotCount log log') {f : FileDB}
    (hf : f.slotCount = slotCount) {slot slot' : Nat} (hslot : log.slot f = .ok slot)
    (hslot' : log'.slot f = .ok slot') : (slot,log.topic) ≠ (slot',log'.topic) := by
  intro heq
  obtain ⟨rfl,htopic⟩ := Prod.mk.inj heq
  subst hf
  cases log with
  | channel id ty =>
    cases log' with
    | channel id' ty' =>
      obtain ⟨rfl,rfl⟩ := topicName_injective htopic
      exact hne rfl
    | user uid => exact hclash ⟨htopic.symm,slot,hslot,hslot'⟩
  | user uid =>
    cases log' with
    | channel id ty => exact hclash ⟨htopic,slot,hslot',hslot⟩
    | user uid' => exact hne (congrArg user htopic)

theorem place_eq_of_clash (h : Clash slotCount log log') {f : FileDB}
    (hf : f.slotCount = slotCount) :
    ∃ slot, log.slot f = .ok slot ∧ log'.slot f = .ok slot ∧ log.topic = log'.topic := by
  subst hf
  cases log with
  | channel id ty =>
    cases log' with
    | channel id' ty' => exact h.elim
    | user uid =>
      obtain ⟨huid,slot,hid,hslot⟩ := h
      exact ⟨slot,hid,hslot,huid.symm⟩
  | user uid =>
    cases log' with
    | channel id ty =>
      obtain ⟨huid,slot,hid,hslot⟩ := h
      exact ⟨slot,hslot,hid,huid⟩
    | user uid' => exact h.elim

theorem append_cases (hm : log.Holds m) (st : Store) :
    (log.append m st).2 = st ∨ ∃ slot t, log.slot st.db = .ok slot ∧
      (log.append m st).2 = st.putTopic slot log.topic t := by
  have hto : ∀ (r : Outcome Nat) (topic : Bytes),
      ((Exec.lift r >>= fun slot => Store.appendMessageTo slot topic m) st).2 = st ∨
        ∃ slot t, r = .ok slot ∧
          ((Exec.lift r >>= fun slot => Store.appendMessageTo slot topic m) st).2 =
            st.putTopic slot topic t := by
    intro r topic
    cases r with
    | ok slot =>
      right
      refine ⟨slot,(Topic.appendLog m.toLog (st.topicAt slot topic)).2,rfl,?_⟩
      rw [Exec.bind_of_ok (Exec.lift_apply _), Store.appendMessageTo, Store.onTopic_eq]
    | error e => exact Or.inl (congrArg Prod.snd (Exec.bind_of_error rfl))
    | panic e => exact Or.inl (congrArg Prod.snd (Exec.bind_of_panic rfl))
  cases log with
  | channel id ty =>
    obtain ⟨rfl,rfl⟩ := hm
    exact hto _ _
  | user uid =>
    obtain rfl := hm
    rw [append, Store.appendMessageOfUser]
    split
    · exact Or.inl rfl
    · exact hto _ _

theorem seenAlike (hdb : st'.db = st.db) (htopic : ∀ slot, log.slot st.db = .ok slot →
    st'.topicAt slot log.topic = st.topicAt slot log.topic) : SeenAlike log st st' := by
  have hon : ∀ {α : Type} (slot : Nat) (x : Exec Topic α), log.slot st.db = .ok slot →
      (Store.onTopic slot log.topic x st).1 = (Store.onTopic slot log.topic x st').1 := by
    intro α slot x hslot
    rw [Store.onTopic_eq, Store.onTopic_eq, htopic slot hslot]
  refine ⟨fun offset limit => ?_,?_,?_⟩
  · cases log with
    | channel id ty =>
      rw [messages, Store.getMessages, Exec.get_bind, Exec.get_bind, hdb]
      exact Exec.lift_bind_fst fun slot hslot => hon slot _ hslot
    | user uid =>
      rw [messages, Store.getMessagesOfUser, Exec.get_bind, Exec.get_bind,
        Store.getMessageOfUserCursor, Store.getMessageOfUserCursor, hdb]
      refine Exec.lift_bind_fst fun slot hslot => Exec.lift_bind_fst fun maxOffset _ => ?_
      exact Exec.bind_fst (Exec.ignoreError_fst (hon slot _ hslot)) fun _ _ _ => rfl
  · cases log with
    | channel id ty =>
      rw [nextSeq, Store.getNextMessageSeq, Exec.get_bind, Exec.get_bind, hdb]
      exact Exec.lift_bind_fst fun slot hslot => hon slot _ hslot
    | user uid =>
      rw [nextSeq, Store.getUserNextMessageSeq, Exec.get_bind, Exec.get_bind, hdb]
      exact Exec.lift_bind_fst fun slot hslot => hon slot _ hslot
  · rw [lastSeq, lastSeq, hdb]
    cases hslot : log.slot st.db with
    | ok slot => rw [ok_bind, ok_bind, Store.getLastSeq, Store.getLastSeq, Store.getTopic_eq,
        Store.getTopic_eq, htopic slot hslot]
    | error e => rfl
    | panic e => rfl

end StoredLog
end LiMaoIM.Db

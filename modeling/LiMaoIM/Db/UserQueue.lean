import LiMaoIM.Foundation.Run
import LiMaoIM.Db.Store
import LiMaoIM.Db.OrderedReads

namespace LiMaoIM.Db

open Outcome

inductive QueueOp where
  | append (m : Message)
  | ack (uid : Bytes) (offset : UInt32)
  | sync (uid : Bytes) (offset : UInt32) (limit : UInt64)

structure QueueSession where
  store : Store
  highest : Bytes → UInt32
  returned : List (Bytes × Message)

def Store.userTopic (st : Store) (uid : Bytes) : Outcome Topic := do
  let slot ← st.db.slotNum uid
  st.getTopic slot uid

namespace QueueSession

def initial (slotCount : Nat) (segmentMaxBytes : Int) : QueueSession :=
  ⟨newStore slotCount segmentMaxBytes,fun _ => 0,[]⟩

def cursor (s : QueueSession) (uid : Bytes) : UInt32 :=
  match s.store.getMessageOfUserCursor uid with
  | .ok c => c
  | _ => 0

def after (s : QueueSession) (store : Store) (returned : List (Bytes × Message)) : QueueSession :=
  ⟨store,fun uid => max (s.highest uid) (s.cursor uid),returned⟩

end QueueSession

def enqueue (m : Message) : Exec Store Nat := do
  let seq ← Store.getUserNextMessageSeq m.queueUID
  Store.appendMessageOfUser (m.withSeq seq)

def queueStep (s : QueueSession) : QueueOp → Outcome QueueSession
  | .append m =>
      match enqueue m s.store with
      | (.panic e,_) => .panic e
      | (_,store) => .ok (s.after store [])
  | .ack uid offset =>
      match Store.updateMessageOfUserCursorIfNeed uid offset s.store with
      | (.panic e,_) => .panic e
      | (_,store) => .ok (s.after store [])
  | .sync uid offset limit =>
      match Store.getMessagesOfUser uid offset limit s.store with
      | (.ok messages,store) => .ok (s.after store (messages.map fun m => (uid,m)))
      | (_,store) => .ok (s.after store [])

structure CursorsSound (s : QueueSession) : Prop where
  cursor : ∀ uid, ∃ c t, s.store.getMessageOfUserCursor uid = .ok c ∧ s.store.userTopic uid = .ok t ∧
    s.highest uid ≤ c ∧ c ≤ t.getLastSeq
  returned : ∀ e ∈ s.returned, s.highest e.1 < e.2.messageSeq

def Advances (s : QueueSession) : QueueOp → Prop
  | .append m => (s.store.userTopic m.queueUID).All fun t =>
      t.lastSeq.toNat + 1 < 2 ^ 32 ∧ t.Roomy (m.withSeq (t.lastSeq + 1)).toLog
  | .ack uid offset => (s.store.userTopic uid).All fun t =>
      s.cursor uid = t.lastSeq → t.lastSeq ≤ offset
  | .sync uid offset _ => offset.toNat + 1 < 2 ^ 32 ∧ (s.cursor uid).toNat + 1 < 2 ^ 32

instance (s : QueueSession) : (op : QueueOp) → Decidable (Advances s op)
  | .append m => inferInstanceAs (Decidable ((s.store.userTopic m.queueUID).All _))
  | .ack uid _ => inferInstanceAs (Decidable ((s.store.userTopic uid).All _))
  | .sync _ _ _ => inferInstanceAs (Decidable (_ ∧ _))

structure UserState (slotCount : Nat) (st : Store) (uid : Bytes) (t : Topic) (parts : Parts)
    (c : UInt32) : Prop where
  topic : st.getTopic (slotOf slotCount uid) uid = .ok t
  browsable : Browsable t parts
  bases : ∀ b ∈ Assoc.keys parts, b.toInt ≤ t.lastSeq.toNat
  records : ∀ l ∈ parts.flat, l.offset.toInt ≤ t.lastSeq.toNat ∧ ∃ m : Message, l = m.toLog
  memory : ∀ l, t.lastMemLog = some l → l.offset.toInt ≤ t.lastSeq.toNat
  stored : st.db.entry (slotOf slotCount uid) (getMessageOfUserCursorKey uid) = none ∧ c = 0 ∨
    st.db.entry (slotOf slotCount uid) (getMessageOfUserCursorKey uid) =
      some (Bytes.decimal c.toNat)
  bound : c ≤ t.lastSeq

section Frame

variable {slotCount : Nat} {st : Store} {uid uid' : Bytes} {t t' : Topic} {parts : Parts}
  {c : UInt32}

theorem UserState.putTopic_other (h : UserState slotCount st uid t parts c) (hne : uid ≠ uid') :
    UserState slotCount (st.putTopic (slotOf slotCount uid') uid' t') uid t parts c := by
  refine ⟨?_,h.browsable,h.bases,h.records,h.memory,h.stored,h.bound⟩
  rw [Store.getTopic_putTopic_ne (fun heq => hne (Prod.mk.inj heq).2)]
  exact h.topic

theorem getMessageOfUserCursorKey_ne (hne : uid ≠ uid') :
    getMessageOfUserCursorKey uid ≠ getMessageOfUserCursorKey uid' :=
  fun heq => hne (List.append_cancel_left heq)

theorem UserState.put_other (h : UserState slotCount st uid t parts c) (hne : uid ≠ uid')
    (slot : Nat) (value : Bytes) :
    UserState slotCount { st with db := st.db.put slot (getMessageOfUserCursorKey uid') value }
      uid t parts c := by
  refine ⟨h.topic,h.browsable,h.bases,h.records,h.memory,?_,h.bound⟩
  rw [FileDB.entry_put_ne (Or.inr (getMessageOfUserCursorKey_ne hne))]
  exact h.stored

theorem cursorOf_decimal (c : UInt32) : cursorOf (some (Bytes.decimal c.toNat)) = c := by
  have hlt := c.toNat_lt
  rw [cursorOf, Option.getD_some, if_pos (Bytes.length_decimal_pos _),
    Bytes.parseUint_decimal (by omega), UInt32.ofNat_toNat]

theorem UserState.cursorOf (h : UserState slotCount st uid t parts c) :
    cursorOf (st.db.entry (slotOf slotCount uid) (getMessageOfUserCursorKey uid)) = c := by
  rcases h.stored with ⟨hnone,rfl⟩ | hsome
  · rw [hnone]
    rfl
  · rw [hsome, cursorOf_decimal]

structure Frame (slotCount : Nat) (uid : Bytes) (st st' : Store) : Prop where
  count : st'.db.slotCount = st.db.slotCount
  others : ∀ uid' ≠ uid, ∀ t parts c, UserState slotCount st uid' t parts c →
    UserState slotCount st' uid' t parts c

theorem Frame.trans {st₁ st₂ : Store} (h : Frame slotCount uid st st₁)
    (h' : Frame slotCount uid st₁ st₂) : Frame slotCount uid st st₂ :=
  ⟨h'.count.trans h.count,fun u hu t parts c hs => h'.others u hu t parts c (h.others u hu t parts c hs)⟩

theorem frame_putTopic (slotCount : Nat) (st : Store) (uid : Bytes) (t' : Topic) :
    Frame slotCount uid st (st.putTopic (slotOf slotCount uid) uid t') :=
  ⟨rfl,fun _ hu _ _ _ hs => hs.putTopic_other hu⟩

theorem frame_put (slotCount : Nat) (st : Store) (uid : Bytes) (slot : Nat) (value : Bytes) :
    Frame slotCount uid st { st with db := st.db.put slot (getMessageOfUserCursorKey uid) value } :=
  ⟨rfl,fun _ hu _ _ _ hs => hs.put_other hu slot value⟩

end Frame

section Steps

variable {slotCount : Nat} (hn : slotCount % 2 ^ 32 ≠ 0) {st : Store} {uid : Bytes} {t : Topic}
  {parts : Parts} {c : UInt32} (hcount : st.db.slotCount = slotCount)
include hn hcount

theorem slotNum_eq (uid : Bytes) : st.db.slotNum uid = .ok (slotOf slotCount uid) := by
  rw [FileDB.slotNum, hcount, getSlotNum_ok hn]

theorem userTopic_eq (h : UserState slotCount st uid t parts c) : st.userTopic uid = .ok t := by
  rw [Store.userTopic, slotNum_eq hn hcount, ok_bind, h.topic]

theorem get_eq (uid : Bytes) : st.db.get (slotOf slotCount uid) (getMessageOfUserCursorKey uid) =
    .ok (st.db.entry (slotOf slotCount uid) (getMessageOfUserCursorKey uid)) := by
  have hlt := slotOf_lt hn uid
  rw [FileDB.get, FileDB.getSlotBucket, hcount, if_pos hlt]
  rfl

theorem cursor_eq (h : UserState slotCount st uid t parts c) :
    st.getMessageOfUserCursor uid = .ok c := by
  rw [Store.getMessageOfUserCursor, slotNum_eq hn hcount, ok_bind, get_eq hn hcount, ok_bind,
    h.cursorOf]
  rfl

end Steps

section Append

variable {slotCount : Nat} {st : Store} {uid : Bytes} {t t' : Topic} {parts parts' : Parts}
  {c : UInt32}

theorem UserState.putTopic (h : UserState slotCount st uid t parts c) (hb : Browsable t' parts')
    (hle : t.lastSeq ≤ t'.lastSeq) (hbases : ∀ b ∈ Assoc.keys parts', b.toInt ≤ t'.lastSeq.toNat)
    (hrecords : ∀ l ∈ parts'.flat, l.offset.toInt ≤ t'.lastSeq.toNat ∧ ∃ m : Message, l = m.toLog)
    (hmemory : ∀ l, t'.lastMemLog = some l → l.offset.toInt ≤ t'.lastSeq.toNat) :
    UserState slotCount (st.putTopic (slotOf slotCount uid) uid t') uid t' parts' c :=
  ⟨Store.getTopic_putTopic_self,hb,hbases,hrecords,hmemory,h.stored,
    UInt32.le_trans h.bound hle⟩

theorem UserState.next (h : UserState slotCount st uid t parts c)
    (hlast : t.lastSeq.toNat + 1 < 2 ^ 32) :
    UserState slotCount (st.putTopic (slotOf slotCount uid) uid t.nextOffset.2) uid t.nextOffset.2
      parts c := by
  have hnext := lastSeq_next hlast
  have hseq : t.nextOffset.2.lastSeq.toNat = t.lastSeq.toNat + 1 := hnext
  have hb := h.browsable
  refine h.putTopic ⟨⟨hb.layout.dir,hb.layout.aligned,hb.layout.active⟩,hb.bases,hb.nonneg,hb.sorted,
    hb.segments,hb.views,hb.cache,hb.marked,hb.position⟩ ?_ ?_ ?_ ?_
  · rw [UInt32.le_iff_toNat_le, hseq]
    omega
  · intro b hb
    have hle := h.bases b hb
    omega
  · intro l hl
    obtain ⟨hle,hm⟩ := h.records l hl
    exact ⟨by omega,hm⟩
  · intro l hl
    have hle := h.memory l hl
    omega

theorem UserState.appended (h : UserState slotCount st uid t parts c) {m : Message}
    (hseq : m.messageSeq = t.lastSeq) (hold : ∀ b ∈ Assoc.keys parts, b.toInt < t.lastSeq.toNat)
    (hrec : ∀ l ∈ parts.flat, l.offset.toInt < t.lastSeq.toNat)
    (hmem : ∀ l, t.lastMemLog = some l → l.offset.toInt < t.lastSeq.toNat)
    (hroom : t.Roomy m.toLog) :
    ∃ r t' parts', Topic.appendLog m.toLog t = (r,t') ∧ ¬ r.Panics ∧
      UserState slotCount (st.putTopic (slotOf slotCount uid) uid t') uid t' parts' c := by
  have hint := m.toInt_offset
  have hlt := m.messageSeq.toNat_lt
  have hfresh : t.alreadyAppended m.toLog = false := by
    rw [Topic.alreadyAppended]
    split
    · rename_i l hl
      have hle := hmem l hl
      apply decide_eq_false
      rw [Int64.le_iff_toInt_le, hint, hseq]
      omega
    · rfl
  have habove : Above parts m.toLog := by
    refine ⟨?_,?_,?_,?_⟩
    · intro b hb
      rw [Int64.lt_iff_toInt_lt, hint, hseq]
      exact hold b hb
    · intro l hl
      rw [Int64.lt_iff_toInt_lt, hint, hseq]
      exact hrec l hl
    · rw [hint]
      omega
    · rw [hint]
      omega
  obtain ⟨r,t',parts',hrun,hpanic,hb,hlast,hmemory,hgrown⟩ := h.browsable.appendLog hfresh habove hroom
  have hsame : t'.lastSeq = t.lastSeq := by
    rw [hlast, Topic.remember, m.seq_offset, hseq]
    exact ite_self _
  refine ⟨r,t',parts',hrun,hpanic,h.putTopic hb ?_ ?_ ?_ ?_⟩
  · rw [hsame]
    exact UInt32.le_refl _
  · intro b hb
    rw [hsame]
    rcases hgrown.bases b hb with hb | rfl
    · exact h.bases b hb
    · rw [hint, hseq]
  · intro l hl
    rw [hsame]
    rcases hgrown.records l hl with hl | rfl
    · exact h.records l hl
    · exact ⟨by rw [hint, hseq],m,rfl⟩
  · intro l hl
    rw [hmemory] at hl
    cases hl
    rw [hsame, hint, hseq]

end Append

section Operations

variable {slotCount : Nat} (hn : slotCount % 2 ^ 32 ≠ 0) {st : Store} {uid : Bytes} {t : Topic}
  {parts : Parts} {c : UInt32} (hcount : st.db.slotCount = slotCount)
include hn hcount

theorem UserState.enqueue {m : Message} (h : UserState slotCount st m.queueUID t parts c)
    (hlast : t.lastSeq.toNat + 1 < 2 ^ 32) (hroom : t.Roomy (m.withSeq (t.lastSeq + 1)).toLog) :
    ∃ r st' t' parts', enqueue m st = (r,st') ∧ ¬ r.Panics ∧ Frame slotCount m.queueUID st st' ∧
      UserState slotCount st' m.queueUID t' parts' c := by
  obtain ⟨st₁,hst₁⟩ : ∃ x, st.putTopic (slotOf slotCount m.queueUID) m.queueUID t.nextOffset.2 = x :=
    ⟨_,rfl⟩
  have hseq : Store.getUserNextMessageSeq m.queueUID st = (.ok (t.lastSeq + 1),st₁) := by
    rw [Store.getUserNextMessageSeq, Exec.get_bind, slotNum_eq hn hcount,
      Exec.bind_of_ok (Exec.lift_apply _), Store.nextOffset, Store.onTopic_ok h.topic, ← hst₁]
    rfl
  have h₁ := h.next hlast
  have hframe := frame_putTopic slotCount st m.queueUID t.nextOffset.2
  rw [hst₁] at h₁ hframe
  have hnext := lastSeq_next hlast
  have hrun : Db.enqueue m st = Store.appendMessageOfUser (m.withSeq (t.lastSeq + 1)) st₁ := by
    rw [Db.enqueue, Exec.bind_of_ok hseq]
  rw [hrun, Store.appendMessageOfUser]
  split
  · refine ⟨_,st₁,_,_,rfl,?_,hframe,h₁⟩
    rintro ⟨e,he⟩
    cases he
  · have hnew : t.nextOffset.2.lastSeq.toNat = t.lastSeq.toNat + 1 := hnext
    obtain ⟨r,t',parts',happ,hpanic,h₂⟩ := h₁.appended (m := m.withSeq (t.lastSeq + 1)) rfl
      (fun b hb => by have := h.bases b hb; omega) (fun l hl => by have := (h.records l hl).1; omega)
      (fun l hl => by have := h.memory l hl; omega) hroom
    refine ⟨r,_,t',parts',?_,hpanic,hframe.trans (frame_putTopic slotCount st₁ m.queueUID t'),h₂⟩
    have hcount₁ : st₁.db.slotCount = slotCount := hframe.count.trans hcount
    have hslot : st₁.db.slotNum (m.withSeq (t.lastSeq + 1)).queueUID =
        .ok (slotOf slotCount m.queueUID) := slotNum_eq hn hcount₁ m.queueUID
    rw [Exec.get_bind, hslot, Exec.bind_of_ok (Exec.lift_apply _), Store.appendMessageTo]
    have hopen := Store.onTopic_ok (x := Topic.appendLog (m.withSeq (t.lastSeq + 1)).toLog) h₁.topic
    rw [happ] at hopen
    exact hopen

theorem UserState.acknowledge (h : UserState slotCount st uid t parts c) (offset : UInt32)
    (hc : c = t.lastSeq → t.lastSeq ≤ offset) :
    ∃ st' c', Store.updateMessageOfUserCursorIfNeed uid offset st = (.ok (),st') ∧ c ≤ c' ∧
      Frame slotCount uid st st' ∧ UserState slotCount st' uid t parts c' := by
  obtain ⟨st₁,hst₁⟩ : ∃ x, st.putTopic (slotOf slotCount uid) uid t = x := ⟨_,rfl⟩
  have h₁ := h.putTopic h.browsable (UInt32.le_refl _) h.bases h.records h.memory
  have hframe := frame_putTopic slotCount st uid t
  rw [hst₁] at h₁ hframe
  have hread : Store.onTopic (slotOf slotCount uid) uid (Exec.state fun t => (t.getLastSeq,t)) st =
      (.ok t.lastSeq,st₁) := by
    rw [Store.onTopic_ok h.topic, ← hst₁]
    rfl
  obtain ⟨act,hact⟩ : ∃ a, (if t.lastSeq < offset then t.lastSeq else offset) = a := ⟨_,rfl⟩
  have hle : act ≤ t.lastSeq := by
    rw [← hact]
    split
    · exact UInt32.le_refl _
    · rename_i hlt
      exact UInt32.not_lt.mp hlt
  have hdb : st.db = st₁.db := by
    rw [← hst₁]
    rfl
  have hset : st.db.set (slotOf slotCount uid) (getMessageOfUserCursorKey uid)
      (Bytes.decimal act.toNat) = .ok (st₁.db.put (slotOf slotCount uid)
        (getMessageOfUserCursorKey uid) (Bytes.decimal act.toNat)) := by
    rw [FileDB.set, FileDB.getSlotBucket, hcount, if_pos (slotOf_lt hn uid), ← hdb]
    rfl
  rw [Store.updateMessageOfUserCursorIfNeed, Exec.get_bind, slotNum_eq hn hcount,
    Exec.bind_of_ok (Exec.lift_apply _), Exec.bind_of_ok hread, get_eq hn hcount,
    Exec.bind_of_ok (Exec.lift_apply _)]
  simp only [hact, h.cursorOf]
  split
  · exact ⟨st₁,c,rfl,UInt32.le_refl c,hframe,h₁⟩
  · rename_i hguard
    rw [hset, Exec.bind_of_ok (Exec.lift_apply _)]
    refine ⟨_,act,rfl,?_,hframe.trans (frame_put slotCount st₁ uid (slotOf slotCount uid) _),?_⟩
    · rcases h.stored with ⟨-,rfl⟩ | hsome
      · exact UInt32.zero_le
      · rw [hsome, Option.getD_some] at hguard
        by_contra hlt
        have hback : act < c := UInt32.not_le.mp hlt
        have hfull : c = t.lastSeq := by
          apply UInt32.le_antisymm h.bound
          apply UInt32.not_lt.mp
          exact fun hless => hguard ⟨Bytes.length_decimal_pos _,UInt32.le_of_lt hback,hless⟩
        have hreach : act = t.lastSeq := by
          rw [← hact]
          split
          · rfl
          · rename_i hnot
            exact UInt32.le_antisymm (UInt32.not_lt.mp hnot) (hc hfull)
        rw [hreach, hfull] at hback
        exact UInt32.lt_irrefl _ hback
    · refine ⟨?_,h₁.browsable,h₁.bases,h₁.records,h₁.memory,Or.inr ?_,hle⟩
      · exact h₁.topic
      · exact FileDB.entry_put_self _ _ _ _

omit hn hcount in
theorem collectUntilError_above {o : Int64} {m : Message} (ho : (c.toNat : Int) < o.toInt)
    (hle : o ≤ m.toLog.offset) {a a' : List Message × Bool} (ha : ∀ x ∈ a.1, c < x.messageSeq)
    (h : collectUntilError a m.toLog.data = .ok a') : ∀ x ∈ a'.1, c < x.messageSeq := by
  obtain ⟨messages,stopped⟩ := a
  cases stopped with
  | true =>
    cases h
    exact ha
  | false =>
    rw [collectUntilError] at h
    split at h
    · rename_i m' rest hm'
      cases h
      intro x hx
      rcases List.mem_append.mp hx with hx | hx
      · exact ha x hx
      · rw [List.mem_singleton.mp hx, messageSeq_unmarshalMessage hm', UInt32.lt_iff_toNat_lt]
        rw [Int64.le_iff_toInt_le, m.toInt_offset] at hle
        omega
    · cases h
      exact ha
    · cases h

theorem UserState.synchronize (h : UserState slotCount st uid t parts c) {offset : UInt32}
    (limit : UInt64) (hoffset : offset.toNat + 1 < 2 ^ 32) (hc : c.toNat + 1 < 2 ^ 32) :
    ∃ r st' t', Store.getMessagesOfUser uid offset limit st = (r,st') ∧ Frame slotCount uid st st' ∧
      UserState slotCount st' uid t' parts c ∧ ∀ ms, r = .ok ms → ∀ m ∈ ms, c < m.messageSeq := by
  obtain ⟨offst,hoffst⟩ : ∃ o, (if offset < c then c else offset) = o := ⟨_,rfl⟩
  have hstart : (c.toNat : Int) < (offst + 1).toUInt64.toInt64.toInt := by
    have hnext : (offst + 1).toNat = offst.toNat + 1 ∧ c.toNat ≤ offst.toNat := by
      rw [← hoffst, UInt32.toNat_add]
      split
      · exact ⟨Nat.mod_eq_of_lt hc,Nat.le_refl _⟩
      · rename_i hlt
        exact ⟨Nat.mod_eq_of_lt hoffset,UInt32.le_iff_toNat_le.mp (UInt32.not_lt.mp hlt)⟩
    rw [toInt_toInt64]
    omega
  have hread : (Topic.readLogs (offst + 1).toUInt64.toInt64 limit collectUntilError
      ([],false)).Ensures t (Browsed t parts) fun a _ => ∀ x ∈ a.1, c < x.messageSeq := by
    apply h.browsable.readLogs_ensures
    · exact fun x hx => absurd hx List.not_mem_nil
    · intro l hl ho a a' ha hrun
      obtain ⟨-,m,rfl⟩ := h.records l hl
      exact collectUntilError_above hstart ho ha hrun
  have hopen : (Store.onTopic (slotOf slotCount uid) uid (Topic.readLogs
      (offst + 1).toUInt64.toInt64 limit collectUntilError ([],false))).Ensures st
        (fun st' => ∃ t', Frame slotCount uid st st' ∧ UserState slotCount st' uid t' parts c)
        fun a _ => ∀ x ∈ a.1, c < x.messageSeq := by
    obtain ⟨hkeep,hpost⟩ := hread
    constructor
    · rw [Store.onTopic_ok h.topic]
      refine ⟨_,frame_putTopic slotCount st uid _,h.putTopic hkeep.browsable
        (UInt32.le_of_eq hkeep.lastSeq.symm) ?_ ?_ ?_⟩
      · rw [hkeep.lastSeq]
        exact h.bases
      · rw [hkeep.lastSeq]
        exact h.records
      · rw [hkeep.lastSeq, hkeep.lastMemLog]
        exact h.memory
    · rw [Store.onTopic_ok h.topic]
      exact hpost
  have hcaught := hopen.ignoreError (d := ([],false)) fun _ _ x hx => absurd hx List.not_mem_nil
  have hfinal := hcaught.bind (f := fun a => pure a.1) (R := fun ms _ => ∀ m ∈ ms, c < m.messageSeq)
    fun a st' hst' ha => .pure hst' ha
  have heq : Store.getMessagesOfUser uid offset limit st = (Exec.ignoreError ([],false)
      (Store.onTopic (slotOf slotCount uid) uid (Topic.readLogs (offst + 1).toUInt64.toInt64 limit
        collectUntilError ([],false))) >>= fun a => pure a.1) st := by
    rw [Store.getMessagesOfUser, Exec.get_bind, slotNum_eq hn hcount,
      Exec.bind_of_ok (Exec.lift_apply _), cursor_eq hn hcount h,
      Exec.bind_of_ok (Exec.lift_apply _), hoffst]
  obtain ⟨⟨t',hframe,hstate⟩,hpost⟩ := hfinal
  rw [← heq] at hframe hstate hpost
  exact ⟨_,_,t',rfl,hframe,hstate,hpost⟩

end Operations

structure QueueInv (slotCount : Nat) (s : QueueSession) : Prop where
  count : s.store.db.slotCount = slotCount
  users : ∀ uid, ∃ t parts c, UserState slotCount s.store uid t parts c ∧ s.highest uid ≤ c
  returned : ∀ e ∈ s.returned, s.highest e.1 < e.2.messageSeq

section Session

variable {slotCount : Nat} {s : QueueSession}

theorem userState_fresh {st : Store} {uid : Bytes}
    (ht : Assoc.get (slotOf slotCount uid,uid) st.topics = none)
    (he : st.db.entry (slotOf slotCount uid) (getMessageOfUserCursorKey uid) = none) :
    UserState slotCount st uid (freshTopic st.segmentMaxBytes) [(0,[])] 0 := by
  refine ⟨Store.getTopic_fresh ht,browsable_freshTopic _,?_,?_,?_,Or.inl ⟨he,rfl⟩,UInt32.le_refl _⟩
  · intro b hb
    rw [List.mem_singleton.mp hb]
    exact Int.le_refl 0
  · intro l hl
    exact absurd hl List.not_mem_nil
  · intro l hl
    cases hl

theorem queueInv_initial (slotCount : Nat) (segmentMaxBytes : Int) :
    QueueInv slotCount (.initial slotCount segmentMaxBytes) :=
  ⟨rfl,fun _ => ⟨_,_,0,userState_fresh rfl rfl,UInt32.le_refl _⟩,
    fun _ he => absurd he List.not_mem_nil⟩

theorem QueueInv.sound (hn : slotCount % 2 ^ 32 ≠ 0) (h : QueueInv slotCount s) : CursorsSound s := by
  refine ⟨fun uid => ?_,h.returned⟩
  obtain ⟨t,parts,c,hu,hhigh⟩ := h.users uid
  exact ⟨c,t,cursor_eq hn h.count hu,userTopic_eq hn h.count hu,hhigh,hu.bound⟩

theorem QueueInv.cursor (hn : slotCount % 2 ^ 32 ≠ 0) (h : QueueInv slotCount s) {uid : Bytes}
    {t : Topic} {parts : Parts} {c : UInt32} (hu : UserState slotCount s.store uid t parts c) :
    s.cursor uid = c := by
  rw [QueueSession.cursor, cursor_eq hn h.count hu]

theorem QueueInv.after (hn : slotCount % 2 ^ 32 ≠ 0) (h : QueueInv slotCount s) {uid : Bytes}
    {t t' : Topic} {parts parts' : Parts} {c c' : UInt32} {st' : Store}
    {returned : List (Bytes × Message)} (hu : UserState slotCount s.store uid t parts c)
    (hhigh : s.highest uid ≤ c) (hle : c ≤ c') (hframe : Frame slotCount uid s.store st')
    (hu' : UserState slotCount st' uid t' parts' c')
    (hret : ∀ e ∈ returned, e.1 = uid ∧ c < e.2.messageSeq) :
    QueueInv slotCount (s.after st' returned) := by
  have hmax : ∀ u t parts c, UserState slotCount s.store u t parts c → s.highest u ≤ c →
      (s.after st' returned).highest u = c := by
    intro u t parts c hstate hhigh
    show max (s.highest u) (s.cursor u) = c
    rw [h.cursor hn hstate]
    exact if_pos hhigh
  refine ⟨hframe.count.trans h.count,fun u => ?_,fun e he => ?_⟩
  · by_cases hu₀ : u = uid
    · subst hu₀
      exact ⟨t',parts',c',hu',by rw [hmax u t parts c hu hhigh]; exact hle⟩
    · obtain ⟨t₁,parts₁,c₁,hu₁,hhigh₁⟩ := h.users u
      exact ⟨t₁,parts₁,c₁,hframe.others u hu₀ _ _ _ hu₁,
        by rw [hmax u t₁ parts₁ c₁ hu₁ hhigh₁]; exact UInt32.le_refl _⟩
  · obtain ⟨heq,hlt⟩ := hret e he
    rw [heq, hmax uid t parts c hu hhigh]
    exact hlt

theorem QueueInv.step (hn : slotCount % 2 ^ 32 ≠ 0) (s : QueueSession) (op : QueueOp)
    (h : QueueInv slotCount s) (hc : Advances s op) :
    ∃ s', queueStep s op = .ok s' ∧ QueueInv slotCount s' := by
  cases op with
  | append m =>
    obtain ⟨t,parts,c,hu,hhigh⟩ := h.users m.queueUID
    rw [Advances, userTopic_eq hn h.count hu] at hc
    obtain ⟨r,st',t',parts',hrun,hpanic,hframe,hu'⟩ := hu.enqueue hn h.count hc.1 hc.2
    refine ⟨s.after st' [],?_,h.after hn hu hhigh (UInt32.le_refl c) hframe hu' (by simp)⟩
    rw [queueStep, hrun]
    cases r with
    | ok n => rfl
    | error e => rfl
    | panic e => exact absurd ⟨e,rfl⟩ hpanic
  | ack uid offset =>
    obtain ⟨t,parts,c,hu,hhigh⟩ := h.users uid
    rw [Advances, userTopic_eq hn h.count hu] at hc
    obtain ⟨st',c',hrun,hle,hframe,hu'⟩ := hu.acknowledge hn h.count offset
      fun heq => hc (by rw [h.cursor hn hu, heq])
    refine ⟨s.after st' [],?_,h.after hn hu hhigh hle hframe hu' (by simp)⟩
    rw [queueStep, hrun]
  | sync uid offset limit =>
    obtain ⟨t,parts,c,hu,hhigh⟩ := h.users uid
    rw [Advances, h.cursor hn hu] at hc
    obtain ⟨r,st',t',hrun,hframe,hu',hret⟩ := hu.synchronize hn h.count limit hc.1 hc.2
    rw [queueStep, hrun]
    cases r with
    | ok ms =>
      refine ⟨_,rfl,h.after hn hu hhigh (UInt32.le_refl c) hframe hu' ?_⟩
      intro e he
      obtain ⟨m,hm,rfl⟩ := List.mem_map.mp he
      exact ⟨rfl,hret ms rfl m hm⟩
    | error e => exact ⟨_,rfl,h.after hn hu hhigh (UInt32.le_refl c) hframe hu' (by simp)⟩
    | panic e => exact ⟨_,rfl,h.after hn hu hhigh (UInt32.le_refl c) hframe hu' (by simp)⟩

end Session

theorem user_cursor_never_moves_back {slotCount : Nat} (segmentMaxBytes : Int) {ops : List QueueOp}
    (hn : slotCount % 2 ^ 32 ≠ 0)
    (hm : Run.Meets queueStep Advances (.initial slotCount segmentMaxBytes) ops) :
    Run.Always queueStep CursorsSound (.initial slotCount segmentMaxBytes) ops :=
  Run.always_of_invariant (fun _ h => h.sound hn) (QueueInv.step hn)
    (queueInv_initial slotCount segmentMaxBytes) hm

def queuedMessage : Message := { Message.zero with queueUID := [0x75], payload := [7] }

def acknowledgedOnce : List QueueOp :=
  [.append queuedMessage,.append queuedMessage,.ack [0x75] 1,.sync [0x75] 0 10,.ack [0x75] 9]

theorem acknowledged_once_sound :
    Run.Always queueStep CursorsSound (.initial 256 4096) acknowledgedOnce :=
  user_cursor_never_moves_back 4096 (by decide) (by decide +kernel)

def lateAcknowledgement : List QueueOp := [.append queuedMessage,.ack [0x75] 1,.ack [0x75] 0]

theorem late_acknowledgement_moves_back :
    ¬ Run.Always queueStep CursorsSound (.initial 256 4096) lateAcknowledgement := by
  intro h
  have hback : Run.Always queueStep (fun s => s.highest [0x75] ≤ s.cursor [0x75]) (.initial 256 4096)
      lateAcknowledgement := by
    apply h.imp
    intro s hs
    obtain ⟨c,t,hc,-,hle,-⟩ := hs.cursor [0x75]
    rw [QueueSession.cursor, hc]
    exact hle
  revert hback
  decide +kernel

end LiMaoIM.Db

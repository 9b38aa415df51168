import LiMaoIM.Foundation.Run
import LiMaoIM.Db.Backup
import LiMaoIM.Db.Replay

namespace LiMaoIM.Db

open Outcome

inductive ContentOp where
  | set (slot : Nat) (key value : Bytes)
  | delete (slot : Nat) (key : Bytes)
  | appendMessage (m : Message)
  | appendMessageOfUser (m : Message)
  | evict (slot : Nat) (topic : Bytes)

def settle {α : Type} : Outcome α × Store → Outcome Store
  | (.panic e,_) => .panic e
  | (.ok _,st) => .ok st
  | (.error _,st) => .ok st

def contentStep (st : Store) : ContentOp → Outcome Store
  | .set slot key value => do
      let db ← st.db.set slot key value
      pure { st with db := db }
  | .delete slot key => do
      let db ← st.db.delete slot key
      pure { st with db := db }
  | .appendMessage m => settle (Store.appendMessage m st)
  | .appendMessageOfUser m => settle (Store.appendMessageOfUser m st)
  | .evict slot topic => settle (Store.evict slot topic st)

theorem settle_state {α : Type} {x : Outcome α × Store} {st : Store} (h : settle x = .ok st) :
    x.2 = st := by
  obtain ⟨r,st'⟩ := x
  cases r with
  | ok a => exact Outcome.ok.inj h
  | error e => exact Outcome.ok.inj h
  | panic e => cases h

section Topics

variable {t t' : Topic} {parts : Parts}

theorem stocked_freshTopic (segmentMaxBytes : Int) : Stocked (freshTopic segmentMaxBytes) [(0,[])] := by
  refine ⟨layout_freshTopic segmentMaxBytes,⟨[],rfl⟩,List.nodup_singleton _,?_,?_⟩
  · intro b hb
    rw [List.mem_singleton.mp hb]
    rfl
  · intro l hl
    cases hl

theorem Stocked.target {b : Int64} {log : Log} {parts₁ : Parts} {segments : List Int64}
    (h : Stocked t parts) (h0 : 0 ≤ log.offset.toInt) (ht : Target t parts log b parts₁ segments) :
    (Assoc.keys parts₁).Nodup ∧ ∀ b ∈ Assoc.keys parts₁, 0 ≤ b.toInt := by
  constructor
  · cases ht with
    | stay s hs hr => exact h.bases
    | roll => exact Assoc.nodup_put h.bases _ _
  · intro c hc
    rcases ht.keys_sub c hc with hc | rfl
    · exact h.nonneg c hc
    · exact h0

theorem Stocked.append (h : Stocked t parts) (m : Message) :
    ∃ parts', Stocked (Topic.appendLog m.toLog t).2 parts' := by
  have h0 : 0 ≤ m.toLog.offset.toInt := by
    rw [m.toInt_offset]
    exact Int.natCast_nonneg _
  cases hm : t.alreadyAppended m.toLog with
  | true =>
    obtain ⟨s,ls,hs,-⟩ := h.layout.active
    rw [Topic.appendLog_skip hs hm]
    exact ⟨parts,h⟩
  | false =>
    obtain ⟨b,parts₁,segments,t',ht,-,hsmall,hlarge⟩ := h.layout.appendLog hm
    obtain ⟨hbases,hnonneg⟩ := h.target h0 ht
    have hb := ht.mem_keys h.layout
    by_cases hl : m.Fits
    · obtain ⟨heq,hlay⟩ := hsmall hl
      rw [heq]
      refine ⟨_,hlay,root_grow _ (ht.root h.root),?_,?_,?_⟩
      · rwa [keys_grow hb]
      · rwa [keys_grow hb]
      · intro l hmem
        rw [(Parts.flat_grow b m.toLog parts₁).mem_iff, List.mem_append, ht.flat_perm.mem_iff] at hmem
        rcases hmem with hmem | hmem
        · exact h.messages l hmem
        · exact ⟨m,List.mem_singleton.mp hmem,hl⟩
    · obtain ⟨⟨e,heq⟩,hlay⟩ := hlarge (Nat.lt_of_not_le hl)
      rw [heq]
      refine ⟨_,hlay,ht.root h.root,hbases,hnonneg,fun l hmem => ?_⟩
      rw [ht.flat_perm.mem_iff] at hmem
      exact h.messages l hmem

theorem Stocked.reopen {segmentMaxBytes : Int} (h : Stocked t parts)
    (hnew : newTopic t.close segmentMaxBytes = .ok t') : Stocked t' parts := by
  have hsmall : ∀ e ∈ parts, ∀ l ∈ e.2, l.data.length ≤ logMaxSize :=
    fun e he l hl => h.small (List.mem_flatMap.mpr ⟨e,he,hl⟩)
  exact ⟨(layout_newTopic h.layout.close hsmall h.root hnew).1,h.root,h.bases,h.nonneg,h.messages⟩

end Topics

section Stores

variable {st st' : Store} {slot : Nat} {topic : Bytes}

theorem stocked_newStore (slotCount : Nat) (segmentMaxBytes : Int) :
    (newStore slotCount segmentMaxBytes).Stocked := by
  refine ⟨List.nodup_nil,?_,fun hne => absurd rfl hne,fun _ => List.nodup_nil⟩
  intro e he
  cases he

theorem Store.Stocked.topicAt_any (h : st.Stocked) (slot : Nat) (topic : Bytes) :
    ∃ parts, Db.Stocked (st.topicAt slot topic) parts := by
  rw [Store.topicAt]
  cases hget : Assoc.get (slot,topic) st.topics with
  | none => exact ⟨_,stocked_freshTopic st.segmentMaxBytes⟩
  | some t => exact h.topics _ (Assoc.mem_of_get hget)

theorem Store.Stocked.putTopic {t : Topic} {parts : Parts} (h : st.Stocked)
    (hn : st.db.slotCount % 2 ^ 32 ≠ 0) (ht : Db.Stocked t parts) : (st.putTopic slot topic t).Stocked := by
  refine ⟨Assoc.nodup_put h.names _ _,?_,fun _ => hn,h.keys⟩
  intro e he
  rcases Assoc.mem_put he with he | rfl
  · exact h.topics e he
  · exact ⟨parts,ht⟩

theorem Store.Stocked.store {bucket : List (Bytes × Bytes)} (h : st.Stocked)
    (hb : (Assoc.keys bucket).Nodup) : Store.Stocked { st with db := st.db.store slot bucket } := by
  refine ⟨h.names,h.topics,h.slotCount,fun slot' => ?_⟩
  by_cases hs : slot' = slot
  · subst hs
    simpa only [FileDB.store, Function.update_self] using hb
  · simpa only [FileDB.store, Function.update_of_ne hs] using h.keys slot'

theorem slotNum_ne_zero {v : Bytes} (h : st.db.slotNum v = .ok slot) :
    st.db.slotCount % 2 ^ 32 ≠ 0 := by
  intro hz
  rw [FileDB.slotNum, getSlotNum, if_pos hz] at h
  cases h

theorem Store.Stocked.appendTo (h : st.Stocked) {v : Bytes} (hslot : st.db.slotNum v = .ok slot)
    (topic : Bytes) (m : Message) : (Store.appendMessageTo slot topic m st).2.Stocked := by
  obtain ⟨parts,ht⟩ := h.topicAt_any slot topic
  obtain ⟨parts',ht'⟩ := ht.append m
  rw [Store.appendMessageTo, Store.onTopic_eq]
  exact h.putTopic (slotNum_ne_zero hslot) ht'

theorem Store.Stocked.appendMessage (h : st.Stocked) (m : Message) :
    (Store.appendMessage m st).2.Stocked := by
  rw [Store.appendMessage, Exec.get_bind]
  cases hslot : st.db.slotNumForChannel m.channelID m.channelType with
  | ok slot =>
    rw [Exec.bind_of_ok (Exec.lift_apply _)]
    exact h.appendTo (v := m.channelID) hslot _ m
  | error e =>
    rw [Exec.bind_of_error (Exec.lift_apply _)]
    exact h
  | panic e =>
    rw [Exec.bind_of_panic (Exec.lift_apply _)]
    exact h

theorem Store.Stocked.appendMessageOfUser (h : st.Stocked) (m : Message) :
    (Store.appendMessageOfUser m st).2.Stocked := by
  rw [Store.appendMessageOfUser]
  split
  · exact h
  · rw [Exec.get_bind]
    cases hslot : st.db.slotNum m.queueUID with
    | ok slot =>
      rw [Exec.bind_of_ok (Exec.lift_apply _)]
      exact h.appendTo hslot _ m
    | error e =>
      rw [Exec.bind_of_error (Exec.lift_apply _)]
      exact h
    | panic e =>
      rw [Exec.bind_of_panic (Exec.lift_apply _)]
      exact h

theorem Store.Stocked.evict (h : st.Stocked) : (Store.evict slot topic st).2.Stocked := by
  rw [Store.evict]
  split
  · exact h
  · rename_i t ht
    have hmem := Assoc.mem_of_get ht
    obtain ⟨parts,hs⟩ := h.topics _ hmem
    split
    · rename_i t' hnew
      exact h.putTopic (h.slotCount (List.ne_nil_of_mem hmem)) (hs.reopen hnew)
    · exact h
    · exact h

theorem Store.Stocked.step {op : ContentOp} (h : st.Stocked) (hstep : contentStep st op = .ok st') :
    st'.Stocked ∧ st'.db.slotCount = st.db.slotCount := by
  cases op with
  | set slot key value =>
    obtain ⟨db,hset,hst⟩ := bind_eq_ok.mp hstep
    cases hst
    rw [FileDB.set] at hset
    obtain ⟨bucket,hget,hset⟩ := bind_eq_ok.mp hset
    cases hset
    rw [FileDB.getSlotBucket] at hget
    split at hget
    · cases hget
      exact ⟨h.store (Assoc.nodup_put (h.keys slot) key value),rfl⟩
    · cases hget
  | delete slot key =>
    obtain ⟨db,hdel,hst⟩ := bind_eq_ok.mp hstep
    cases hst
    rw [FileDB.delete] at hdel
    obtain ⟨bucket,hget,hdel⟩ := bind_eq_ok.mp hdel
    cases hdel
    rw [FileDB.getSlotBucket] at hget
    split at hget
    · cases hget
      exact ⟨h.store (Assoc.nodup_erase (h.keys slot) key),rfl⟩
    · cases hget
  | appendMessage m =>
    rw [← settle_state hstep]
    exact ⟨h.appendMessage m,by rw [appendMessage_db]⟩
  | appendMessageOfUser m =>
    rw [← settle_state hstep]
    exact ⟨h.appendMessageOfUser m,by rw [appendMessageOfUser_db]⟩
  | evict slot topic =>
    rw [← settle_state hstep]
    exact ⟨h.evict,by rw [evict_db]⟩

theorem Store.Stocked.run {ops : List ContentOp} (h : st.Stocked)
    (hrun : Run.run contentStep st ops = .ok st') :
    st'.Stocked ∧ st'.db.slotCount = st.db.slotCount := by
  induction ops generalizing st with
  | nil =>
    cases hrun
    exact ⟨h,rfl⟩
  | cons op ops ih =>
    obtain ⟨st₁,hstep,hrest⟩ := bind_eq_ok.mp hrun
    obtain ⟨h₁,hcount⟩ := h.step hstep
    obtain ⟨h',hcount'⟩ := ih h₁ hrest
    exact ⟨h',hcount'.trans hcount⟩

end Stores
end LiMaoIM.Db

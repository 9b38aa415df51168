import LiMaoIM.Db.Backup

namespace LiMaoIM.Db

open Outcome

def keep (ls : List Log) (log : Log) : List Log :=
  match ls.getLast? with
  | some last => if log.offset ≤ last.offset then ls else ls ++ [log]
  | none => ls ++ [log]

section Keeping

variable {ls pre : List Log} {log : Log}

theorem keep_append (h : ∀ last, ls.getLast? = some last → last.offset < log.offset) :
    keep ls log = ls ++ [log] := by
  rw [keep]
  split
  · rename_i last hlast
    rw [if_neg (Int64.not_le.mpr (h last hlast))]
  · rfl

theorem Ascending.getLast (h : Ascending ls) {last : Log} (hlast : ls.getLast? = some last) :
    ∀ l ∈ ls, l.offset ≤ last.offset := by
  obtain ⟨init,rfl⟩ := List.getLast?_eq_some_iff.mp hlast
  intro l hl
  rcases List.mem_append.mp hl with hl | hl
  · exact Int64.le_of_lt ((List.pairwise_append.mp h).2.2 l hl last (List.mem_singleton_self last))
  · rw [List.mem_singleton.mp hl]
    exact Int64.le_refl _

theorem ascending_keep (h : Ascending ls) (log : Log) : Ascending (keep ls log) := by
  rw [keep]
  split
  · rename_i last hlast
    split
    · exact h
    · rename_i hlt
      refine (ascending_append h).mpr fun l hl => ?_
      exact Int64.lt_of_le_of_lt (h.getLast hlast l hl) (Int64.not_le.mp hlt)
  · rename_i hnone
    rw [List.getLast?_eq_none_iff.mp hnone]
    exact List.pairwise_singleton _ _

theorem mem_keep {l : Log} (h : l ∈ keep ls log) : l ∈ ls ∨ l = log := by
  rw [keep] at h
  split at h
  · split at h
    · exact Or.inl h
    · simpa using h
  · simpa using h

theorem ascending_foldl_keep (h : Ascending pre) (ls : List Log) :
    Ascending (ls.foldl keep pre) := by
  induction ls generalizing pre with
  | nil => exact h
  | cons log ls ih => exact ih (ascending_keep h log)

theorem mem_foldl_keep {l : Log} (h : l ∈ ls.foldl keep pre) : l ∈ pre ∨ l ∈ ls := by
  induction ls generalizing pre with
  | nil => exact Or.inl h
  | cons log ls ih =>
    rcases ih h with h | h
    · rcases mem_keep h with h | rfl
      · exact Or.inl h
      · exact Or.inr List.mem_cons_self
    · exact Or.inr (List.mem_cons_of_mem _ h)

theorem foldl_keep (h : Ascending (pre ++ ls)) : ls.foldl keep pre = pre ++ ls := by
  induction ls generalizing pre with
  | nil => rw [List.foldl_nil, List.append_nil]
  | cons log ls ih =>
    have hsplit : pre ++ log :: ls = (pre ++ [log]) ++ ls := by simp
    have hlast : ∀ last, pre.getLast? = some last → last.offset < log.offset := fun last hlast =>
      (List.pairwise_append.mp h).2.2 last (List.mem_of_getLast? hlast) log List.mem_cons_self
    rw [hsplit] at h ⊢
    rw [List.foldl_cons, keep_append hlast]
    exact ih h

end Keeping

structure Ordered (t : Topic) (parts : Parts) : Prop where
  layout : Layout t parts
  bases : (Assoc.keys parts).Pairwise (· < ·)
  active : ∃ front b p s, parts = front ++ [(b,p)] ∧ t.objects[t.activeSegment]? = some s ∧
    s.baseOffset = b
  small : ∀ l ∈ parts.flat, l.data.length ≤ logMaxSize
  nonneg : ∀ l ∈ parts.flat, 0 ≤ l.offset.toInt
  latest : t.lastMemLog = parts.flat.getLast?
  below : ∀ last, t.lastMemLog = some last → ∀ b ∈ Assoc.keys parts, b ≤ last.offset
  unused : t.lastMemLog = none → parts = [(0,[])]

theorem ordered_freshTopic (segmentMaxBytes : Int) : Ordered (freshTopic segmentMaxBytes) [(0,[])] := by
  refine ⟨layout_freshTopic segmentMaxBytes,List.pairwise_singleton _ _,
    ⟨[],0,[],freshSegment 0,rfl,rfl,rfl⟩,?_,?_,rfl,?_,fun _ => rfl⟩
  · intro l hl
    cases hl
  · intro l hl
    cases hl
  · intro last hlast
    cases hlast

section Topics

variable {t : Topic} {parts : Parts} {log : Log}

theorem Ordered.orderedLogs (h : Ordered t parts) : orderedLogs t = parts.flat := by
  have hkeys := h.layout.keys
  have hpair : (Assoc.keys t.dir.logs).Pairwise (· < ·) := hkeys ▸ h.bases
  have hnodup : (Assoc.keys t.dir.logs).Nodup := hpair.imp fun hlt => Int64.ne_of_lt hlt
  rw [← storedLogs_layout h.layout h.small, Db.orderedLogs, sortedBases_of_pairwise hpair, storedLogs,
    Assoc.keys, List.flatMap_map]
  apply List.flatMap_congr
  intro e he
  rw [Assoc.get_of_mem hnodup he, Option.getD_some]

theorem Ordered.alreadyAppended (h : Ordered t parts) (log : Log) :
    keep parts.flat log = if t.alreadyAppended log = true then parts.flat else parts.flat ++ [log] := by
  rw [Topic.alreadyAppended, h.latest, keep]
  cases parts.flat.getLast? with
  | none => simp
  | some last => simp

theorem Ordered.appended {front : Parts} {b : Int64} {p : List Log} {s : Segment} {t' : Topic}
    (hlay : Layout t' (front ++ [(b,p ++ [log])]))
    (hbases : (Assoc.keys (front ++ [(b,p)])).Pairwise (· < ·))
    (hs : t'.objects[t'.activeSegment]? = some s) (hb : s.baseOffset = b)
    (hsmall : ∀ l ∈ Parts.flat (front ++ [(b,p)]), l.data.length ≤ logMaxSize)
    (hnonneg : ∀ l ∈ Parts.flat (front ++ [(b,p)]), 0 ≤ l.offset.toInt)
    (hl : log.data.length ≤ logMaxSize) (h0 : 0 ≤ log.offset.toInt) (hmem : t'.lastMemLog = some log)
    (hbelow : ∀ c ∈ Assoc.keys (front ++ [(b,p)]), c ≤ log.offset) :
    Ordered t' (front ++ [(b,p ++ [log])]) := by
  have hkeys : Assoc.keys (front ++ [(b,p ++ [log])]) = Assoc.keys (front ++ [(b,p)]) := by
    simp [Assoc.keys]
  have hflat : Parts.flat (front ++ [(b,p ++ [log])]) = Parts.flat (front ++ [(b,p)]) ++ [log] := by
    simp [Parts.flat]
  refine ⟨hlay,hkeys ▸ hbases,⟨front,b,_,s,rfl,hs,hb⟩,?_,?_,?_,?_,?_⟩
  · intro l hmem
    rw [hflat] at hmem
    rcases List.mem_append.mp hmem with hmem | hmem
    · exact hsmall l hmem
    · rw [List.mem_singleton.mp hmem]
      exact hl
  · intro l hmem
    rw [hflat] at hmem
    rcases List.mem_append.mp hmem with hmem | hmem
    · exact hnonneg l hmem
    · rw [List.mem_singleton.mp hmem]
      exact h0
  · rw [hflat, hmem, List.getLast?_append]
    rfl
  · intro last hlast c hc
    rw [hmem] at hlast
    cases hlast
    exact hbelow c (hkeys ▸ hc)
  · intro hnone
    rw [hmem] at hnone
    cases hnone

theorem Ordered.above (h : Ordered t parts) (hm : t.alreadyAppended log = false)
    (h0 : 0 ≤ log.offset.toInt) : ∀ b ∈ Assoc.keys parts, b ≤ log.offset := by
  intro b hb
  cases hlast : t.lastMemLog with
  | none =>
    obtain rfl := h.unused hlast
    rw [List.mem_singleton.mp hb, Int64.le_iff_toInt_le]
    exact h0
  | some last =>
    rw [Topic.alreadyAppended, hlast] at hm
    have hlt : last.offset < log.offset := Int64.not_le.mp (of_decide_eq_false hm)
    exact Int64.le_trans (h.below last hlast b hb) (Int64.le_of_lt hlt)

theorem Ordered.appendLog (h : Ordered t parts) (hm : t.alreadyAppended log = false)
    (hl : log.data.length ≤ logMaxSize) (h0 : 0 ≤ log.offset.toInt) :
    ∃ n t' parts', Topic.appendLog log t = (.ok n,t') ∧ Ordered t' parts' ∧
      parts'.flat = parts.flat ++ [log] := by
  have habove := h.above hm h0
  obtain ⟨front,b,p,s,rfl,hs,hb⟩ := h.active
  have hnodup : (Assoc.keys (front ++ [(b,p)])).Nodup := h.bases.imp fun hlt => Int64.ne_of_lt hlt
  have hfront : b ∉ Assoc.keys front := by
    intro hmem
    rw [Assoc.keys, List.map_append, List.nodup_append] at hnodup
    exact hnodup.2.2 b hmem b (by simp) rfl
  have hflat : Parts.flat (front ++ [(b,p ++ [log])]) = Parts.flat (front ++ [(b,p)]) ++ [log] := by
    simp [Parts.flat]
  rcases appendLog_eq_active h.layout hs hm with ⟨-,heq⟩ | ⟨s₀,dir,-,hb₀,hlay,heq⟩
  · obtain ⟨t',s',happ,hlay,hs',hb',-,hmem'⟩ := (h.layout.remember log).appendActive_last hs hb
      hfront hl
    exact ⟨_,t',_,heq.trans happ,Ordered.appended hlay h.bases hs' hb' h.small h.nonneg hl h0 hmem'
      habove,hflat⟩
  · have hs₀ : (Topic.rolled log s₀ dir (Topic.remember log t)).objects[(Topic.rolled log s₀ dir
        (Topic.remember log t)).activeSegment]? = some s₀ := by
      simp [Topic.rolled]
    by_cases hold : log.offset ∈ Assoc.keys (front ++ [(b,p)])
    · have hlast : log.offset = b := by
        have hle := habove b (by simp [Assoc.keys])
        rw [Assoc.keys, List.map_append] at hold
        rcases List.mem_append.mp hold with hmem | hmem
        · have hbases := h.bases
          rw [Assoc.keys, List.map_append] at hbases
          have hlt := (List.pairwise_append.mp hbases).2.2 _ hmem b (by simp)
          exact absurd (Int64.lt_of_lt_of_le hlt hle) Int64.lt_irrefl
        · exact List.mem_singleton.mp hmem
      have hopened : Parts.opened log.offset (front ++ [(b,p)]) = front ++ [(b,p)] := by
        have hget := Assoc.get_of_mem hnodup (k := b) (v := p) (by simp)
        rw [Parts.opened, hlast, hget, Option.getD_some, Assoc.put_get hget]
      rw [hopened] at hlay
      obtain ⟨t',s',happ,hlay,hs',hb',-,hmem'⟩ := hlay.appendActive_last hs₀
        (hb₀.trans hlast) hfront hl
      exact ⟨_,t',_,heq.trans happ,Ordered.appended hlay h.bases hs' hb' h.small h.nonneg hl h0 hmem'
        habove,hflat⟩
    · rw [Parts.opened, Assoc.get_eq_none_iff.mpr hold, Option.getD_none,
        Assoc.put_of_not_mem hold] at hlay
      obtain ⟨t',s',happ,hlay,hs',hb',-,hmem'⟩ := hlay.appendActive_last hs₀
        hb₀ hold hl
      have hkeys : Assoc.keys (front ++ [(b,p)] ++ [(log.offset,[])]) =
          Assoc.keys (front ++ [(b,p)]) ++ [log.offset] := by
        simp [Assoc.keys]
      have hgrown : Parts.flat (front ++ [(b,p)] ++ [(log.offset,[])]) =
          Parts.flat (front ++ [(b,p)]) := by
        simp [Parts.flat]
      refine ⟨_,t',_,heq.trans happ,Ordered.appended hlay ?_ hs' hb' (hgrown ▸ h.small)
        (hgrown ▸ h.nonneg) hl h0 hmem' ?_,?_⟩
      · rw [hkeys, List.pairwise_append]
        refine ⟨h.bases,List.pairwise_singleton _ _,fun c hc d hd => ?_⟩
        rw [List.mem_singleton.mp hd]
        exact Int64.lt_of_le_of_ne (habove c hc) fun heq => hold (heq ▸ hc)
      · intro c hc
        rw [hkeys] at hc
        rcases List.mem_append.mp hc with hc | hc
        · exact habove c hc
        · rw [List.mem_singleton.mp hc]
          exact Int64.le_refl _
      · simp [Parts.flat]

theorem Ordered.keep (h : Ordered t parts) (hl : log.data.length ≤ logMaxSize)
    (h0 : 0 ≤ log.offset.toInt) :
    ∃ n t' parts', Topic.appendLog log t = (.ok n,t') ∧ Ordered t' parts' ∧
      parts'.flat = keep parts.flat log := by
  rw [h.alreadyAppended log]
  cases hm : t.alreadyAppended log with
  | true =>
    obtain ⟨front,b,p,s,-,hs,-⟩ := h.active
    exact ⟨0,t,parts,Topic.appendLog_skip hs hm,h,rfl⟩
  | false => exact h.appendLog hm hl h0

end Topics

def Holding (st : Store) (held : Nat × Bytes → List Log) : Prop :=
  ∀ slot topic, ∃ parts, Ordered (st.topicAt slot topic) parts ∧ parts.flat = held (slot,topic)

theorem holding_newStore (slotCount : Nat) (segmentMaxBytes : Int) :
    Holding (newStore slotCount segmentMaxBytes) fun _ => [] :=
  fun _ _ => ⟨_,ordered_freshTopic segmentMaxBytes,rfl⟩

theorem Holding.orderedLogs {st : Store} {held : Nat × Bytes → List Log} (h : Holding st held)
    (slot : Nat) (topic : Bytes) : orderedLogs (st.topicAt slot topic) = held (slot,topic) := by
  obtain ⟨parts,ho,hflat⟩ := h slot topic
  rw [ho.orderedLogs, hflat]

theorem Holding.append {st : Store} {held : Nat × Bytes → List Log} (h : Holding st held)
    (k : Nat × Bytes) {log : Log} (hl : log.data.length ≤ logMaxSize) (h0 : 0 ≤ log.offset.toInt) :
    ∃ n st', Store.onTopic k.1 k.2 (Topic.appendLog log) st = (.ok n,st') ∧ st'.db = st.db ∧
      Holding st' (Function.update held k (keep (held k) log)) := by
  obtain ⟨slot,topic⟩ := k
  obtain ⟨parts,ho,hflat⟩ := h slot topic
  obtain ⟨n,t',parts',happ,ho',hflat'⟩ := ho.keep hl h0
  refine ⟨n,st.putTopic slot topic t',by rw [Store.onTopic_eq, happ],rfl,fun slot' topic' => ?_⟩
  rcases eq_or_ne (slot',topic') (slot,topic) with heq | hne
  · cases heq
    rw [Store.topicAt_putTopic_self, Function.update_self, ← hflat]
    exact ⟨parts',ho',hflat'⟩
  · rw [Store.topicAt_putTopic_ne hne, Function.update_of_ne hne]
    exact h slot' topic'

end LiMaoIM.Db

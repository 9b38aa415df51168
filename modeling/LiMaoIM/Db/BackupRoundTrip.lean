import LiMaoIM.Db.Content
import LiMaoIM.Db.Recover

namespace LiMaoIM.Db

open Outcome Proto Proto.Encoder ByteReader

structure SlotRestored (st st' : Store) (slot : Nat) : Prop where
  pairs : ∀ key, st'.db.entry slot key = st.db.entry slot key
  messages : ∀ topic,
    orderedLogs (st'.topicAt slot topic) = (orderedLogs (st.topicAt slot topic)).map Log.reset

def Restores (readdir : List Bytes → List Bytes) (st fresh : Store) (slots : Bytes) : Prop :=
  ∃ bytes st', st.backupSlots readdir slots = .ok bytes ∧
    fresh.recoverSlotBackup bytes = (.ok (),st') ∧
    ∀ slot ∈ getVaildSlots slots, SlotRestored st st' slot.toNat

def PlainName (name : Bytes) : Prop := name ≠ [] ∧ name ≠ [0x2E] ∧ name ≠ [0x2E,0x2E] ∧ 0x2F ∉ name

instance (name : Bytes) : Decidable (PlainName name) :=
  inferInstanceAs (Decidable (_ ∧ _ ∧ _ ∧ _))

instance (bucket : List (Bytes × Bytes)) : Decidable (ShortPairs bucket) :=
  inferInstanceAs (Decidable (∀ e ∈ bucket, _))

structure Framed (st : Store) (slots : Bytes) : Prop where
  bitmap : slots.length < 2 ^ 15
  count : ∀ slot ∈ getVaildSlots slots, (st.db.buckets slot.toNat).length < 2 ^ 31
  names : ∀ slot ∈ getVaildSlots slots, ∀ topic ∈ st.topicDirs slot.toNat, PlainName topic

structure SlotIntact (readdir : List Bytes → List Bytes) (st : Store) (slot : Nat) : Prop where
  inRange : slot < st.db.slotCount
  short : ShortPairs (st.db.buckets slot)
  alone : ∀ topic, orderedLogs (st.topicAt slot topic) ≠ [] →
    (st.getSubdir readdir slot).getLast? = some topic
  ascending : ∀ topic, Ascending (orderedLogs (st.topicAt slot topic))
  home : ∀ topic, ∀ l ∈ orderedLogs (st.topicAt slot topic),
    ∃ m : Message, m.Short ∧ l.data = marshalMessage m ∧ m.home st.db.slotCount = (slot,topic)

structure Intact (readdir : List Bytes → List Bytes) (st : Store) (slots : Bytes) : Prop extends
    Framed st slots where
  selected : getVaildSlots slots ≠ []
  slots : ∀ slot ∈ getVaildSlots slots, SlotIntact readdir st slot.toNat

section Slots

theorem validInByte {b : UInt8} {i : Nat} (hi : i < 2 ^ 28) {slots : List UInt32}
    (h : (List.range 8).filterMap (fun j => if b >>> UInt8.ofNat j &&& 1 = 1 then
      some (UInt32.ofNat (i * 8 + j)) else none) = slots) :
    slots.Pairwise (fun a b => a.toNat < b.toNat) ∧
      ∀ s ∈ slots, i * 8 ≤ s.toNat ∧ s.toNat < (i + 1) * 8 := by
  subst h
  have hnat : ∀ j < 8, (UInt32.ofNat (i * 8 + j)).toNat = i * 8 + j := by
    intro j hj
    rw [UInt32.toNat_ofNat']
    exact Nat.mod_eq_of_lt (by omega)
  constructor
  · rw [List.pairwise_filterMap]
    refine List.pairwise_lt_range.imp_of_mem fun {j k} hj hk hlt a ha c hc => ?_
    split at ha
    · split at hc
      · cases ha
        cases hc
        rw [hnat j (List.mem_range.mp hj), hnat k (List.mem_range.mp hk)]
        omega
      · cases hc
    · cases ha
  · intro s hs
    obtain ⟨j,hj,hsome⟩ := List.mem_filterMap.mp hs
    split at hsome
    · cases hsome
      rw [hnat j (List.mem_range.mp hj)]
      have hlt := List.mem_range.mp hj
      omega
    · cases hsome

theorem validFrom (bits : Bytes) {k : Nat} (hk : k + bits.length < 2 ^ 28) :
    ((bits.zipIdx k).flatMap fun (b,i) => (List.range 8).filterMap fun j =>
      if b >>> UInt8.ofNat j &&& 1 = 1 then some (UInt32.ofNat (i * 8 + j)) else none).Pairwise
        (fun a b => a.toNat < b.toNat) ∧
    ∀ s ∈ (bits.zipIdx k).flatMap fun (b,i) => (List.range 8).filterMap fun j =>
      if b >>> UInt8.ofNat j &&& 1 = 1 then some (UInt32.ofNat (i * 8 + j)) else none,
      k * 8 ≤ s.toNat := by
  induction bits generalizing k with
  | nil => exact ⟨List.Pairwise.nil,fun s hs => absurd hs List.not_mem_nil⟩
  | cons b bits ih =>
    rw [List.length_cons] at hk
    obtain ⟨hhead,hbounds⟩ := validInByte (b := b) (i := k) (by omega) rfl
    obtain ⟨htail,hlower⟩ := ih (k := k + 1) (by omega)
    rw [List.zipIdx_cons, List.flatMap_cons]
    constructor
    · refine List.pairwise_append.mpr ⟨hhead,htail,fun a ha c hc => ?_⟩
      exact Nat.lt_of_lt_of_le (hbounds a ha).2 (hlower c hc)
    · intro s hs
      rcases List.mem_append.mp hs with hs | hs
      · exact (hbounds s hs).1
      · have hle := hlower s hs
        omega

theorem nodup_getVaildSlots {bits : Bytes} (h : bits.length < 2 ^ 15) :
    ((getVaildSlots bits).map UInt32.toNat).Nodup := by
  have hpair := (validFrom bits (k := 0) (by omega)).1
  rw [List.Nodup, List.pairwise_map]
  exact hpair.imp fun hlt => Nat.ne_of_lt hlt

end Slots

section RoundTrip

variable {readdir : List Bytes → List Bytes} {st : Store} {slots : Bytes}

def Store.allSavedLogs (readdir : List Bytes → List Bytes) (st : Store) (slots : Bytes) : List Log :=
  (getVaildSlots slots).flatMap fun slot => st.savedLogs readdir slot.toNat

theorem Store.mem_savedLogs {slot : Nat} {l : Log} (h : l ∈ st.savedLogs readdir slot) :
    ∃ topic, (st.getSubdir readdir slot).getLast? = some topic ∧
      l ∈ orderedLogs (st.topicAt slot topic) := by
  rw [Store.savedLogs] at h
  split at h
  · cases h
  · rename_i topic hlast
    exact ⟨topic,hlast,h⟩

theorem Store.Stocked.saved (hr : ∀ l, (readdir l).Perm l) (h : st.Stocked) {l : Log}
    (hl : l ∈ st.allSavedLogs readdir slots) :
    st.db.slotCount % 2 ^ 32 ≠ 0 ∧ ∃ m : Message, l = m.toLog ∧ m.Fits := by
  obtain ⟨slot,-,hl⟩ := List.mem_flatMap.mp hl
  obtain ⟨topic,hlast,hl⟩ := Store.mem_savedLogs hl
  have hdir := (hr _).mem_iff.mp (List.mem_of_getLast? hlast)
  obtain ⟨parts,hget,hs⟩ := h.topicAt hdir
  exact ⟨h.slotCount (List.ne_nil_of_mem (Assoc.mem_of_get hget)),hs.mem_orderedLogs hl⟩

theorem recover_backup (hr : ∀ l, (readdir l).Perm l) (h : st.Stocked)
    (hbitmap : slots.length < 2 ^ 15) (hne : getVaildSlots slots ≠ [])
    (hw : ∀ slot ∈ getVaildSlots slots, Writable st slot) (segmentMaxBytes : Int) :
    ∃ bytes db, st.backupSlots readdir slots = .ok bytes ∧
      Recovery.recoverSlotBackup ⟨newStore st.db.slotCount segmentMaxBytes,bytes⟩ =
        Recovery.recoverMessages ⟨{ newStore st.db.slotCount segmentMaxBytes with db := db },
          joined (st.allSavedLogs readdir slots)⟩ ∧
      db.slotCount = st.db.slotCount ∧ ∀ slot ∈ getVaildSlots slots, ∀ key,
        db.entry slot.toNat key = st.db.entry slot.toNat key := by
  obtain ⟨base,hbase,hrecover⟩ := recoverBaseData_backup h.keys hw
  obtain ⟨db,hrun,hcount,hentry⟩ := hrecover (newStore st.db.slotCount segmentMaxBytes)
    (joined (st.allSavedLogs readdir slots)) rfl
  refine ⟨backupMagicNumber ++ writeBinary slots ++ base ++ joined (st.allSavedLogs readdir slots),
    db,?_,?_,hcount,?_⟩
  · rw [Store.backupSlots, if_neg hne, hbase, ok_bind, h.backupMessages hr, ok_bind]
    rfl
  · rw [List.append_assoc, List.append_assoc, Recovery.recoverSlotBackup, Exec.bind_of_ok
      (Recovery.read_of (reads_readBytes (b := backupMagicNumber) (by decide) rfl) _ _),
      if_neg (by simp), Exec.bind_of_ok (Recovery.read_of (reads_binary slots hbitmap) _ _),
      if_neg hne, Exec.bind_of_ok hrun]
  · intro slot hslot key
    rw [hentry, if_pos (List.mem_map_of_mem hslot)]
    exact Option.or_none

theorem holding_restored (db : FileDB) (slotCount : Nat) (segmentMaxBytes : Int) :
    Holding { newStore slotCount segmentMaxBytes with db := db } fun _ => [] :=
  holding_newStore slotCount segmentMaxBytes

theorem flatMap_single {α β : Type} [DecidableEq β] {f : α → β} {xs : List α}
    (hn : (xs.map f).Nodup) {a : α} (ha : a ∈ xs) {γ : Type} (ys : List γ) :
    (xs.flatMap fun x => if f x = f a then ys else []) = ys := by
  induction xs with
  | nil => cases ha
  | cons x xs ih =>
    obtain ⟨hx,hn⟩ := List.nodup_cons.mp hn
    rw [List.flatMap_cons]
    rcases List.mem_cons.mp ha with rfl | ha
    · have hnone : (xs.flatMap fun x => if f x = f a then ys else []) = [] := by
        rw [List.flatMap_eq_nil_iff]
        intro y hy
        rw [if_neg]
        intro heq
        exact hx (heq ▸ List.mem_map_of_mem hy)
      rw [if_pos rfl, hnone, List.append_nil]
    · have hne : f x ≠ f a := by
        intro heq
        exact hx (heq ▸ List.mem_map_of_mem ha)
      rw [if_neg hne, List.nil_append, ih hn ha]

theorem SlotIntact.filter_savedLogs {slot slot' : Nat} {topic : Bytes}
    (h : SlotIntact readdir st slot) (h' : SlotIntact readdir st slot') :
    (st.savedLogs readdir slot').filter (fun l => l.home st.db.slotCount = some (slot,topic)) =
      if slot' = slot then orderedLogs (st.topicAt slot topic) else [] := by
  have hother : ∀ last, (st.getSubdir readdir slot').getLast? = some last →
      (slot',last) ≠ (slot,topic) → (st.savedLogs readdir slot').filter
        (fun l => l.home st.db.slotCount = some (slot,topic)) = [] := by
    intro last hlast hne
    rw [List.filter_eq_nil_iff]
    intro l hl
    obtain ⟨last',hlast',hl⟩ := Store.mem_savedLogs hl
    obtain rfl := Option.some.inj (hlast'.symm.trans hlast)
    rw [Log.home_eq_some.mpr (h'.home _ l hl)]
    simpa using hne
  by_cases hs : slot' = slot
  · subst hs
    rw [if_pos rfl]
    cases hlast : (st.getSubdir readdir slot').getLast? with
    | none =>
      have hempty : orderedLogs (st.topicAt slot' topic) = [] := by
        by_contra hne
        rw [h'.alone topic hne] at hlast
        cases hlast
      simp [Store.savedLogs, hlast, hempty]
    | some last =>
      by_cases ht : last = topic
      · subst ht
        have hsaved : st.savedLogs readdir slot' = orderedLogs (st.topicAt slot' last) := by
          rw [Store.savedLogs, hlast]
        rw [hsaved, List.filter_eq_self]
        intro l hl
        exact decide_eq_true (Log.home_eq_some.mpr (h'.home last l hl))
      · have hempty : orderedLogs (st.topicAt slot' topic) = [] := by
          by_contra hne
          exact ht (Option.some.inj (hlast.symm.trans (h'.alone topic hne)))
        rw [hother last hlast fun heq => ht (Prod.mk.inj heq).2, hempty]
  · rw [if_neg hs]
    cases hlast : (st.getSubdir readdir slot').getLast? with
    | none => simp [Store.savedLogs, hlast]
    | some last => exact hother last hlast fun heq => hs (Prod.mk.inj heq).1

theorem Intact.placedLogs (h : Intact readdir st slots) {slot : UInt32}
    (hslot : slot ∈ getVaildSlots slots) (topic : Bytes) :
    placedLogs st.db.slotCount (st.allSavedLogs readdir slots) (slot.toNat,topic) =
      (orderedLogs (st.topicAt slot.toNat topic)).map Log.reset := by
  rw [Db.placedLogs, Store.allSavedLogs, List.filter_flatMap]
  congr 1
  rw [← flatMap_single (nodup_getVaildSlots h.bitmap) hslot
    (orderedLogs (st.topicAt slot.toNat topic))]
  apply List.flatMap_congr
  intro slot' hslot'
  exact (h.slots slot hslot).filter_savedLogs (h.slots slot' hslot')

theorem ascending_map_reset {ls : List Log} : Ascending (ls.map Log.reset) ↔ Ascending ls := by
  rw [Ascending, List.pairwise_map]
  exact Iff.rfl

theorem Intact.restores (hr : ∀ l, (readdir l).Perm l) (hst : st.Stocked)
    (h : Intact readdir st slots) (segmentMaxBytes : Int) :
    Restores readdir st (newStore st.db.slotCount segmentMaxBytes) slots := by
  have hw : ∀ slot ∈ getVaildSlots slots, Writable st slot := fun slot hslot =>
    ⟨(h.slots slot hslot).inRange,(h.slots slot hslot).short,h.count slot hslot⟩
  obtain ⟨bytes,db,hbackup,hrecover,hcount,hentry⟩ :=
    recover_backup hr hst h.bitmap h.selected hw segmentMaxBytes
  have hhome : ∀ l ∈ st.allSavedLogs readdir slots, l.home db.slotCount ≠ none := by
    intro l hl
    obtain ⟨slot,hslot,hl⟩ := List.mem_flatMap.mp hl
    obtain ⟨topic,hlast,hl⟩ := Store.mem_savedLogs hl
    rw [hcount, Log.home_eq_some.mpr ((h.slots slot hslot).home topic l hl)]
    simp
  obtain ⟨st',hrun,hdb,hheld⟩ := Recovery.recoverMessagesLoop_joined
    (Nat.lt_succ_of_le (length_le_joined (st.allSavedLogs readdir slots)))
    (fun hne => by
      obtain ⟨l,hl⟩ := List.exists_mem_of_ne_nil _ hne
      exact hcount ▸ (hst.saved hr hl).1)
    (fun l hl => (hst.saved hr hl).2) hhome (holding_restored db st.db.slotCount segmentMaxBytes)
  replace hrun := hrecover.trans hrun
  refine ⟨bytes,st',hbackup,by rw [Store.recoverSlotBackup, hrun],fun slot hslot => ⟨?_,?_⟩⟩
  · intro key
    rw [hdb]
    exact hentry slot hslot key
  · intro topic
    have hplaced := h.placedLogs hslot topic
    rw [hheld.orderedLogs]
    simp only [hcount, hplaced]
    have hasc := ascending_map_reset.mpr ((h.slots slot hslot).ascending topic)
    rw [foldl_keep (by simpa using hasc), List.nil_append]

theorem Restores.selected {fresh : Store} (h : Restores readdir st fresh slots) :
    getVaildSlots slots ≠ [] := by
  intro hnil
  obtain ⟨bytes,st',hbackup,hrecover,-⟩ := h
  rw [Store.backupSlots, if_pos hnil] at hbackup
  cases hbackup
  cases hrecover

theorem Store.backupBaseData_inRange {slots : List UInt32} {bytes : Bytes}
    (h : st.backupBaseData slots = .ok bytes) : ∀ slot ∈ slots, slot.toNat < st.db.slotCount := by
  induction slots generalizing bytes with
  | nil => simp
  | cons slot slots ih =>
    obtain ⟨bucket,hget,h⟩ := bind_eq_ok.mp h
    obtain ⟨rest,hrest,-⟩ := bind_eq_ok.mp h
    intro s hs
    rcases List.mem_cons.mp hs with rfl | hs
    · rw [FileDB.getSlotBucket] at hget
      split at hget
      · assumption
      · cases hget
    · exact ih hrest s hs

theorem Restores.inRange {fresh : Store} (h : Restores readdir st fresh slots) :
    ∀ slot ∈ getVaildSlots slots, slot.toNat < st.db.slotCount := by
  have hne := h.selected
  obtain ⟨bytes,st',hbackup,-⟩ := h
  rw [Store.backupSlots, if_neg hne] at hbackup
  obtain ⟨base,hbase,-⟩ := bind_eq_ok.mp hbackup
  exact Store.backupBaseData_inRange hbase

theorem Restores.short (hst : st.Stocked) {slotCount : Nat} {segmentMaxBytes : Int}
    (h : Restores readdir st (newStore slotCount segmentMaxBytes) slots) :
    ∀ slot ∈ getVaildSlots slots, ShortPairs (st.db.buckets slot.toNat) := by
  obtain ⟨bytes,st',-,hrecover,hsame⟩ := h
  have hshort := Recovery.recoverSlotBackup_short
    (s := ⟨newStore slotCount segmentMaxBytes,bytes⟩) fun _ e he => absurd he List.not_mem_nil
  have hstate : (Recovery.recoverSlotBackup ⟨newStore slotCount segmentMaxBytes,bytes⟩).2.store = st' :=
    congrArg Prod.snd hrecover
  rw [hstate] at hshort
  intro slot hslot e he
  have hentry := (hsame slot hslot).pairs e.1
  rw [FileDB.entry, FileDB.entry, Assoc.get_of_mem (hst.keys slot.toNat) (k := e.1) (v := e.2) he]
    at hentry
  exact hshort slot.toNat e (Assoc.mem_of_get hentry)

theorem Restores.intact (hr : ∀ l, (readdir l).Perm l) (hst : st.Stocked) {segmentMaxBytes : Int}
    (h : Restores readdir st (newStore st.db.slotCount segmentMaxBytes) slots)
    (hf : Framed st slots) : Intact readdir st slots := by
  have hne := h.selected
  have hw : ∀ slot ∈ getVaildSlots slots, Writable st slot := fun slot hslot =>
    ⟨h.inRange slot hslot,h.short hst slot hslot,hf.count slot hslot⟩
  obtain ⟨bytes,db,hbackup,hrecover,hcount,-⟩ := recover_backup hr hst hf.bitmap hne hw segmentMaxBytes
  obtain ⟨bytes',st',hbackup',hrun,hsame⟩ := id h
  obtain rfl : bytes' = bytes := Outcome.ok.inj (hbackup'.symm.trans hbackup)
  rw [Store.recoverSlotBackup, hrecover] at hrun
  obtain ⟨hok,hst'⟩ := Prod.mk.inj hrun
  have hfuel := Nat.lt_succ_of_le (length_le_joined (st.allSavedLogs readdir slots))
  have hcounted : st.allSavedLogs readdir slots ≠ [] → db.slotCount % 2 ^ 32 ≠ 0 := by
    intro hne
    obtain ⟨l,hl⟩ := List.exists_mem_of_ne_nil _ hne
    exact hcount ▸ (hst.saved hr hl).1
  have hlogs : ∀ l ∈ st.allSavedLogs readdir slots, ∃ m : Message, l = m.toLog ∧ m.Fits :=
    fun l hl => (hst.saved hr hl).2
  have hholding := holding_restored db st.db.slotCount segmentMaxBytes
  have hhome := Recovery.recoverMessagesLoop_homes hfuel hcounted hlogs hholding hok
  obtain ⟨st₁,hloop,-,hheld⟩ :=
    Recovery.recoverMessagesLoop_joined hfuel hcounted hlogs hhome hholding
  replace hloop : Recovery.recoverMessages ⟨{ newStore st.db.slotCount segmentMaxBytes with db := db },
    joined (st.allSavedLogs readdir slots)⟩ = (.ok (),⟨st₁,[]⟩) := hloop
  rw [hloop] at hst'
  obtain rfl : st₁ = st' := hst'
  have hkept : ∀ slot ∈ getVaildSlots slots, ∀ topic,
      (placedLogs st.db.slotCount (st.allSavedLogs readdir slots) (slot.toNat,topic)).foldl keep [] =
        (orderedLogs (st.topicAt slot.toNat topic)).map Log.reset := by
    intro slot hslot topic
    rw [← (hsame slot hslot).messages topic, hheld.orderedLogs, ← hcount]
  have hplaced : ∀ slot ∈ getVaildSlots slots, ∀ topic,
      ∀ l ∈ orderedLogs (st.topicAt slot.toNat topic), ∃ l' ∈ st.allSavedLogs readdir slots,
        l'.data = l.data ∧ l'.home st.db.slotCount = some (slot.toNat,topic) := by
    intro slot hslot topic l hl
    have hmem := List.mem_map_of_mem (f := Log.reset) hl
    rw [← hkept slot hslot topic] at hmem
    rcases mem_foldl_keep hmem with hmem | hmem
    · cases hmem
    · obtain ⟨l',hl',heq⟩ := List.mem_map.mp hmem
      obtain ⟨hl',hk⟩ := List.mem_filter.mp hl'
      have hdata : l'.reset.data = l.reset.data := congrArg Log.data heq
      exact ⟨l',hl',hdata,of_decide_eq_true hk⟩
  have hroute : ∀ slot ∈ getVaildSlots slots, ∀ topic,
      ∀ l ∈ orderedLogs (st.topicAt slot.toNat topic),
        l.home st.db.slotCount = some (slot.toNat,topic) := by
    intro slot hslot topic l hl
    obtain ⟨l',-,hdata,hk⟩ := hplaced slot hslot topic l hl
    rw [Log.home] at hk ⊢
    rwa [← hdata]
  refine ⟨hf,hne,fun slot hslot => ⟨h.inRange slot hslot,h.short hst slot hslot,?_,?_,?_⟩⟩
  · intro topic hmessages
    obtain ⟨l,hl⟩ := List.exists_mem_of_ne_nil _ hmessages
    obtain ⟨l',hl',-,hk⟩ := hplaced slot hslot topic l hl
    obtain ⟨slot',hslot',hl'⟩ := List.mem_flatMap.mp hl'
    obtain ⟨last,hlast,hl'⟩ := Store.mem_savedLogs hl'
    have hk' := hroute slot' hslot' last l' hl'
    rw [hk, Option.some.injEq, Prod.mk.injEq] at hk'
    rw [hk'.1, hlast, ← hk'.2]
  · intro topic
    have hnil : Ascending [] := List.Pairwise.nil
    have hasc := ascending_foldl_keep hnil
      (placedLogs st.db.slotCount (st.allSavedLogs readdir slots) (slot.toNat,topic))
    rwa [hkept slot hslot topic, ascending_map_reset] at hasc
  · exact fun topic l hl => Log.home_eq_some.mp (hroute slot hslot topic l hl)

end RoundTrip

theorem backup_restores_iff {readdir : List Bytes → List Bytes} (hr : ∀ l, (readdir l).Perm l)
    {slotCount : Nat} {segmentMaxBytes : Int} {ops : List ContentOp} {st : Store}
    (hrun : Run.run contentStep (newStore slotCount segmentMaxBytes) ops = .ok st) (slots : Bytes)
    (segmentMaxBytes' : Int) :
    Restores readdir st (newStore slotCount segmentMaxBytes') slots ∧ Framed st slots ↔
      Intact readdir st slots := by
  obtain ⟨hst,hcount⟩ := (stocked_newStore slotCount segmentMaxBytes).run hrun
  replace hcount : st.db.slotCount = slotCount := hcount
  subst hcount
  constructor
  · rintro ⟨hrestores,hframed⟩
    exact hrestores.intact hr hst hframed
  · exact fun h => ⟨h.restores hr hst segmentMaxBytes',h.toFramed⟩

theorem orderedLogs_absent {st : Store} {slot : Nat} {topic : Bytes}
    (h : topic ∉ st.topicDirs slot) : orderedLogs (st.topicAt slot topic) = [] := by
  rw [Store.mem_topicDirs] at h
  rw [Store.topicAt, Assoc.get_eq_none_iff.mpr h]
  rfl

theorem slotIntact_of_dirs {readdir : List Bytes → List Bytes} {st : Store} {slot : Nat}
    (hrange : slot < st.db.slotCount) (hshort : ShortPairs (st.db.buckets slot))
    (h : ∀ topic ∈ st.topicDirs slot, (st.getSubdir readdir slot).getLast? = some topic ∧
      Ascending (orderedLogs (st.topicAt slot topic)) ∧
      ∀ l ∈ orderedLogs (st.topicAt slot topic), l.home st.db.slotCount = some (slot,topic)) :
    SlotIntact readdir st slot := by
  refine ⟨hrange,hshort,?_,?_,?_⟩
  · intro topic hne
    by_cases ht : topic ∈ st.topicDirs slot
    · exact (h topic ht).1
    · exact absurd (orderedLogs_absent ht) hne
  · intro topic
    by_cases ht : topic ∈ st.topicDirs slot
    · exact (h topic ht).2.1
    · rw [orderedLogs_absent ht]
      exact List.Pairwise.nil
  · intro topic l hl
    by_cases ht : topic ∈ st.topicDirs slot
    · exact Log.home_eq_some.mp ((h topic ht).2.2 l hl)
    · rw [orderedLogs_absent ht] at hl
      cases hl

def contentOf (ops : List ContentOp) : Store :=
  match Run.run contentStep (newStore 1 4096) ops with
  | .ok st => st
  | .error _ => newStore 1 4096
  | .panic _ => newStore 1 4096

def channelMessage (channelID : UInt8) (seq : UInt32) : Message :=
  { Message.zero with appliIndex := 5, messageSeq := seq, channelID := [channelID], channelType := 1,
                      payload := [7] }

def oneChannel : List ContentOp :=
  [.set 0 [0x6B] [0x76],.appendMessage (channelMessage 0x61 1),.appendMessage (channelMessage 0x61 2)]

theorem one_channel_restored :
    Restores (fun l => l) (contentOf oneChannel) (newStore 1 4096) [1] := by
  have hvalid : getVaildSlots [1] = [0] := by decide
  have hrun : Run.run contentStep (newStore 1 4096) oneChannel = .ok (contentOf oneChannel) := by rfl
  refine ((backup_restores_iff (fun l => List.Perm.refl l) hrun [1] 4096).mpr
    ⟨⟨by decide,?_,?_⟩,by decide,?_⟩).1
  · simp only [hvalid, List.forall_mem_singleton]
    decide +kernel
  · simp only [hvalid, List.forall_mem_singleton]
    decide +kernel
  · simp only [hvalid, List.forall_mem_singleton]
    exact slotIntact_of_dirs (by decide +kernel) (by decide +kernel) (by decide +kernel)

def twoChannels : List ContentOp :=
  [.appendMessage (channelMessage 0x61 1),.appendMessage (channelMessage 0x62 1)]

theorem second_channel_lost :
    Run.run contentStep (newStore 1 4096) twoChannels = .ok (contentOf twoChannels) ∧
      ¬ Restores (fun l => l) (contentOf twoChannels) (newStore 1 4096) [1] := by
  have hrun : Run.run contentStep (newStore 1 4096) twoChannels = .ok (contentOf twoChannels) := by rfl
  refine ⟨hrun,fun h => ?_⟩
  have hvalid : getVaildSlots [1] = [0] := by decide
  have hst := ((stocked_newStore 1 4096).run hrun).1
  have hframed : Framed (contentOf twoChannels) [1] := by
    refine ⟨by decide,?_,?_⟩
    · simp only [hvalid, List.forall_mem_singleton]
      decide +kernel
    · simp only [hvalid, List.forall_mem_singleton]
      decide +kernel
  have hintact := Restores.intact (fun l => List.Perm.refl l) hst h hframed
  have halone := (hintact.slots 0 (by rw [hvalid]; exact List.mem_cons_self)).alone
    (topicName [0x61] 1) (by decide +kernel)
  revert halone
  decide +kernel

end LiMaoIM.Db

import LiMaoIM.Foundation.Run
import LiMaoIM.Db.FileDB

namespace LiMaoIM.Db

open Outcome

inductive ListKind where
  | subscribers
  | denylist
  | allowlist
deriving DecidableEq, Repr

structure ChannelKey where
  kind : ListKind
  channelID : Bytes
  channelType : UInt8
deriving DecidableEq

abbrev Uid := { u : Bytes // u ≠ [] ∧ comma ∉ u }

inductive ListOp where
  | add (c : ChannelKey) (uids : List Uid)
  | remove (c : ChannelKey) (uids : List Uid)
  | removeAll (c : ChannelKey)

abbrev Lists := ChannelKey → List Uid

def Lists.apply (lists : Lists) : ListOp → Lists
  | .add c uids => Function.update lists c (lists c ++ uids)
  | .remove c uids => Function.update lists c ((lists c).filter fun u => ¬ u ∈ uids)
  | .removeAll c => Function.update lists c []

namespace FileDB

def getX (f : FileDB) (c : ChannelKey) : Outcome (List Bytes) :=
  match c.kind with
  | .subscribers => f.getSubscribers c.channelID c.channelType
  | .denylist => f.getDenylist c.channelID c.channelType
  | .allowlist => f.getAllowlist c.channelID c.channelType

def addX (f : FileDB) (c : ChannelKey) (uids : List Bytes) : Outcome FileDB :=
  match c.kind with
  | .subscribers => f.addSubscribers c.channelID c.channelType uids
  | .denylist => f.addDenylist c.channelID c.channelType uids
  | .allowlist => f.addAllowlist c.channelID c.channelType uids

def removeX (f : FileDB) (c : ChannelKey) (uids : List Bytes) : Outcome FileDB :=
  match c.kind with
  | .subscribers => f.removeSubscribers c.channelID c.channelType uids
  | .denylist => f.removeDenylist c.channelID c.channelType uids
  | .allowlist => f.removeAllowlist c.channelID c.channelType uids

def removeAllX (f : FileDB) (c : ChannelKey) : Outcome FileDB :=
  match c.kind with
  | .subscribers => f.removeAllSubscriber c.channelID c.channelType
  | .denylist => f.removeAllDenylist c.channelID c.channelType
  | .allowlist => f.removeAllAllowlist c.channelID c.channelType

def apply (f : FileDB) : ListOp → Outcome FileDB
  | .add c uids => f.addX c (uids.map Subtype.val)
  | .remove c uids => f.removeX c (uids.map Subtype.val)
  | .removeAll c => f.removeAllX c

end FileDB

structure ListSession where
  db : FileDB
  lists : Lists

def ListSession.initial (slotCount : Nat) : ListSession := ⟨newFileDB slotCount,fun _ => []⟩

def listStep (s : ListSession) (op : ListOp) : Outcome ListSession := do
  let db ← s.db.apply op
  pure ⟨db,s.lists.apply op⟩

def ListsAgree (s : ListSession) : Prop :=
  ∀ c, s.db.getX c = .ok ((s.lists c).map Subtype.val)

def listPrefix : ListKind → Bytes
  | .subscribers => FileDB.subscribersPrefix
  | .denylist => FileDB.denylistPrefix
  | .allowlist => FileDB.allowlistPrefix

def ChannelKey.key (c : ChannelKey) : Bytes :=
  FileDB.formatKey (listPrefix c.kind) c.channelID c.channelType

def SameSlot (slotCount : Nat) (c : ChannelKey) : Prop :=
  getSlotNum slotCount c.key = getSlotNum slotCount c.channelID

def InPlace (s : ListSession) : ListOp → Prop
  | .remove c uids => SameSlot s.db.slotCount c ∨ ∀ u ∈ uids, u ∉ s.lists c
  | _ => True

instance : ∀ s op, Decidable (InPlace s op)
  | _, .add _ _ => inferInstanceAs (Decidable True)
  | _, .remove _ _ => inferInstanceAs (Decidable (_ = _ ∨ _))
  | _, .removeAll _ => inferInstanceAs (Decidable True)

theorem listPrefix_head {k k' : ListKind} (h : (listPrefix k).head? = (listPrefix k').head?) :
    k = k' := by
  revert h
  cases k <;> cases k' <;> decide

theorem ChannelKey.head_key (c : ChannelKey) : c.key.head? = (listPrefix c.kind).head? := by
  obtain ⟨k,id,ty⟩ := c
  cases k <;> rfl

theorem ChannelKey.key_injective {c c' : ChannelKey} (h : c.key = c'.key) : c = c' := by
  have hkind : c.kind = c'.kind := by
    apply listPrefix_head
    rw [← c.head_key, ← c'.head_key, h]
  rw [ChannelKey.key, ChannelKey.key, hkind] at h
  obtain ⟨hid,htype⟩ := FileDB.formatKey_injective h
  obtain ⟨k,id,ty⟩ := c
  obtain ⟨k',id',ty'⟩ := c'
  simp_all

section Slots

variable {slotCount : Nat}

theorem sameSlot_iff (h : slotCount % 2 ^ 32 ≠ 0) (c : ChannelKey) :
    SameSlot slotCount c ↔ slotOf slotCount c.key = slotOf slotCount c.channelID := by
  rw [SameSlot, getSlotNum_ok h, getSlotNum_ok h]
  simp

end Slots

theorem splitList_joinList (uids : List Uid) :
    FileDB.splitList (some (FileDB.joinList (uids.map Subtype.val))) = uids.map Subtype.val := by
  cases uids with
  | nil => rfl
  | cons u uids =>
    have hjoin : 0 < (FileDB.joinList ((u :: uids).map Subtype.val)).length := by
      have hu := List.length_pos_of_ne_nil u.2.1
      cases uids with
      | nil => simpa [FileDB.joinList] using hu
      | cons v uids =>
        simp [FileDB.joinList, List.intercalate]
    rw [FileDB.splitList, Option.getD_some, if_pos hjoin, FileDB.joinList]
    apply List.splitOn_intercalate
    · intro l hl
      obtain ⟨v,-,rfl⟩ := List.mem_map.mp hl
      exact v.2.2
    · simp

namespace FileDB

variable {f : FileDB}

section Ops

variable (hn : f.slotCount % 2 ^ 32 ≠ 0) (c : ChannelKey) (uids : List Bytes)
include hn

theorem getX_eq : f.getX c = .ok (splitList (f.entry (slotOf f.slotCount c.channelID) c.key)) := by
  have hx : f.getX c = (do
      let slotNum ← f.slotNumForChannel c.channelID c.channelType
      f.getList slotNum c.key) := by
    obtain ⟨k,id,ty⟩ := c
    cases k <;> rfl
  rw [hx, slotNumForChannel, getSlotNum_ok hn, ok_bind, getList, getSlotBucket,
    if_pos (slotOf_lt hn _)]
  rfl

theorem addX_eq : f.addX c uids = .ok (f.put (slotOf f.slotCount c.channelID) c.key
    (joinList (splitList (f.entry (slotOf f.slotCount c.channelID) c.key) ++ uids))) := by
  have hx : f.addX c uids = (do
      let slotNum ← f.slotNumForChannel c.channelID c.channelType
      f.addList slotNum c.key uids) := by
    obtain ⟨k,id,ty⟩ := c
    cases k <;> rfl
  rw [hx, slotNumForChannel, getSlotNum_ok hn, ok_bind, addList, getSlotBucket,
    if_pos (slotOf_lt hn _)]
  rfl

theorem removeX_eq : f.removeX c uids = .ok (f.put (slotOf f.slotCount c.key) c.key
    (joinList ((splitList (f.entry (slotOf f.slotCount c.key) c.key)).filter
      fun v => ¬ v ∈ uids))) := by
  have hx : f.removeX c uids = (do
      let slotNum ← f.slotNumForChannel c.channelID c.channelType
      f.removeList slotNum c.key uids) := by
    obtain ⟨k,id,ty⟩ := c
    cases k <;> rfl
  rw [hx, slotNumForChannel, getSlotNum_ok hn, ok_bind, removeList, getSlotBucketWithKey,
    getSlotNum_ok hn, ok_bind, getSlotBucket, if_pos (slotOf_lt hn _)]
  rfl

theorem removeAllX_eq : f.removeAllX c = .ok (f.drop (slotOf f.slotCount c.channelID) c.key) := by
  have hx : f.removeAllX c = (do
      let slotNum ← f.slotNumForChannel c.channelID c.channelType
      f.delete slotNum c.key) := by
    obtain ⟨k,id,ty⟩ := c
    cases k <;> rfl
  rw [hx, slotNumForChannel, getSlotNum_ok hn, ok_bind, delete, getSlotBucket,
    if_pos (slotOf_lt hn _)]
  rfl

theorem getX_put_other {slot : Nat} {c' : ChannelKey} {value : Bytes} (h : c' ≠ c) :
    (f.put slot c.key value).getX c' = f.getX c' := by
  have hkey : c'.key ≠ c.key := fun he => h (ChannelKey.key_injective he)
  rw [getX_eq hn, getX_eq (f := f.put slot c.key value) hn, entry_put_ne (Or.inr hkey)]
  rfl

theorem getX_put_elsewhere {slot : Nat} {value : Bytes}
    (h : slotOf f.slotCount c.channelID ≠ slot) : (f.put slot c.key value).getX c = f.getX c := by
  rw [getX_eq hn, getX_eq (f := f.put slot c.key value) hn]
  congr 2
  exact entry_put_ne (Or.inl h)

theorem getX_put_self (list : List Uid) :
    (f.put (slotOf f.slotCount c.channelID) c.key (joinList (list.map Subtype.val))).getX c =
      .ok (list.map Subtype.val) := by
  have hentry := entry_put_self f (slotOf f.slotCount c.channelID) c.key
    (joinList (list.map Subtype.val))
  rw [getX_eq (f := f.put _ c.key _) hn]
  exact congrArg Outcome.ok ((congrArg splitList hentry).trans (splitList_joinList list))

theorem getX_drop_other {slot : Nat} {c' : ChannelKey} (h : c' ≠ c) :
    (f.drop slot c.key).getX c' = f.getX c' := by
  have hkey : c'.key ≠ c.key := fun he => h (ChannelKey.key_injective he)
  rw [getX_eq hn, getX_eq (f := f.drop slot c.key) hn, entry_drop_ne hkey]
  rfl

theorem getX_drop_self :
    (f.drop (slotOf f.slotCount c.channelID) c.key).getX c = .ok [] := by
  rw [getX_eq (f := f.drop _ c.key) hn]
  have hentry := entry_drop_self f (slotOf f.slotCount c.channelID) c.key
  exact congrArg Outcome.ok (congrArg splitList hentry)

end Ops
end FileDB

section Steps

variable {s : ListSession} {slotCount : Nat}

structure ListInv (slotCount : Nat) (s : ListSession) : Prop where
  count : s.db.slotCount = slotCount
  agree : ListsAgree s

theorem ListInv.entry_eq (hn : slotCount % 2 ^ 32 ≠ 0) (h : ListInv slotCount s) (c : ChannelKey) :
    FileDB.splitList (s.db.entry (slotOf s.db.slotCount c.channelID) c.key) =
      (s.lists c).map Subtype.val := by
  have hc := h.agree c
  rw [FileDB.getX_eq (by rwa [h.count])] at hc
  exact Outcome.ok.inj hc

theorem listStep_ok {op : ListOp} {f : FileDB} (h : s.db.apply op = .ok f) :
    listStep s op = .ok ⟨f,s.lists.apply op⟩ := by
  rw [listStep, h]
  rfl

theorem ListsAgree.update {f : FileDB} {lists : Lists} {c : ChannelKey} {list : List Uid}
    (h : ListsAgree ⟨s.db,lists⟩) (hother : ∀ c' ≠ c, f.getX c' = s.db.getX c')
    (hself : f.getX c = .ok (list.map Subtype.val)) :
    ListsAgree ⟨f,Function.update lists c list⟩ := by
  intro c'
  by_cases hc : c' = c
  · subst hc
    simpa using hself
  · have hc' := h c'
    simp only [Function.update_of_ne hc]
    rw [hother c' hc]
    exact hc'

theorem map_val_filter (l uids : List Uid) :
    (l.map Subtype.val).filter (fun v => decide (¬ v ∈ uids.map Subtype.val)) =
      (l.filter fun u => decide (¬ u ∈ uids)).map Subtype.val := by
  rw [List.filter_map]
  congr 1
  apply List.filter_congr
  intro u _
  have hmem : u.val ∈ uids.map Subtype.val ↔ u ∈ uids :=
    List.mem_map_of_injective Subtype.val_injective
  simp only [Function.comp_apply, hmem]

theorem ListInv.remove (hn : slotCount % 2 ^ 32 ≠ 0) (h : ListInv slotCount s) (c : ChannelKey)
    (uids : List Uid) :
    ∃ f, listStep s (.remove c uids) = .ok ⟨f,s.lists.apply (.remove c uids)⟩ ∧
      f.slotCount = slotCount ∧ (∀ c' ≠ c, f.getX c' = s.db.getX c') ∧
      (SameSlot slotCount c →
        f.getX c = .ok (((s.lists c).filter fun u => ¬ u ∈ uids).map Subtype.val)) ∧
      (¬ SameSlot slotCount c → f.getX c = s.db.getX c) := by
  have hn' : s.db.slotCount % 2 ^ 32 ≠ 0 := by rwa [h.count]
  refine ⟨_,listStep_ok (FileDB.removeX_eq hn' c _),h.count,?_,?_,?_⟩
  · exact fun c' hc => FileDB.getX_put_other hn' c hc
  · intro hsame
    rw [← h.count, sameSlot_iff hn'] at hsame
    rw [hsame, h.entry_eq hn c, map_val_filter]
    exact FileDB.getX_put_self hn' c _
  · intro hdiff
    rw [← h.count, sameSlot_iff hn'] at hdiff
    exact FileDB.getX_put_elsewhere hn' c (Ne.symm hdiff)

theorem ListInv.step (hn : slotCount % 2 ^ 32 ≠ 0) (s : ListSession) (op : ListOp)
    (h : ListInv slotCount s) (hc : InPlace s op) :
    ∃ s', listStep s op = .ok s' ∧ ListInv slotCount s' := by
  have hn' : s.db.slotCount % 2 ^ 32 ≠ 0 := by rwa [h.count]
  cases op with
  | add c uids =>
    refine ⟨_,listStep_ok (FileDB.addX_eq hn' c _),h.count,?_⟩
    apply h.agree.update fun c' hc' => FileDB.getX_put_other hn' c hc'
    rw [h.entry_eq hn c, ← List.map_append]
    exact FileDB.getX_put_self hn' c _
  | remove c uids =>
    obtain ⟨f,hstep,hcount,hother,hsame,hdiff⟩ := h.remove hn c uids
    refine ⟨_,hstep,hcount,h.agree.update hother ?_⟩
    by_cases hslot : SameSlot slotCount c
    · exact hsame hslot
    · have hkeep : (s.lists c).filter (fun u => decide (¬ u ∈ uids)) = s.lists c := by
        rw [InPlace, h.count] at hc
        apply List.filter_eq_self.mpr
        intro u hu
        exact decide_eq_true fun hmem => hc.resolve_left hslot u hmem hu
      rw [hdiff hslot, h.agree c, hkeep]
  | removeAll c =>
    refine ⟨_,listStep_ok (FileDB.removeAllX_eq hn' c),h.count,?_⟩
    apply h.agree.update fun c' hc' => FileDB.getX_drop_other hn' c hc'
    exact FileDB.getX_drop_self hn' c

theorem ListInv.misplaced (hn : slotCount % 2 ^ 32 ≠ 0) (s : ListSession) (op : ListOp)
    (s' : ListSession) (h : ListInv slotCount s) (hc : ¬ InPlace s op)
    (hs : listStep s op = .ok s') : ¬ ListsAgree s' := by
  cases op with
  | add c uids => exact absurd trivial hc
  | removeAll c => exact absurd trivial hc
  | remove c uids =>
    rw [InPlace, h.count, not_or] at hc
    obtain ⟨hslot,hmem⟩ := hc
    push Not at hmem
    obtain ⟨u,hu,hin⟩ := hmem
    obtain ⟨f,hstep,-,-,-,hdiff⟩ := h.remove hn c uids
    obtain rfl := Outcome.ok.inj (hs.symm.trans hstep)
    intro hagree
    have hget := hagree c
    rw [hdiff hslot, h.agree c] at hget
    have hlists : s.lists c = s.lists.apply (.remove c uids) c :=
      List.map_injective_iff.mpr Subtype.val_injective (Outcome.ok.inj hget)
    have hfilter : u ∈ (s.lists c).filter fun u => decide (¬ u ∈ uids) := by
      have happly : s.lists.apply (.remove c uids) c =
          (s.lists c).filter fun u => decide (¬ u ∈ uids) := Function.update_self ..
      rw [← happly, ← hlists]
      exact hin
    exact of_decide_eq_true (List.mem_filter.mp hfilter).2 hu

end Steps

theorem store_lists_iff (slotCount : Nat) (ops : List ListOp) :
    Run.Always listStep ListsAgree (.initial slotCount) ops ↔
      slotCount % 2 ^ 32 ≠ 0 ∧ Run.Meets listStep InPlace (.initial slotCount) ops := by
  by_cases hn : slotCount % 2 ^ 32 = 0
  · have hpanic : ¬ ListsAgree (.initial slotCount) := by
      intro hagree
      have hget := hagree ⟨.subscribers,[],0⟩
      have hslot : getSlotNum slotCount [] = .panic _ := if_pos hn
      simp [FileDB.getX, FileDB.getSubscribers, FileDB.slotNumForChannel, ListSession.initial,
        newFileDB, hslot] at hget
    exact ⟨fun h => absurd h.head hpanic,fun h => absurd hn h.1⟩
  · have hinit : ListInv slotCount (.initial slotCount) := by
      refine ⟨rfl,fun c => ?_⟩
      rw [FileDB.getX_eq hn]
      rfl
    rw [Run.always_iff_meets (fun s hs => hs.agree) (ListInv.step hn) (ListInv.misplaced hn) hinit]
    exact ⟨fun h => ⟨hn,h⟩,fun h => h.2⟩

def groupChannel : ChannelKey := ⟨.subscribers,Bytes.ofString "g",2⟩

def memberUid : Uid := ⟨Bytes.ofString "u",by decide⟩

def removedMember : List ListOp := [.add groupChannel [memberUid],.remove groupChannel [memberUid]]

theorem removed_member_stays :
    ¬ Run.Always listStep ListsAgree (.initial 256) removedMember := by
  intro h
  have hget := h.imp fun s hs => hs groupChannel
  revert hget
  decide +kernel

end LiMaoIM.Db

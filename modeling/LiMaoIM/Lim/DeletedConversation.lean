import LiMaoIM.Foundation.Run
import LiMaoIM.Lim.Conversation

namespace LiMaoIM.Lim

open Outcome
open Db (Conversation)

def HasChannel (cs : List Conversation) (x : Bytes × UInt8) : Prop :=
  ∃ c ∈ cs, c.channelID = x.1 ∧ c.channelType = x.2

instance (cs : List Conversation) (x : Bytes × UInt8) : Decidable (HasChannel cs x) :=
  inferInstanceAs (Decidable (∃ c ∈ cs, _))

def messageChannel (m : Message) (subscriber : Bytes) : Bytes × UInt8 :=
  (conversationChannelID m subscriber,m.recvPacket.channelType)

def rereadChannel (x : Bytes × UInt8) : Bytes × UInt8 := (Utf8.toValid x.1,x.2)

structure DeletionSession (opts : ConversationOptions) where
  manager : ConversationManager opts
  deleted : Bytes → List (Bytes × UInt8)

def DeletionSession.initial (opts : ConversationOptions) : DeletionSession opts :=
  ⟨.new opts,fun _ => []⟩

def deletedAfter (deleted : Bytes → List (Bytes × UInt8)) :
    ConversationEvent → Bytes → List (Bytes × UInt8)
  | .message m subscriber _ => Function.update deleted subscriber
      ((deleted subscriber).filter fun x => x ≠ messageChannel m subscriber)
  | .delete uids channelID channelType => fun uid =>
      if uid ∈ uids then (channelID,channelType) :: deleted uid else deleted uid
  | _ => deleted

def deletionStep {opts : ConversationOptions} (s : DeletionSession opts) (e : ConversationEvent) :
    Outcome (DeletionSession opts) :=
  .ok ⟨s.manager.apply e,deletedAfter s.deleted e⟩

def StaysDeleted {opts : ConversationOptions} (s : DeletionSession opts) : Prop :=
  ∀ uid, ∀ x ∈ s.deleted uid, ¬ HasChannel (s.manager.getConversations uid 0).1 x ∧
    ¬ HasChannel (s.manager.flushConversations.restart.getConversations uid 0).1 x

structure DeletionSaved {opts : ConversationOptions} (u : UserConversations opts)
    (deleted : List (Bytes × UInt8)) (x : Bytes × UInt8) : Prop where
  stored : ∀ y ∈ x :: deleted, HasChannel u.stored y →
    u.needSave = true ∧ ∃ c ∈ u.cache.values, (c.channelID,c.channelType) ≠ x
  saved : u.needSave = true → ∀ c ∈ u.cache.values, (c.channelID,c.channelType) ≠ x →
    rereadChannel (c.channelID,c.channelType) ≠ x

def KeepsDeleted {opts : ConversationOptions} (s : DeletionSession opts) : ConversationEvent → Prop
  | .message m subscriber _ => ∀ x ∈ s.deleted subscriber, x ≠ messageChannel m subscriber →
      x ≠ rereadChannel (messageChannel m subscriber)
  | .delete uids channelID channelType => ∀ uid ∈ uids,
      DeletionSaved (s.manager.users uid) (s.deleted uid) (channelID,channelType)
  | _ => True

namespace UserConversations

variable {opts : ConversationOptions} {u : UserConversations opts} {x : Bytes × UInt8}
  {cs ds : List Conversation} {c : Conversation}

structure Gone (u : UserConversations opts) (x : Bytes × UInt8) : Prop where
  cached : ¬ HasChannel u.cache.values x
  stored : u.cache.len = 0 ∨ u.needSave = false → ¬ HasChannel u.stored x
  saved : u.needSave = true → ¬ HasChannel (u.cache.values.map Conversation.reread) x

theorem hasChannel_mono (h : ∀ c ∈ cs, c ∈ ds) : HasChannel cs x → HasChannel ds x := by
  rintro ⟨c,hc,hx⟩
  exact ⟨c,h c hc,hx⟩

theorem hasChannel_congr (h : ∀ c ∈ cs, ∃ d ∈ ds, conversationKey d = conversationKey c) :
    HasChannel cs x → HasChannel ds x := by
  rintro ⟨c,hc,hid,hty⟩
  obtain ⟨d,hd,hkey⟩ := h c hc
  obtain ⟨hid',hty'⟩ := conversationKey_injective hkey
  exact ⟨d,hd,hid'.trans hid,hty'.trans hty⟩

theorem hasChannel_getConversations (u : UserConversations opts) (x : Bytes × UInt8) :
    HasChannel (u.getConversations 0).1 x ↔ HasChannel u.loadIfEmpty.cache.values x := by
  constructor
  · apply hasChannel_mono
    intro c hc
    exact Lru.mem_values.mpr (mem_getConversations.mp hc).1
  · apply hasChannel_mono
    intro c hc
    exact mem_getConversations.mpr ⟨Lru.mem_values.mp hc,Or.inl (Int64.le_refl 0)⟩

theorem Sound.hasChannel_load (h : Sound u) (hlen : u.cache.len = 0) (x : Bytes × UInt8) :
    HasChannel u.loadIfEmpty.cache.values x ↔ HasChannel u.stored x := by
  constructor
  · apply hasChannel_mono
    intro c hc
    obtain ⟨k,hk⟩ := Lru.mem_values.mp hc
    rw [h.peek_load hlen] at hk
    exact (mem_of_lastOf hk).1
  · apply hasChannel_congr
    intro c hc
    obtain ⟨d,hd⟩ := lastOf_of_mem hc
    have hpeek := (h.peek_load hlen (conversationKey c)).trans hd
    exact ⟨d,Lru.mem_values.mpr ⟨_,hpeek⟩,(mem_of_lastOf hd).2⟩

theorem values_of_len (h : u.cache.len = 0) : u.cache.values = [] := by
  rw [Lru.values, Lru.len_eq_zero.mp h]
  rfl

theorem not_hasChannel_nil : ¬ HasChannel [] x := by
  rintro ⟨c,hc,-⟩
  cases hc

theorem Sound.hasChannel_restart (h : Sound u) (x : Bytes × UInt8) :
    HasChannel (u.flushConversations.restart.getConversations 0).1 x ↔
      HasChannel u.flushConversations.stored x := by
  have hclean := needSave_flush u
  have hstored : u.flushConversations.restart.stored = u.flushConversations.stored := by
    rw [UserConversations.restart, flush_of_clean hclean]
  have hsound : Sound u.flushConversations.restart := h.flushConversations.restart
  rw [hasChannel_getConversations, hsound.hasChannel_load rfl, hstored]

theorem Sound.gone_iff (h : Sound u) (x : Bytes × UInt8) :
    ¬ HasChannel (u.getConversations 0).1 x ∧
      ¬ HasChannel (u.flushConversations.restart.getConversations 0).1 x ↔ Gone u x := by
  rw [hasChannel_getConversations, h.hasChannel_restart]
  constructor
  · rintro ⟨hnow,hlater⟩
    refine ⟨?_,?_,?_⟩
    · rcases eq_or_ne u.cache.len 0 with hlen | hlen
      · rw [values_of_len hlen]
        exact not_hasChannel_nil
      · rwa [loadIfEmpty_of_len hlen] at hnow
    · rintro (hlen | hclean)
      · rwa [h.hasChannel_load hlen] at hnow
      · rwa [flush_of_clean hclean] at hlater
    · intro hsave
      rwa [flush_of_save hsave] at hlater
  · intro hgone
    constructor
    · rcases eq_or_ne u.cache.len 0 with hlen | hlen
      · rw [h.hasChannel_load hlen]
        exact hgone.stored (Or.inl hlen)
      · rw [loadIfEmpty_of_len hlen]
        exact hgone.cached
    · cases hsave : u.needSave with
      | false =>
        rw [flush_of_clean hsave]
        exact hgone.stored (Or.inr hsave)
      | true =>
        rw [flush_of_save hsave]
        exact hgone.saved hsave

structure Cleared (u : UserConversations opts) (deleted : List (Bytes × UInt8)) : Prop where
  sound : Sound u
  covered : u.needSave = false → ∀ c ∈ u.cache.values,
    HasChannel u.stored (rereadChannel (c.channelID,c.channelType))
  gone : ∀ x ∈ deleted, Gone u x

variable {deleted : List (Bytes × UInt8)}

theorem hasChannel_reread : HasChannel (cs.map Conversation.reread) x ↔
    ∃ c ∈ cs, rereadChannel (c.channelID,c.channelType) = x := by
  constructor
  · rintro ⟨d,hd,hid,hty⟩
    obtain ⟨c,hc,rfl⟩ := List.mem_map.mp hd
    exact ⟨c,hc,Prod.ext hid hty⟩
  · rintro ⟨c,hc,rfl⟩
    exact ⟨c.reread,List.mem_map_of_mem hc,rfl,rfl⟩

theorem Cleared.not_reread (h : Cleared u deleted) (hx : x ∈ deleted) :
    ¬ HasChannel (u.cache.values.map Conversation.reread) x := by
  cases hsave : u.needSave with
  | true => exact (h.gone x hx).saved hsave
  | false =>
    rw [hasChannel_reread]
    rintro ⟨c,hc,rfl⟩
    exact (h.gone _ hx).stored (Or.inr hsave) (h.covered hsave c hc)

theorem Cleared.loadIfEmpty (h : Cleared u deleted) : Cleared u.loadIfEmpty deleted := by
  rcases eq_or_ne u.cache.len 0 with hlen | hlen
  · have hmem : ∀ c ∈ u.loadIfEmpty.cache.values, c ∈ u.stored := by
      intro c hc
      obtain ⟨k,hk⟩ := Lru.mem_values.mp hc
      rw [h.sound.peek_load hlen] at hk
      exact (mem_of_lastOf hk).1
    have hreread : ∀ c ∈ u.loadIfEmpty.cache.values,
        rereadChannel (c.channelID,c.channelType) = (c.channelID,c.channelType) := by
      intro c hc
      have hself := h.sound.reread c (hmem c hc)
      exact Prod.ext (congrArg Conversation.channelID hself) rfl
    refine ⟨h.sound.loadIfEmpty,fun _ c hc => ?_,fun x hx => ⟨?_,fun _ => ?_,fun _ => ?_⟩⟩
    · rw [hreread c hc, stored_loadIfEmpty]
      exact ⟨c,hmem c hc,rfl,rfl⟩
    · rw [h.sound.hasChannel_load hlen]
      exact (h.gone x hx).stored (Or.inl hlen)
    · rw [stored_loadIfEmpty]
      exact (h.gone x hx).stored (Or.inl hlen)
    · rw [hasChannel_reread]
      rintro ⟨c,hc,rfl⟩
      rw [hreread c hc] at hx
      exact (h.gone _ hx).stored (Or.inl hlen) ⟨c,hmem c hc,rfl,rfl⟩
  · rwa [loadIfEmpty_of_len hlen]

theorem Cleared.flushConversations (h : Cleared u deleted) : Cleared u.flushConversations deleted := by
  cases hsave : u.needSave with
  | false => rwa [flush_of_clean hsave]
  | true =>
    have hsound := h.sound.flushConversations
    rw [flush_of_save hsave] at hsound ⊢
    refine ⟨hsound,fun _ c hc => ?_,fun x hx => ⟨(h.gone x hx).cached,fun _ => h.not_reread hx,nofun⟩⟩
    exact hasChannel_reread.mpr ⟨c,hc,rfl⟩

theorem Cleared.restart (h : Cleared u deleted) : Cleared u.restart deleted := by
  have hclean := needSave_flush u
  refine ⟨h.sound.restart,fun _ c hc => ?_,fun x hx => ⟨not_hasChannel_nil,fun _ => ?_,nofun⟩⟩
  · cases hc
  · exact (h.flushConversations.gone x hx).stored (Or.inr hclean)

theorem Cleared.setConversationUnread (h : Cleared u deleted) (channelID : Bytes)
    (channelType : UInt8) (unread : Int64) :
    Cleared (u.setConversationUnread channelID channelType unread) deleted := by
  have hsound := h.sound.setConversationUnread channelID channelType unread
  cases hpeek : u.cache.peek (getChannelKey channelID channelType) with
  | none => rwa [setConversationUnread_none unread hpeek]
  | some c =>
    obtain ⟨cache,hcache,heq⟩ := setConversationUnread_some unread hpeek
    rw [heq] at hsound ⊢
    have hsame : ∀ d ∈ cache.values, ∃ e ∈ u.cache.values,
        e.channelID = d.channelID ∧ e.channelType = d.channelType := by
      intro d hd
      obtain ⟨k,hk⟩ := Lru.mem_values.mp hd
      rw [hcache] at hk
      split at hk
      · obtain rfl := Option.some.inj hk
        exact ⟨c,Lru.mem_values.mpr ⟨_,hpeek⟩,rfl,rfl⟩
      · exact ⟨d,Lru.mem_values.mpr ⟨k,hk⟩,rfl,rfl⟩
    have hlen : cache.len ≠ 0 := by
      have hself := hcache (getChannelKey channelID channelType)
      rw [if_pos rfl] at hself
      exact Lru.len_pos_of_peek hself
    refine ⟨hsound,nofun,fun x hx => ⟨?_,fun hwhy => ?_,fun _ => ?_⟩⟩
    · rintro ⟨d,hd,hid,hty⟩
      obtain ⟨e,he,hid',hty'⟩ := hsame d hd
      exact (h.gone x hx).cached ⟨e,he,hid'.trans hid,hty'.trans hty⟩
    · rcases hwhy with hzero | hclean
      · exact absurd hzero hlen
      · cases hclean
    · rw [hasChannel_reread]
      rintro ⟨d,hd,rfl⟩
      obtain ⟨e,he,hid,hty⟩ := hsame d hd
      refine h.not_reread hx (hasChannel_reread.mpr ⟨e,he,?_⟩)
      rw [hid, hty]

theorem Sound.mem_deleteConversation (h : Sound u) (x : Bytes × UInt8) :
    c ∈ (u.deleteConversation x.1 x.2).cache.values ↔
      c ∈ u.cache.values ∧ (c.channelID,c.channelType) ≠ x := by
  simp only [Lru.mem_values]
  constructor
  · rintro ⟨k,hk⟩
    obtain ⟨hne,hold⟩ := Lru.peek_of_remove hk
    refine ⟨⟨k,hold⟩,?_⟩
    rintro rfl
    exact hne (h.matched k c hold)
  · rintro ⟨⟨k,hk⟩,hne⟩
    refine ⟨k,(Lru.peek_remove_ne ?_ u.cache).trans hk⟩
    rw [h.matched k c hk]
    intro hkey
    obtain ⟨hid,hty⟩ := LiMao.channelKey_injective hkey
    exact hne (Prod.ext hid hty)

theorem Sound.len_deleteConversation (h : Sound u) (x : Bytes × UInt8) :
    (u.deleteConversation x.1 x.2).cache.len ≠ 0 ↔
      ∃ c ∈ u.cache.values, (c.channelID,c.channelType) ≠ x := by
  simp only [← h.mem_deleteConversation x]
  constructor
  · intro hlen
    cases hvalues : (u.deleteConversation x.1 x.2).cache.values with
    | nil =>
      have hitems := List.map_eq_nil_iff.mp hvalues
      exact absurd (Lru.len_eq_zero.mpr hitems) hlen
    | cons c rest => exact ⟨c,List.mem_cons_self⟩
  · rintro ⟨c,hc⟩ hzero
    rw [values_of_len hzero] at hc
    cases hc

theorem Cleared.deleteConversation (h : Cleared u deleted) (hsaved : DeletionSaved u deleted x) :
    Cleared (u.deleteConversation x.1 x.2) (x :: deleted) := by
  have hmem : ∀ {c}, c ∈ (u.deleteConversation x.1 x.2).cache.values →
      c ∈ u.cache.values ∧ (c.channelID,c.channelType) ≠ x :=
    (h.sound.mem_deleteConversation x).mp
  refine ⟨h.sound.deleteConversation x.1 x.2,fun hclean c hc => h.covered hclean c (hmem hc).1,?_⟩
  intro y hy
  refine ⟨?_,fun hwhy hstored => ?_,fun hsave => ?_⟩
  · rcases List.mem_cons.mp hy with rfl | hy
    · rintro ⟨c,hc,hid,hty⟩
      exact (hmem hc).2 (Prod.ext hid hty)
    · exact fun hhas => (h.gone y hy).cached (hasChannel_mono (fun c hc => (hmem hc).1) hhas)
  · obtain ⟨hsave,hrest⟩ := hsaved.stored y hy hstored
    rcases hwhy with hzero | hclean
    · exact (h.sound.len_deleteConversation x).mpr hrest hzero
    · have hclean' : u.needSave = false := hclean
      rw [hsave] at hclean'
      cases hclean'
  · rw [hasChannel_reread]
    rintro ⟨c,hc,hreread⟩
    rcases List.mem_cons.mp hy with rfl | hy
    · exact hsaved.saved hsave c (hmem hc).1 (hmem hc).2 hreread
    · exact h.not_reread hy (hasChannel_reread.mpr ⟨c,(hmem hc).1,hreread⟩)

theorem Sound.deletionSaved (hs : Sound u)
    (h : ∀ y ∈ x :: deleted, Gone (u.deleteConversation x.1 x.2) y) : DeletionSaved u deleted x := by
  refine ⟨fun y hy hstored => ?_,fun hsave c hc hne hreread => ?_⟩
  · have hgone := (h y hy).stored
    rw [← hs.len_deleteConversation x]
    constructor
    · cases hsave : u.needSave with
      | true => rfl
      | false => exact absurd hstored (hgone (Or.inr hsave))
    · exact fun hzero => hgone (Or.inl hzero) hstored
  · have hc' := (hs.mem_deleteConversation x).mpr ⟨hc,hne⟩
    exact (h x List.mem_cons_self).saved hsave (hasChannel_reread.mpr ⟨c,hc',hreread⟩)

theorem Sound.next_channel (h : Sound u) (m : Message) (subscriber : Bytes) (now : Int64) :
    ((nextConversation m subscriber now (u.loadIfEmpty.cache.peek (m.key subscriber))).1.channelID,
      (nextConversation m subscriber now (u.loadIfEmpty.cache.peek (m.key subscriber))).1.channelType) =
        messageChannel m subscriber := by
  obtain ⟨hid,hty⟩ := LiMao.channelKey_injective (h.next_key m subscriber now)
  exact Prod.ext hid hty

structure Processed (m : Message) (subscriber : Bytes) (u u' : UserConversations opts) : Prop where
  stored : u'.stored = u.stored
  len : u'.cache.len ≠ 0
  here : ∃ c ∈ u'.cache.values, (c.channelID,c.channelType) = messageChannel m subscriber
  values : ∀ c ∈ u'.cache.values, (c.channelID,c.channelType) = messageChannel m subscriber ∨
    c ∈ u.cache.values
  save : u'.needSave = false → u.needSave = false ∧
    ∃ c ∈ u.cache.values, (c.channelID,c.channelType) = messageChannel m subscriber

theorem Sound.processed (h : Sound u) (m : Message) (subscriber : Bytes) (now : Int64) :
    Processed m subscriber u.loadIfEmpty (u.calConversation m subscriber now) := by
  have hchannel := h.next_channel m subscriber now
  obtain ⟨cache,hpeek,-,heq⟩ := calConversation_eq m subscriber now u
  rw [heq]
  have hself := Lru.peek_add_self opts.positive (m.key subscriber)
    (nextConversation m subscriber now (u.loadIfEmpty.cache.peek (m.key subscriber))).1 cache
  refine ⟨rfl,Lru.len_pos_of_peek hself,⟨_,Lru.mem_values.mpr ⟨_,hself⟩,hchannel⟩,fun c hc => ?_,?_⟩
  · obtain ⟨k,hk⟩ := Lru.mem_values.mp hc
    rcases Lru.peek_of_add hk with ⟨-,rfl⟩ | hold
    · exact Or.inl hchannel
    · rw [hpeek] at hold
      exact Or.inr (Lru.mem_values.mpr ⟨k,hold⟩)
  · intro hclean
    obtain ⟨hsave,hmodify⟩ := Bool.or_eq_false_iff.mp hclean
    rw [needSave_loadIfEmpty]
    refine ⟨hsave,?_⟩
    cases hold : u.loadIfEmpty.cache.peek (m.key subscriber) with
    | none =>
      rw [hold] at hmodify
      cases hmodify
    | some c =>
      have hkey := h.loadIfEmpty.matched _ c hold
      obtain ⟨hid,hty⟩ := LiMao.channelKey_injective hkey
      exact ⟨c,Lru.mem_values.mpr ⟨_,hold⟩,Prod.ext hid.symm hty.symm⟩

theorem Cleared.calConversation (h : Cleared u deleted) {m : Message} {subscriber : Bytes} (now : Int64)
    (hother : ∀ x ∈ deleted, x ≠ messageChannel m subscriber →
      x ≠ rereadChannel (messageChannel m subscriber)) :
    Cleared (u.calConversation m subscriber now)
      (deleted.filter fun x => x ≠ messageChannel m subscriber) := by
  have hp := h.sound.processed m subscriber now
  have hl := h.loadIfEmpty
  refine ⟨h.sound.calConversation m subscriber now,fun hclean c hc => ?_,fun x hx => ?_⟩
  · obtain ⟨hsave,old,hold,hchannel⟩ := hp.save hclean
    rw [hp.stored]
    rcases hp.values c hc with hnew | hkept
    · have hcovered := hl.covered hsave old hold
      rwa [hchannel, ← hnew] at hcovered
    · exact hl.covered hsave c hkept
  · obtain ⟨hx,hne⟩ := List.mem_filter.mp hx
    have hne := of_decide_eq_true hne
    refine ⟨?_,fun hwhy => ?_,fun _ => ?_⟩
    · rintro ⟨c,hc,hid,hty⟩
      rcases hp.values c hc with hnew | hkept
      · exact hne ((Prod.ext hid.symm hty.symm).trans hnew)
      · exact (hl.gone x hx).cached ⟨c,hkept,hid,hty⟩
    · rw [hp.stored]
      rcases hwhy with hzero | hclean
      · exact absurd hzero hp.len
      · exact (hl.gone x hx).stored (Or.inr (hp.save hclean).1)
    · rw [hasChannel_reread]
      rintro ⟨c,hc,rfl⟩
      rcases hp.values c hc with hnew | hkept
      · rw [hnew] at hx hne
        exact hother _ hx hne rfl
      · exact hl.not_reread hx (hasChannel_reread.mpr ⟨c,hkept,rfl⟩)

theorem Cleared.other_of_gone (h : Cleared u deleted) {m : Message} {subscriber : Bytes} {now : Int64}
    (hgone : ∀ x ∈ deleted.filter (fun x => x ≠ messageChannel m subscriber),
      Gone (u.calConversation m subscriber now) x) :
    ∀ x ∈ deleted, x ≠ messageChannel m subscriber → x ≠ rereadChannel (messageChannel m subscriber) := by
  rintro x hx hne rfl
  have hp := h.sound.processed m subscriber now
  have hg := hgone _ (List.mem_filter.mpr ⟨hx,decide_eq_true hne⟩)
  cases hsave : (u.calConversation m subscriber now).needSave with
  | true =>
    obtain ⟨c,hc,hchannel⟩ := hp.here
    refine hg.saved hsave (hasChannel_reread.mpr ⟨c,hc,?_⟩)
    rw [hchannel]
  | false =>
    obtain ⟨hclean,old,hold,hchannel⟩ := hp.save hsave
    have hcovered := h.loadIfEmpty.covered hclean old hold
    rw [hchannel, ← hp.stored] at hcovered
    exact hg.stored (Or.inr hsave) hcovered

theorem cleared_empty : Cleared (.empty : UserConversations opts) [] := by
  refine ⟨sound_empty,fun _ c hc => ?_,fun x hx => ?_⟩
  · cases hc
  · cases hx

end UserConversations

section Sessions

variable {opts : ConversationOptions} {s s' : DeletionSession opts}

def AllCleared (s : DeletionSession opts) : Prop :=
  ∀ uid, UserConversations.Cleared (s.manager.users uid) (s.deleted uid)

theorem staysDeleted_iff (h : ∀ uid, (s.manager.users uid).Sound) :
    StaysDeleted s ↔ ∀ uid, ∀ x ∈ s.deleted uid, UserConversations.Gone (s.manager.users uid) x := by
  constructor
  · exact fun hstays uid x hx => ((h uid).gone_iff x).mp (hstays uid x hx)
  · exact fun hgone uid x hx => ((h uid).gone_iff x).mpr (hgone uid x hx)

theorem deletionStep_keeps (e : ConversationEvent) (h : AllCleared s) (hc : KeepsDeleted s e) :
    ∃ s', deletionStep s e = .ok s' ∧ AllCleared s' := by
  refine ⟨_,rfl,fun uid => ?_⟩
  cases e with
  | message m subscriber now =>
    simp only [ConversationManager.apply, ConversationManager.calConversation, deletedAfter]
    rcases eq_or_ne uid subscriber with rfl | hne
    · rw [ConversationManager.setUser_self, Function.update_self]
      exact (h uid).calConversation now hc
    · rw [ConversationManager.setUser_ne hne, Function.update_of_ne hne]
      exact h uid
  | flush => exact (h uid).flushConversations
  | get user version =>
    simp only [ConversationManager.apply, ConversationManager.getConversations, deletedAfter,
      UserConversations.getConversations_snd]
    rcases eq_or_ne uid user with rfl | hne
    · rw [ConversationManager.setUser_self]
      exact (h uid).loadIfEmpty
    · rw [ConversationManager.setUser_ne hne]
      exact h uid
  | setUnread user channelID channelType unread =>
    simp only [ConversationManager.apply, ConversationManager.setConversationUnread, deletedAfter]
    rcases eq_or_ne uid user with rfl | hne
    · rw [ConversationManager.setUser_self]
      exact (h uid).setConversationUnread channelID channelType unread
    · rw [ConversationManager.setUser_ne hne]
      exact h uid
  | delete uids channelID channelType =>
    simp only [ConversationManager.apply, ConversationManager.users_deleteConversation, deletedAfter]
    split
    · rename_i hmem
      exact (h uid).deleteConversation (hc uid hmem)
    · exact h uid
  | restart => exact (h uid).restart

theorem deletionStep_breaks (e : ConversationEvent) (h : AllCleared s) (hc : ¬ KeepsDeleted s e)
    (hstep : deletionStep s e = .ok s') : ¬ StaysDeleted s' := by
  obtain rfl := Outcome.ok.inj hstep
  have hsound := ConversationManager.sound_apply (fun uid => (h uid).sound) e
  rw [staysDeleted_iff hsound]
  intro hgone
  apply hc
  cases e with
  | message m subscriber now =>
    have hsub := hgone subscriber
    simp only [ConversationManager.apply, ConversationManager.calConversation, deletedAfter,
      ConversationManager.setUser_self, Function.update_self] at hsub
    exact (h subscriber).other_of_gone hsub
  | delete uids channelID channelType =>
    intro uid hmem
    have huid := hgone uid
    simp only [ConversationManager.apply, ConversationManager.users_deleteConversation, deletedAfter,
      if_pos hmem] at huid
    exact (h uid).sound.deletionSaved huid
  | flush => trivial
  | get user version => trivial
  | setUnread user channelID channelType unread => trivial
  | restart => trivial

end Sessions

theorem deleted_conversations_stay_deleted_iff (opts : ConversationOptions)
    (events : List ConversationEvent) :
    Run.Always deletionStep StaysDeleted (.initial opts) events ↔
      Run.Meets deletionStep KeepsDeleted (.initial opts) events := by
  have hstays : ∀ s : DeletionSession opts, AllCleared s → StaysDeleted s := fun s h =>
    (staysDeleted_iff fun uid => (h uid).sound).mpr fun uid => (h uid).gone
  exact Run.always_iff_meets hstays (fun _ e h hc => deletionStep_keeps e h hc)
    (fun _ e _ h hc hstep => deletionStep_breaks e h hc hstep)
    fun _ => UserConversations.cleared_empty

def hundredConversations : ConversationOptions := ⟨100,by decide⟩

def groupMessage (fromUID channelID : Bytes) (seq : UInt32) : Message where
  recvPacket :=
    { framer := { redDot := true }
      msgKey := []
      messageID := 1
      messageSeq := seq
      clientMsgNo := []
      timestamp := 0
      fromUID := fromUID
      channelID := channelID
      channelType := channelTypeGroup
      payload := [] }
  toUID := []
  subscribers := []
  fromDeviceFlag := 0
  toClientID := 0

theorem deleted_conversation_returns :
    ¬ Run.Always deletionStep StaysDeleted (.initial hundredConversations)
      [.message (groupMessage [0x61] [0x67] 1) [0x75] 0,.flush,.delete [[0x75]] [0x67] 2] := by
  intro h
  have hlast := (h.last rfl [0x75] ([0x67],2) (by decide)).1
  revert hlast
  decide +kernel

end LiMaoIM.Lim

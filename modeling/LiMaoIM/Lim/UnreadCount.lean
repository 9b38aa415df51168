import LiMaoIM.Lim.DeletedConversation

namespace LiMaoIM.Lim

open Db (Conversation)

def reached (opts : ConversationOptions) (events : List ConversationEvent) : ConversationManager opts :=
  events.foldl ConversationManager.apply (.new opts)

def KeepsConversations (uid : Bytes) : ConversationEvent → Prop
  | .delete uids _ _ => uid ∉ uids
  | _ => True

def LeavesUnread (uid : Bytes) : ConversationEvent → Prop
  | .message _ subscriber _ => subscriber ≠ uid
  | .setUnread user _ _ _ => user ≠ uid
  | .delete uids _ _ => uid ∉ uids
  | .flush | .get _ _ | .restart => True

structure Reports (cs : List Conversation) (x : Bytes × UInt8) (unread : Int64) : Prop where
  listed : HasChannel cs x
  unread : ∀ c ∈ cs, c.channelID = x.1 → c.channelType = x.2 → c.unreadCount = unread

namespace UserConversations

variable {opts : ConversationOptions} {u : UserConversations opts} {x : Bytes × UInt8}
  {c : Conversation} {cs : List Conversation} {unread : Int64}

def storedUnread (u : UserConversations opts) (x : Bytes × UInt8) : Option Int64 :=
  (lastOf (getChannelKey x.1 x.2) u.stored).map Conversation.unreadCount

theorem Sound.reports_iff (h : Sound u) :
    Reports (u.getConversations 0).1 x unread ↔
      ∃ c, u.loadIfEmpty.cache.peek (getChannelKey x.1 x.2) = some c ∧ c.unreadCount = unread := by
  have hmem : ∀ c, c ∈ (u.getConversations 0).1 ∧ c.channelID = x.1 ∧ c.channelType = x.2 ↔
      u.loadIfEmpty.cache.peek (getChannelKey x.1 x.2) = some c := by
    intro c
    rw [mem_getConversations]
    constructor
    · rintro ⟨⟨⟨k,hk⟩,-⟩,hid,hty⟩
      have hkey := h.loadIfEmpty.matched k c hk
      rw [conversationKey, hid, hty] at hkey
      rwa [← hkey]
    · intro hk
      obtain ⟨hid,hty⟩ := LiMao.channelKey_injective (h.loadIfEmpty.matched _ c hk)
      exact ⟨⟨⟨_,hk⟩,Or.inl (Int64.le_refl 0)⟩,hid.symm,hty.symm⟩
  constructor
  · rintro ⟨⟨c,hc,hid,hty⟩,hall⟩
    exact ⟨c,(hmem c).mp ⟨hc,hid,hty⟩,hall c hc hid hty⟩
  · rintro ⟨c,hpeek,hunread⟩
    obtain ⟨hc,hid,hty⟩ := (hmem c).mpr hpeek
    refine ⟨⟨c,hc,hid,hty⟩,fun d hd hid' hty' => ?_⟩
    have hd' := (hmem d).mp ⟨hd,hid',hty'⟩
    rw [hpeek] at hd'
    rwa [← Option.some.inj hd']

theorem Sound.peek_of_hasChannel (h : Sound u) (hx : HasChannel u.cache.values x) :
    ∃ c, u.cache.peek (getChannelKey x.1 x.2) = some c := by
  obtain ⟨c,hc,hid,hty⟩ := hx
  obtain ⟨k,hk⟩ := Lru.mem_values.mp hc
  have hkey := h.matched k c hk
  rw [conversationKey, hid, hty] at hkey
  exact ⟨c,hkey ▸ hk⟩

structure Settled (cs : List Conversation) (u : UserConversations opts) : Prop where
  sound : Sound u
  stored : u.stored = cs
  saved : u.needSave = false
  cached : u.cache.len ≠ 0 → ∀ k, u.cache.peek k = lastOf k cs

theorem Settled.loadIfEmpty (h : Settled cs u) : Settled cs u.loadIfEmpty := by
  rcases eq_or_ne u.cache.len 0 with hlen | hlen
  · refine ⟨h.sound.loadIfEmpty,?_,?_,fun _ k => ?_⟩
    · rw [stored_loadIfEmpty, h.stored]
    · rw [needSave_loadIfEmpty, h.saved]
    · rw [h.sound.peek_load hlen, h.stored]
  · rwa [loadIfEmpty_of_len hlen]

theorem settled_of_restart (h : Sound u) (hsaved : u.needSave = false) :
    Settled u.stored u.restart := by
  have hstored : u.restart.stored = u.stored := by
    rw [UserConversations.restart, flush_of_clean hsaved]
  exact ⟨h.restart,hstored,rfl,fun hlen => absurd rfl hlen⟩

theorem Settled.restart (h : Settled cs u) : Settled cs u.restart := by
  have hrestart := settled_of_restart h.sound h.saved
  rwa [h.stored] at hrestart

theorem Settled.reports_iff (h : Settled cs u) :
    Reports (u.getConversations 0).1 x unread ↔
      (lastOf (getChannelKey x.1 x.2) cs).map Conversation.unreadCount = some unread := by
  rw [h.sound.reports_iff, Option.map_eq_some_iff]
  have hpeek : u.loadIfEmpty.cache.peek (getChannelKey x.1 x.2) =
      lastOf (getChannelKey x.1 x.2) cs := by
    rcases eq_or_ne u.cache.len 0 with hlen | hlen
    · rw [h.sound.peek_load hlen, h.stored]
    · rw [loadIfEmpty_of_len hlen, h.cached hlen]
  rw [hpeek]

structure Newest (k : Bytes) (unread : Int64) (u : UserConversations opts) : Prop where
  sound : Sound u
  newest : ∃ cs c, u.cache.values = cs ++ [c] ∧ conversationKey c = k ∧ c.unreadCount = unread
  stored : u.needSave = false → u.stored = u.cache.values.map Conversation.reread

variable {k : Bytes}

theorem Newest.peek (h : Newest k unread u) :
    ∃ c, u.cache.peek k = some c ∧ c.unreadCount = unread := by
  obtain ⟨cs,c,hvalues,hk,hunread⟩ := h.newest
  have hmem : c ∈ u.cache.values := by
    rw [hvalues]
    exact List.mem_append_right _ List.mem_cons_self
  obtain ⟨k',hk'⟩ := Lru.mem_values.mp hmem
  rw [h.sound.matched k' c hk', hk] at hk'
  exact ⟨c,hk',hunread⟩

theorem Newest.len (h : Newest k unread u) : u.cache.len ≠ 0 := by
  obtain ⟨c,hc,-⟩ := h.peek
  exact Lru.len_pos_of_peek hc

theorem Newest.loadIfEmpty (h : Newest k unread u) : Newest k unread u.loadIfEmpty := by
  rwa [loadIfEmpty_of_len h.len]

theorem Newest.flushConversations (h : Newest k unread u) :
    Newest k unread u.flushConversations := by
  cases hsave : u.needSave with
  | false => rwa [flush_of_clean hsave]
  | true =>
    refine ⟨h.sound.flushConversations,?_,?_⟩
    · rw [flush_of_save hsave]
      exact h.newest
    · rw [flush_of_save hsave]
      exact fun _ => rfl

theorem Newest.restart (h : Newest k unread u) :
    ∃ cs c, conversationKey c = k ∧ c.unreadCount = unread ∧
      Settled ((cs ++ [c]).map Conversation.reread) u.restart := by
  have hflush := h.flushConversations
  obtain ⟨cs,c,hvalues,hk,hunread⟩ := hflush.newest
  have hstored := hflush.stored (needSave_flush u)
  rw [hvalues] at hstored
  have hsettled := settled_of_restart hflush.sound (needSave_flush u)
  rw [hstored] at hsettled
  have hsame : u.flushConversations.restart = u.restart := by
    rw [UserConversations.restart, UserConversations.restart, flush_of_clean (needSave_flush u)]
  rw [hsame] at hsettled
  exact ⟨cs,c,hk,hunread,hsettled⟩

theorem Newest.reports (h : Newest (getChannelKey x.1 x.2) unread u) :
    Reports (u.getConversations 0).1 x unread := by
  rw [h.sound.reports_iff, loadIfEmpty_of_len h.len]
  exact h.peek

theorem lastOf_reread (cs : List Conversation) (hk : conversationKey c = getChannelKey x.1 x.2) :
    (lastOf (getChannelKey x.1 x.2) ((cs ++ [c]).map Conversation.reread)).map
        Conversation.unreadCount = some c.unreadCount ↔ Utf8.toValid x.1 = x.1 := by
  obtain ⟨hid,hty⟩ := LiMao.channelKey_injective hk
  rw [List.map_append, List.map_singleton]
  constructor
  · intro hlast
    obtain ⟨d,hd,-⟩ := Option.map_eq_some_iff.mp hlast
    obtain ⟨hmem,hkey⟩ := mem_of_lastOf hd
    rw [← List.map_singleton, ← List.map_append] at hmem
    obtain ⟨e,-,rfl⟩ := List.mem_map.mp hmem
    have hvalid : Utf8.toValid e.channelID = x.1 := (LiMao.channelKey_injective hkey).1
    rw [← hvalid, Utf8.toValid_toValid]
  · intro hvalid
    have hkey : conversationKey c.reread = getChannelKey x.1 x.2 := by
      have hsame : c.reread.channelID = c.channelID :=
        (congrArg Utf8.toValid hid).trans (hvalid.trans hid.symm)
      exact (conversationKey_congr hsame rfl).trans hk
    rw [lastOf, List.filter_append, List.filter_singleton, hkey, decide_eq_true rfl,
      List.getLast?_append]
    rfl

theorem Sound.newest_setConversationUnread (h : Sound u) (hx : HasChannel u.cache.values x)
    (unread : Int64) :
    Newest (getChannelKey x.1 x.2) unread (u.setConversationUnread x.1 x.2 unread) := by
  obtain ⟨c,hc⟩ := h.peek_of_hasChannel hx
  have hget : u.cache.get (getChannelKey x.1 x.2) =
      (some c,(u.cache.get (getChannelKey x.1 x.2)).2) := Prod.ext ((Lru.get_fst _ _).trans hc) rfl
  have hset : u.setConversationUnread x.1 x.2 unread =
      ⟨(u.cache.get (getChannelKey x.1 x.2)).2.add (getChannelKey x.1 x.2)
        { c with unreadCount := unread },true,u.stored⟩ := by
    rw [UserConversations.setConversationUnread, hget]
  have hkey : conversationKey { c with unreadCount := unread } = getChannelKey x.1 x.2 :=
    (h.matched _ c hc).symm
  refine ⟨h.setConversationUnread x.1 x.2 unread,?_,?_⟩
  · rw [hset]
    obtain ⟨cs,hcs⟩ := Lru.values_add_last ((Lru.peek_get _ _ _).trans hc)
      { c with unreadCount := unread }
    exact ⟨cs,_,hcs,hkey,rfl⟩
  · rw [hset]
    intro hsave
    cases hsave

theorem Sound.settled (h : Sound u) (hlen : u.cache.len = 0) (hsaved : u.needSave = false) :
    Settled u.stored u := ⟨h,rfl,hsaved,fun hne => absurd hlen hne⟩

end UserConversations

namespace ConversationManager

variable {opts : ConversationOptions} {cm : ConversationManager opts} {uid : Bytes}
  {e : ConversationEvent} {later : List ConversationEvent} {cs : List Conversation}
  {k : Bytes} {unread : Int64}

theorem users_apply (cm : ConversationManager opts) (he : LeavesUnread uid e) :
    e ≠ .restart ∧ ((cm.apply e).users uid = cm.users uid ∨
      (cm.apply e).users uid = (cm.users uid).flushConversations ∨
      (cm.apply e).users uid = (cm.users uid).loadIfEmpty) ∨
    e = .restart ∧ (cm.apply e).users uid = (cm.users uid).restart := by
  cases e with
  | message m subscriber now =>
    exact Or.inl ⟨ConversationEvent.noConfusion,Or.inl (setUser_ne (Ne.symm he) ..)⟩
  | flush => exact Or.inl ⟨ConversationEvent.noConfusion,Or.inr (Or.inl rfl)⟩
  | get user version =>
    refine Or.inl ⟨ConversationEvent.noConfusion,?_⟩
    rcases eq_or_ne uid user with rfl | hne
    · right
      right
      rw [apply, getConversations, setUser_self, UserConversations.getConversations_snd]
    · exact Or.inl (setUser_ne hne ..)
  | setUnread user channelID channelType n =>
    exact Or.inl ⟨ConversationEvent.noConfusion,Or.inl (setUser_ne (Ne.symm he) ..)⟩
  | delete uids channelID channelType =>
    refine Or.inl ⟨ConversationEvent.noConfusion,Or.inl ?_⟩
    rw [apply, users_deleteConversation, if_neg he]
  | restart => exact Or.inr ⟨rfl,rfl⟩

theorem settled_apply (h : (cm.users uid).Settled cs) (he : LeavesUnread uid e) :
    ((cm.apply e).users uid).Settled cs := by
  rcases users_apply cm he with ⟨-,heq | heq | heq⟩ | ⟨-,heq⟩
  · rwa [heq]
  · rwa [heq, UserConversations.flush_of_clean h.saved]
  · rw [heq]
    exact h.loadIfEmpty
  · rw [heq]
    exact h.restart

theorem settled_later (h : (cm.users uid).Settled cs) (hlater : ∀ e ∈ later, LeavesUnread uid e) :
    ((later.foldl apply cm).users uid).Settled cs := by
  induction later generalizing cm with
  | nil => exact h
  | cons e later ih =>
    have he := settled_apply h (hlater e List.mem_cons_self)
    exact ih he fun d hd => hlater d (List.mem_cons_of_mem e hd)

theorem newest_apply (h : (cm.users uid).Newest k unread) (he : LeavesUnread uid e)
    (hne : e ≠ .restart) : ((cm.apply e).users uid).Newest k unread := by
  rcases users_apply cm he with ⟨-,heq | heq | heq⟩ | ⟨hrestart,-⟩
  · rwa [heq]
  · rw [heq]
    exact h.flushConversations
  · rw [heq]
    exact h.loadIfEmpty
  · exact absurd hrestart hne

theorem newest_later (h : (cm.users uid).Newest k unread)
    (hlater : ∀ e ∈ later, LeavesUnread uid e) :
    .restart ∉ later ∧ ((later.foldl apply cm).users uid).Newest k unread ∨
      .restart ∈ later ∧ ∃ cs c, conversationKey c = k ∧ c.unreadCount = unread ∧
        ((later.foldl apply cm).users uid).Settled ((cs ++ [c]).map Conversation.reread) := by
  induction later generalizing cm with
  | nil => exact Or.inl ⟨List.not_mem_nil,h⟩
  | cons e later ih =>
    have hrest : ∀ d ∈ later, LeavesUnread uid d := fun d hd =>
      hlater d (List.mem_cons_of_mem e hd)
    rcases users_apply cm (hlater e List.mem_cons_self) with ⟨hne,-⟩ | ⟨rfl,heq⟩
    · rcases ih (newest_apply h (hlater e List.mem_cons_self) hne) hrest with
        ⟨hnot,hnewest⟩ | ⟨hmem,hsettled⟩
      · refine Or.inl ⟨fun hmem => ?_,hnewest⟩
        rcases List.mem_cons.mp hmem with hhead | htail
        · exact hne hhead.symm
        · exact hnot htail
      · exact Or.inr ⟨List.mem_cons_of_mem e hmem,hsettled⟩
    · obtain ⟨cs,c,hk,hunread,hsettled⟩ := h.restart
      rw [← heq] at hsettled
      have hafter := settled_later hsettled hrest
      exact Or.inr ⟨List.mem_cons_self,cs,c,hk,hunread,hafter⟩

theorem clean_apply (h : (cm.users uid).cache.len = 0 → (cm.users uid).needSave = false)
    (he : KeepsConversations uid e) :
    ((cm.apply e).users uid).cache.len = 0 → ((cm.apply e).users uid).needSave = false := by
  cases e with
  | message m subscriber now =>
    rcases eq_or_ne uid subscriber with rfl | hne
    · rw [apply, calConversation, setUser_self]
      intro hlen
      obtain ⟨cache,-,-,heq⟩ := UserConversations.calConversation_eq m uid now (cm.users uid)
      rw [heq] at hlen
      exact absurd hlen (Lru.len_pos_of_peek (Lru.peek_add_self opts.positive _ _ _))
    · rwa [apply, calConversation, setUser_ne hne]
  | flush => exact fun _ => UserConversations.needSave_flush _
  | get user version =>
    rcases eq_or_ne uid user with rfl | hne
    · rw [apply, getConversations, setUser_self, UserConversations.getConversations_snd,
        UserConversations.needSave_loadIfEmpty]
      intro hlen
      apply h
      by_contra hne
      rw [UserConversations.loadIfEmpty_of_len hne] at hlen
      exact hne hlen
    · rwa [apply, getConversations, setUser_ne hne]
  | setUnread user channelID channelType n =>
    rcases eq_or_ne uid user with rfl | hne
    · rw [apply, setConversationUnread, setUser_self]
      cases hpeek : (cm.users uid).cache.peek (getChannelKey channelID channelType) with
      | none => rwa [UserConversations.setConversationUnread_none n hpeek]
      | some c =>
        obtain ⟨cache,hcache,heq⟩ := UserConversations.setConversationUnread_some n hpeek
        have hself := hcache (getChannelKey channelID channelType)
        rw [if_pos rfl] at hself
        rw [heq]
        exact fun hlen => absurd hlen (Lru.len_pos_of_peek hself)
    · rwa [apply, setConversationUnread, setUser_ne hne]
  | delete uids channelID channelType => rwa [apply, users_deleteConversation, if_neg he]
  | restart => exact fun _ => rfl

end ConversationManager

theorem sound_reached (opts : ConversationOptions) (events : List ConversationEvent) (uid : Bytes) :
    ((reached opts events).users uid).Sound := by
  have hrun : ∀ cm : ConversationManager opts, (∀ uid, (cm.users uid).Sound) →
      ∀ uid, ((events.foldl ConversationManager.apply cm).users uid).Sound := by
    induction events with
    | nil => exact fun cm h => h
    | cons e events ih => exact fun cm h => ih _ (ConversationManager.sound_apply h e)
  exact hrun (.new opts) (fun _ => UserConversations.sound_empty) uid

theorem clean_reached (opts : ConversationOptions) {events : List ConversationEvent} {uid : Bytes}
    (hevents : ∀ e ∈ events, KeepsConversations uid e) :
    ((reached opts events).users uid).cache.len = 0 →
      ((reached opts events).users uid).needSave = false := by
  have hrun : ∀ cm : ConversationManager opts,
      ((cm.users uid).cache.len = 0 → (cm.users uid).needSave = false) →
      ((events.foldl ConversationManager.apply cm).users uid).cache.len = 0 →
        ((events.foldl ConversationManager.apply cm).users uid).needSave = false := by
    induction events with
    | nil => exact fun cm h => h
    | cons e events ih =>
      intro cm h
      exact ih (fun d hd => hevents d (List.mem_cons_of_mem e hd)) _
        (ConversationManager.clean_apply h (hevents e List.mem_cons_self))
  exact hrun (.new opts) fun _ => rfl

theorem unread_count_set_iff (opts : ConversationOptions) {events : List ConversationEvent}
    {uid : Bytes} (hevents : ∀ e ∈ events, KeepsConversations uid e) (x : Bytes × UInt8)
    (hx : HasChannel ((reached opts events).users uid).cache.values x ∨
      ((reached opts events).users uid).cache.len = 0 ∧
        HasChannel ((reached opts events).users uid).stored x)
    (unread : Int64) {later : List ConversationEvent} (hlater : ∀ e ∈ later, LeavesUnread uid e) :
    Reports ((later.foldl ConversationManager.apply
        ((reached opts events).setConversationUnread uid x.1 x.2 unread)).getConversations uid 0).1
        x unread ↔
      (((reached opts events).users uid).cache.len = 0 →
        ((reached opts events).users uid).storedUnread x = some unread) ∧
      (.restart ∈ later → Utf8.toValid x.1 = x.1) := by
  have hsound := sound_reached opts events uid
  have hclean := clean_reached opts hevents
  generalize reached opts events = cm at *
  have huser : (cm.setConversationUnread uid x.1 x.2 unread).users uid =
      (cm.users uid).setConversationUnread x.1 x.2 unread := by
    rw [ConversationManager.setConversationUnread, ConversationManager.setUser_self]
  have hread : ∀ cm' : ConversationManager opts,
      (cm'.getConversations uid 0).1 = ((cm'.users uid).getConversations 0).1 := fun _ => rfl
  rw [hread]
  rcases hx with hcached | ⟨hlen,hstored⟩
  · have hlen : (cm.users uid).cache.len ≠ 0 := by
      intro hzero
      rw [UserConversations.values_of_len hzero] at hcached
      exact UserConversations.not_hasChannel_nil hcached
    have hnewest := hsound.newest_setConversationUnread hcached unread
    rw [← huser] at hnewest
    rcases ConversationManager.newest_later hnewest hlater with
      ⟨hnot,hafter⟩ | ⟨hmem,cs,c,hk,hunread,hafter⟩
    · exact iff_of_true hafter.reports ⟨fun h => absurd h hlen,fun h => absurd h hnot⟩
    · rw [hafter.reports_iff, ← hunread, UserConversations.lastOf_reread cs hk]
      exact ⟨fun h => ⟨fun h' => absurd h' hlen,fun _ => h⟩,fun h => h.2 hmem⟩
  · have hcold : ((cm.setConversationUnread uid x.1 x.2 unread).users uid).Settled
        (cm.users uid).stored := by
      rw [huser, UserConversations.setConversationUnread_none unread (Lru.peek_of_len hlen _)]
      exact hsound.settled hlen (hclean hlen)
    rw [(ConversationManager.settled_later hcold hlater).reports_iff]
    refine ⟨fun h => ⟨fun _ => h,fun _ => ?_⟩,fun h => h.1 hlen⟩
    obtain ⟨c,hc,hid,-⟩ := hstored
    rw [← hid]
    exact congrArg Conversation.channelID (hsound.reread c hc)

def received : List ConversationEvent := [.message (groupMessage [0x61] [0x67] 1) [0x75] 0]

theorem unread_count_set_warm :
    Reports ((([.flush,.restart] : List ConversationEvent).foldl ConversationManager.apply
      ((reached hundredConversations received).setConversationUnread [0x75] [0x67] 2
        0)).getConversations [0x75] 0).1 ([0x67],2) 0 := by
  refine (unread_count_set_iff hundredConversations ?_ ([0x67],2) (Or.inl (by decide +kernel)) 0
    ?_).mpr ⟨fun hlen => absurd hlen (by decide +kernel),fun _ => by decide +kernel⟩
  · intro e he
    rw [List.mem_singleton.mp he]
    exact trivial
  · intro e he
    rcases List.mem_pair.mp he with rfl | rfl
    · exact trivial
    · exact trivial

theorem unread_count_unset_after_restart :
    ¬ (HasChannel ((reached hundredConversations (received ++ [.restart])).users [0x75]).stored ([0x67],2) →
      Reports (((reached hundredConversations (received ++ [.restart])).setConversationUnread
        [0x75] [0x67] 2 0).getConversations [0x75] 0).1 ([0x67],2) 0) := by
  intro h
  have hreports := h (by decide +kernel)
  obtain ⟨c,hc,hid,hty⟩ := hreports.listed
  have hzero := hreports.unread c hc hid hty
  revert c
  decide +kernel

end LiMaoIM.Lim

import LiMaoIM.Foundation.Lru
import LiMaoIM.Foundation.Utf8
import LiMaoIM.Lim.Send

namespace LiMaoIM.Db

structure Conversation where
  uid : Bytes
  channelID : Bytes
  channelType : UInt8
  unreadCount : Int64
  timestamp : Int64
  lastMsgSeq : UInt32
  lastClientMsgNo : Bytes
  lastMsgID : Int64
  version : Int64
deriving DecidableEq

-- what a conversation reads after json.Marshal and Decode: a string's invalid bytes become U+FFFD
def Conversation.reread (c : Conversation) : Conversation :=
  { c with
    uid := Utf8.toValid c.uid
    channelID := Utf8.toValid c.channelID
    lastClientMsgNo := Utf8.toValid c.lastClientMsgNo }

@[simp] theorem Conversation.reread_reread (c : Conversation) : c.reread.reread = c.reread := by
  simp [reread]

end LiMaoIM.Db

namespace LiMaoIM.Lim

open Db (Conversation)

structure ConversationOptions where
  conversationOfUserMaxCount : Nat
  positive : 0 < conversationOfUserMaxCount

def getChannelKey (channelID : Bytes) (channelType : UInt8) : Bytes := channelKey channelID channelType

def conversationKey (c : Conversation) : Bytes := getChannelKey c.channelID c.channelType

def conversationChannelID (m : Message) (subscriber : Bytes) : Bytes :=
  if m.recvPacket.channelType = channelTypePerson ∧ m.recvPacket.channelID = subscriber then
    m.recvPacket.fromUID
  else m.recvPacket.channelID

def Message.key (m : Message) (subscriber : Bytes) : Bytes :=
  getChannelKey (conversationChannelID m subscriber) m.recvPacket.channelType

def Message.unread (m : Message) (subscriber : Bytes) : Bool :=
  m.recvPacket.framer.redDot && m.recvPacket.fromUID ≠ subscriber

def createConversation (m : Message) (subscriber : Bytes) (now : Int64) : Conversation where
  uid := subscriber
  channelID := conversationChannelID m subscriber
  channelType := m.recvPacket.channelType
  unreadCount := if m.unread subscriber then 1 else 0
  timestamp := m.recvPacket.timestamp.toInt64
  lastMsgSeq := m.recvPacket.messageSeq
  lastClientMsgNo := m.recvPacket.clientMsgNo
  lastMsgID := m.recvPacket.messageID
  version := now

def updateConversation (m : Message) (subscriber : Bytes) (now : Int64) (c : Conversation) :
    Conversation × Bool :=
  let (c,modify) :=
    if m.unread subscriber then ({ c with unreadCount := c.unreadCount + 1 },true) else (c,false)
  let c := { c with version := now }
  if c.lastMsgSeq < m.recvPacket.messageSeq then
    ({ c with
        timestamp := m.recvPacket.timestamp.toInt64
        lastClientMsgNo := m.recvPacket.clientMsgNo
        lastMsgSeq := m.recvPacket.messageSeq
        lastMsgID := m.recvPacket.messageID },true)
  else (c,modify)

structure UserConversations (opts : ConversationOptions) where
  cache : Lru opts.conversationOfUserMaxCount Bytes Conversation
  needSave : Bool
  stored : List Conversation

namespace UserConversations

variable {opts : ConversationOptions}

def empty : UserConversations opts := ⟨.empty,false,[]⟩

def addAll (conversations : List Conversation)
    (cache : Lru opts.conversationOfUserMaxCount Bytes Conversation) :
    Lru opts.conversationOfUserMaxCount Bytes Conversation :=
  conversations.foldl (fun cache c => cache.add (conversationKey c) c) cache

def loadIfEmpty (u : UserConversations opts) : UserConversations opts :=
  if u.cache.len = 0 then { u with cache := addAll u.stored u.cache } else u

def calConversation (m : Message) (subscriber : Bytes) (now : Int64) (u : UserConversations opts) :
    UserConversations opts :=
  let u := u.loadIfEmpty
  let cache := (u.cache.get (m.key subscriber)).2
  match cache.get (m.key subscriber) with
  | (none,cache) =>
      { u with
        cache := cache.add (m.key subscriber) (createConversation m subscriber now)
        needSave := true }
  | (some c,cache) =>
      let (c,modify) := updateConversation m subscriber now c
      { u with
        cache := cache.add (m.key subscriber) c
        needSave := u.needSave || modify }

def addOrUpdateConversations (conversations : List Conversation) (u : UserConversations opts) :
    UserConversations opts :=
  { u with stored := conversations.map Conversation.reread }

def flushConversations (u : UserConversations opts) : UserConversations opts :=
  if u.needSave then
    let (conversations,cache) := u.cache.readAll
    { addOrUpdateConversations conversations { u with cache := cache } with needSave := false }
  else u

def getConversations (version : Int64) (u : UserConversations opts) :
    List Conversation × UserConversations opts :=
  let u := u.loadIfEmpty
  let (conversations,cache) := u.cache.readAll
  ((conversations.filter fun c => version ≤ 0 ∨ version < c.version).mergeSort
    (fun c d => d.timestamp ≤ c.timestamp),{ u with cache := cache })

def setConversationUnread (channelID : Bytes) (channelType : UInt8) (unread : Int64)
    (u : UserConversations opts) : UserConversations opts :=
  match u.cache.get (getChannelKey channelID channelType) with
  -- the object is changed where it is, as the newest entry that Get has made it
  | (some c,cache) =>
      { u with
        cache := cache.add (getChannelKey channelID channelType) { c with unreadCount := unread }
        needSave := true }
  | (none,_) => u

def deleteConversation (channelID : Bytes) (channelType : UInt8) (u : UserConversations opts) :
    UserConversations opts :=
  { u with cache := u.cache.remove (getChannelKey channelID channelType) }

def restart (u : UserConversations opts) : UserConversations opts :=
  { u.flushConversations with cache := .empty, needSave := false }

end UserConversations

structure ConversationManager (opts : ConversationOptions) where
  users : Bytes → UserConversations opts

namespace ConversationManager

variable {opts : ConversationOptions}

def new (opts : ConversationOptions) : ConversationManager opts := ⟨fun _ => .empty⟩

def setUser (uid : Bytes) (u : UserConversations opts) (cm : ConversationManager opts) :
    ConversationManager opts := ⟨Function.update cm.users uid u⟩

def calConversation (m : Message) (subscriber : Bytes) (now : Int64) (cm : ConversationManager opts) :
    ConversationManager opts :=
  cm.setUser subscriber ((cm.users subscriber).calConversation m subscriber now)

def flushConversations (cm : ConversationManager opts) : ConversationManager opts :=
  ⟨fun uid => (cm.users uid).flushConversations⟩

def getConversations (uid : Bytes) (version : Int64) (cm : ConversationManager opts) :
    List Conversation × ConversationManager opts :=
  let (conversations,u) := (cm.users uid).getConversations version
  (conversations,cm.setUser uid u)

def setConversationUnread (uid channelID : Bytes) (channelType : UInt8) (unread : Int64)
    (cm : ConversationManager opts) : ConversationManager opts :=
  cm.setUser uid ((cm.users uid).setConversationUnread channelID channelType unread)

def deleteConversation (uids : List Bytes) (channelID : Bytes) (channelType : UInt8)
    (cm : ConversationManager opts) : ConversationManager opts :=
  uids.foldl (fun cm uid => cm.setUser uid ((cm.users uid).deleteConversation channelID channelType)) cm

def restart (cm : ConversationManager opts) : ConversationManager opts :=
  ⟨fun uid => (cm.users uid).restart⟩

end ConversationManager

inductive ConversationEvent where
  | message (m : Message) (subscriber : Bytes) (now : Int64)
  | flush
  | get (uid : Bytes) (version : Int64)
  | setUnread (uid channelID : Bytes) (channelType : UInt8) (unread : Int64)
  | delete (uids : List Bytes) (channelID : Bytes) (channelType : UInt8)
  | restart

def ConversationManager.apply {opts : ConversationOptions} (cm : ConversationManager opts) :
    ConversationEvent → ConversationManager opts
  | .message m subscriber now => cm.calConversation m subscriber now
  | .flush => cm.flushConversations
  | .get uid version => (cm.getConversations uid version).2
  | .setUnread uid channelID channelType unread =>
      cm.setConversationUnread uid channelID channelType unread
  | .delete uids channelID channelType => cm.deleteConversation uids channelID channelType
  | .restart => cm.restart

theorem conversationKey_injective {c d : Conversation} (h : conversationKey c = conversationKey d) :
    c.channelID = d.channelID ∧ c.channelType = d.channelType :=
  LiMao.channelKey_injective h

theorem conversationKey_congr {c d : Conversation} (hid : c.channelID = d.channelID)
    (hty : c.channelType = d.channelType) : conversationKey c = conversationKey d := by
  rw [conversationKey, conversationKey, hid, hty]

theorem conversationKey_update (m : Message) (subscriber : Bytes) (now : Int64) (c : Conversation) :
    conversationKey (updateConversation m subscriber now c).1 = conversationKey c := by
  apply conversationKey_congr
  · simp only [updateConversation]
    split <;> split <;> rfl
  · simp only [updateConversation]
    split <;> split <;> rfl

def nextConversation (m : Message) (subscriber : Bytes) (now : Int64) :
    Option Conversation → Conversation × Bool
  | none => (createConversation m subscriber now,true)
  | some c => updateConversation m subscriber now c

theorem conversationKey_next {m : Message} {subscriber : Bytes} {old : Option Conversation}
    (h : ∀ c, old = some c → conversationKey c = m.key subscriber) (now : Int64) :
    conversationKey (nextConversation m subscriber now old).1 = m.key subscriber := by
  cases old with
  | none => rfl
  | some c => exact (conversationKey_update m subscriber now c).trans (h c rfl)

namespace UserConversations

variable {opts : ConversationOptions} {u : UserConversations opts}
  {cache : Lru opts.conversationOfUserMaxCount Bytes Conversation} {cs : List Conversation}
  {k : Bytes} {c : Conversation}

def lastOf (k : Bytes) (cs : List Conversation) : Option Conversation :=
  (cs.filter fun c => conversationKey c = k).getLast?

theorem peek_addAll (h : cs.length + cache.len ≤ opts.conversationOfUserMaxCount) (k : Bytes) :
    (addAll cs cache).peek k = (lastOf k cs).or (cache.peek k) := by
  induction cs generalizing cache with
  | nil => rfl
  | cons c cs ih =>
    have hlen := Lru.len_add_le (conversationKey c) c cache
    rw [List.length_cons] at h
    rw [addAll, List.foldl_cons]
    have hrest : (addAll cs (cache.add (conversationKey c) c)).peek k =
        (lastOf k cs).or ((cache.add (conversationKey c) c).peek k) := ih (by omega)
    rw [addAll] at hrest
    rw [hrest, Lru.peek_add_room (Or.inr (by omega)), lastOf, lastOf, List.filter_cons]
    rcases eq_or_ne k (conversationKey c) with rfl | hne
    · simp only [decide_true, if_true, List.getLast?_cons]
      cases (cs.filter fun d => conversationKey d = conversationKey c).getLast? with
      | none => rfl
      | some d => rfl
    · rw [if_neg hne]
      simp only [hne.symm, decide_false, Bool.false_eq_true, if_false]

theorem peek_of_addAll (h : (addAll cs cache).peek k = some c) :
    c ∈ cs ∧ k = conversationKey c ∨ cache.peek k = some c := by
  induction cs generalizing cache with
  | nil => exact Or.inr h
  | cons d cs ih =>
    rcases ih h with ⟨hmem,hk⟩ | hd
    · exact Or.inl ⟨List.mem_cons_of_mem _ hmem,hk⟩
    · rcases Lru.peek_of_add hd with ⟨hk,rfl⟩ | hc
      · exact Or.inl ⟨List.mem_cons_self,hk⟩
      · exact Or.inr hc

theorem mem_of_lastOf (h : lastOf k cs = some c) : c ∈ cs ∧ conversationKey c = k := by
  have hmem := List.mem_filter.mp (List.mem_of_getLast? h)
  exact ⟨hmem.1,of_decide_eq_true hmem.2⟩

theorem lastOf_of_mem (h : c ∈ cs) : ∃ d, lastOf (conversationKey c) cs = some d := by
  have hmem : c ∈ cs.filter fun d => conversationKey d = conversationKey c :=
    List.mem_filter.mpr ⟨h,decide_eq_true rfl⟩
  rw [lastOf, List.getLast?_eq_getLast_of_ne_nil (List.ne_nil_of_mem hmem)]
  exact ⟨_,rfl⟩

structure Sound (u : UserConversations opts) : Prop where
  matched : ∀ k c, u.cache.peek k = some c → k = conversationKey c
  reread : ∀ c ∈ u.stored, c.reread = c
  bound : u.stored.length ≤ opts.conversationOfUserMaxCount

@[simp] theorem stored_loadIfEmpty (u : UserConversations opts) : u.loadIfEmpty.stored = u.stored := by
  rw [loadIfEmpty]
  split
  · rfl
  · rfl

@[simp] theorem needSave_loadIfEmpty (u : UserConversations opts) :
    u.loadIfEmpty.needSave = u.needSave := by
  rw [loadIfEmpty]
  split
  · rfl
  · rfl

theorem loadIfEmpty_of_len (h : u.cache.len ≠ 0) : u.loadIfEmpty = u := by
  rw [loadIfEmpty, if_neg h]

theorem Sound.peek_load (h : Sound u) (hlen : u.cache.len = 0) (k : Bytes) :
    u.loadIfEmpty.cache.peek k = lastOf k u.stored := by
  rw [loadIfEmpty, if_pos hlen]
  have hroom : u.stored.length + u.cache.len ≤ opts.conversationOfUserMaxCount := by
    rw [hlen]
    exact h.bound
  rw [peek_addAll hroom k, Lru.peek_of_len hlen, Option.or_none]

theorem Sound.loadIfEmpty (h : Sound u) : Sound u.loadIfEmpty := by
  refine ⟨fun k c hc => ?_,?_,?_⟩
  · rw [UserConversations.loadIfEmpty] at hc
    split at hc
    · rcases peek_of_addAll hc with ⟨-,hk⟩ | hold
      · exact hk
      · exact h.matched k c hold
    · exact h.matched k c hc
  · rw [stored_loadIfEmpty]
    exact h.reread
  · rw [stored_loadIfEmpty]
    exact h.bound

theorem calConversation_eq (m : Message) (subscriber : Bytes) (now : Int64) (u : UserConversations opts) :
    ∃ cache : Lru opts.conversationOfUserMaxCount Bytes Conversation,
      (∀ k, cache.peek k = u.loadIfEmpty.cache.peek k) ∧ cache.len = u.loadIfEmpty.cache.len ∧
      u.calConversation m subscriber now =
        { u.loadIfEmpty with
          cache := cache.add (m.key subscriber)
            (nextConversation m subscriber now (u.loadIfEmpty.cache.peek (m.key subscriber))).1
          needSave := u.needSave ||
            (nextConversation m subscriber now (u.loadIfEmpty.cache.peek (m.key subscriber))).2 } := by
  let first := (u.loadIfEmpty.cache.get (m.key subscriber)).2
  refine ⟨(first.get (m.key subscriber)).2,fun k => ?_,?_,?_⟩
  · rw [Lru.peek_get, Lru.peek_get]
  · rw [Lru.len_get, Lru.len_get]
  · have hfound : (first.get (m.key subscriber)).1 = u.loadIfEmpty.cache.peek (m.key subscriber) := by
      rw [Lru.get_fst, Lru.peek_get]
    have hget : first.get (m.key subscriber) =
        (u.loadIfEmpty.cache.peek (m.key subscriber),(first.get (m.key subscriber)).2) :=
      Prod.ext hfound rfl
    simp only [calConversation]
    rw [hget]
    cases u.loadIfEmpty.cache.peek (m.key subscriber) with
    | none => simp [nextConversation]
    | some c => simp [nextConversation]

theorem Sound.next_key (h : Sound u) (m : Message) (subscriber : Bytes) (now : Int64) :
    conversationKey (nextConversation m subscriber now
      (u.loadIfEmpty.cache.peek (m.key subscriber))).1 = m.key subscriber :=
  conversationKey_next (fun c hc => (h.loadIfEmpty.matched _ c hc).symm) now

theorem Sound.calConversation (h : Sound u) (m : Message) (subscriber : Bytes) (now : Int64) :
    Sound (u.calConversation m subscriber now) := by
  obtain ⟨cache,hpeek,-,heq⟩ := calConversation_eq m subscriber now u
  rw [heq]
  refine ⟨fun k c hc => ?_,?_,?_⟩
  · rcases Lru.peek_of_add hc with ⟨rfl,rfl⟩ | hold
    · exact (h.next_key m subscriber now).symm
    · rw [hpeek] at hold
      exact h.loadIfEmpty.matched k c hold
  · simp only [stored_loadIfEmpty]
    exact h.reread
  · simp only [stored_loadIfEmpty]
    exact h.bound

theorem flush_of_save (h : u.needSave = true) :
    u.flushConversations = ⟨u.cache,false,u.cache.values.map Conversation.reread⟩ := by
  rw [flushConversations, if_pos h, Lru.readAll_eq]
  rfl

theorem flush_of_clean (h : u.needSave = false) : u.flushConversations = u := by
  rw [flushConversations, h]
  rfl

theorem needSave_flush (u : UserConversations opts) : u.flushConversations.needSave = false := by
  cases h : u.needSave with
  | false => rw [flush_of_clean h, h]
  | true => rw [flush_of_save h]

theorem Sound.flushConversations (h : Sound u) : Sound u.flushConversations := by
  cases hsave : u.needSave with
  | false => rwa [flush_of_clean hsave]
  | true =>
    rw [flush_of_save hsave]
    refine ⟨h.matched,fun c hc => ?_,?_⟩
    · obtain ⟨d,-,rfl⟩ := List.mem_map.mp hc
      exact d.reread_reread
    · simp only [List.length_map, Lru.values]
      exact u.cache.bound

theorem Sound.restart (h : Sound u) : Sound u.restart := by
  refine ⟨fun _ _ hc => ?_,h.flushConversations.reread,h.flushConversations.bound⟩
  cases hc

theorem getConversations_snd (version : Int64) (u : UserConversations opts) :
    (u.getConversations version).2 = u.loadIfEmpty := by
  simp only [getConversations, Lru.readAll_eq]

theorem mem_getConversations {version : Int64} :
    c ∈ (u.getConversations version).1 ↔
      (∃ k, u.loadIfEmpty.cache.peek k = some c) ∧ (version ≤ 0 ∨ version < c.version) := by
  simp only [getConversations, Lru.readAll_eq, List.mem_mergeSort, List.mem_filter, Lru.mem_values,
    decide_eq_true_eq]

theorem setConversationUnread_none {channelID : Bytes} {channelType : UInt8} (unread : Int64)
    (h : u.cache.peek (getChannelKey channelID channelType) = none) :
    u.setConversationUnread channelID channelType unread = u := by
  have hget : u.cache.get (getChannelKey channelID channelType) =
      (none,(u.cache.get (getChannelKey channelID channelType)).2) :=
    Prod.ext ((Lru.get_fst _ _).trans h) rfl
  rw [setConversationUnread, hget]

theorem setConversationUnread_some {channelID : Bytes} {channelType : UInt8} (unread : Int64)
    (h : u.cache.peek (getChannelKey channelID channelType) = some c) :
    ∃ cache : Lru opts.conversationOfUserMaxCount Bytes Conversation,
      (∀ k, cache.peek k = if k = getChannelKey channelID channelType
        then some { c with unreadCount := unread } else u.cache.peek k) ∧
      u.setConversationUnread channelID channelType unread = ⟨cache,true,u.stored⟩ := by
  have hget : u.cache.get (getChannelKey channelID channelType) =
      (some c,(u.cache.get (getChannelKey channelID channelType)).2) :=
    Prod.ext ((Lru.get_fst _ _).trans h) rfl
  refine ⟨(u.cache.get (getChannelKey channelID channelType)).2.add
    (getChannelKey channelID channelType) { c with unreadCount := unread },fun k => ?_,?_⟩
  · rw [Lru.peek_add_room (Or.inl ⟨c,(Lru.peek_get _ _ _).trans h⟩), Lru.peek_get]
  · rw [setConversationUnread, hget]

theorem Sound.setConversationUnread (h : Sound u) (channelID : Bytes) (channelType : UInt8)
    (unread : Int64) : Sound (u.setConversationUnread channelID channelType unread) := by
  cases hpeek : u.cache.peek (getChannelKey channelID channelType) with
  | none => rwa [setConversationUnread_none unread hpeek]
  | some c =>
    obtain ⟨cache,hcache,heq⟩ := setConversationUnread_some unread hpeek
    rw [heq]
    refine ⟨fun k d hd => ?_,h.reread,h.bound⟩
    rw [hcache] at hd
    split at hd
    · rename_i hk
      rw [hk, h.matched _ c hpeek, ← Option.some.inj hd]
      rfl
    · exact h.matched k d hd

theorem Sound.deleteConversation (h : Sound u) (channelID : Bytes) (channelType : UInt8) :
    Sound (u.deleteConversation channelID channelType) :=
  ⟨fun k c hc => h.matched k c (Lru.peek_of_remove hc).2,h.reread,h.bound⟩

theorem deleteConversation_twice (channelID : Bytes) (channelType : UInt8) (u : UserConversations opts) :
    (u.deleteConversation channelID channelType).deleteConversation channelID channelType =
      u.deleteConversation channelID channelType := by
  simp only [UserConversations.deleteConversation, Lru.remove_remove]

theorem sound_empty : Sound (.empty : UserConversations opts) := by
  refine ⟨fun _ _ hc => ?_,fun _ hc => ?_,Nat.zero_le _⟩
  · cases hc
  · cases hc

end UserConversations

namespace ConversationManager

variable {opts : ConversationOptions} {cm : ConversationManager opts} {u : UserConversations opts}

@[simp] theorem setUser_self (uid : Bytes) (u : UserConversations opts) (cm : ConversationManager opts) :
    (cm.setUser uid u).users uid = u := Function.update_self ..

theorem setUser_ne {uid other : Bytes} (h : other ≠ uid) (u : UserConversations opts)
    (cm : ConversationManager opts) : (cm.setUser uid u).users other = cm.users other :=
  Function.update_of_ne h ..

theorem users_deleteConversation (uids : List Bytes) (channelID : Bytes) (channelType : UInt8)
    (cm : ConversationManager opts) (uid : Bytes) :
    (cm.deleteConversation uids channelID channelType).users uid =
      if uid ∈ uids then (cm.users uid).deleteConversation channelID channelType else cm.users uid := by
  induction uids generalizing cm with
  | nil => rfl
  | cons head uids ih =>
    rw [deleteConversation, List.foldl_cons, ← deleteConversation, ih]
    rcases eq_or_ne uid head with rfl | hne
    · rw [setUser_self, UserConversations.deleteConversation_twice, ite_self,
        if_pos List.mem_cons_self]
    · rw [setUser_ne hne]
      simp only [List.mem_cons, hne, false_or]

theorem forall_setUser {P : Bytes → UserConversations opts → Prop} {uid : Bytes}
    (h : ∀ other, P other (cm.users other)) (hu : P uid u) (other : Bytes) :
    P other ((cm.setUser uid u).users other) := by
  rcases eq_or_ne other uid with rfl | hne
  · rwa [setUser_self]
  · rw [setUser_ne hne]
    exact h other

theorem sound_apply (h : ∀ uid, (cm.users uid).Sound) (e : ConversationEvent) :
    ∀ uid, ((cm.apply e).users uid).Sound := by
  cases e with
  | message m subscriber now => exact forall_setUser h ((h subscriber).calConversation m subscriber now)
  | flush => exact fun uid => (h uid).flushConversations
  | get user version =>
    have hu := (h user).loadIfEmpty
    rw [← UserConversations.getConversations_snd version] at hu
    exact forall_setUser h hu
  | setUnread user channelID channelType unread =>
    exact forall_setUser h ((h user).setConversationUnread channelID channelType unread)
  | delete uids channelID channelType =>
    intro uid
    rw [apply, users_deleteConversation]
    split
    · exact (h uid).deleteConversation channelID channelType
    · exact h uid
  | restart => exact fun uid => (h uid).restart

end ConversationManager
end LiMaoIM.Lim

import LiMaoIM.Lim.DeletedConversation

namespace LiMaoIM.Lim

open Db (Conversation)

structure Latest (ms : List Message) (m : Message) : Prop where
  mem : m ∈ ms
  last : ∀ other ∈ ms, other.recvPacket.messageSeq ≤ m.recvPacket.messageSeq

structure Carries (c : Conversation) (m : Message) : Prop where
  lastMsgSeq : c.lastMsgSeq = m.recvPacket.messageSeq
  lastMsgID : c.lastMsgID = m.recvPacket.messageID
  lastClientMsgNo : c.lastClientMsgNo = m.recvPacket.clientMsgNo
  timestamp : c.timestamp = m.recvPacket.timestamp.toInt64

def unreadOf (subscriber : Bytes) (ms : List Message) : Nat :=
  (ms.filter fun m => m.unread subscriber).length

structure Summarises (subscriber : Bytes) (ms : List Message) (c : Conversation) : Prop where
  owner : c.uid = subscriber
  latest : ∃ m, Latest ms m ∧ Carries c m
  unreadCount : c.unreadCount = Int64.ofNat (unreadOf subscriber ms)

section Summaries

variable {subscriber : Bytes} {ms : List Message} {c : Conversation}

theorem unreadOf_append (subscriber : Bytes) (ms : List Message) (m : Message) :
    unreadOf subscriber (ms ++ [m]) =
      unreadOf subscriber ms + if m.unread subscriber then 1 else 0 := by
  rw [unreadOf, unreadOf, List.filter_append, List.length_append, List.filter_singleton]
  cases m.unread subscriber with
  | true => rfl
  | false => rfl

theorem summarises_create (m : Message) (subscriber : Bytes) (now : Int64) :
    Summarises subscriber [m] (createConversation m subscriber now) := by
  refine ⟨rfl,⟨m,⟨List.mem_cons_self,fun other hother => ?_⟩,⟨rfl,rfl,rfl,rfl⟩⟩,?_⟩
  · rw [List.mem_singleton.mp hother]
    exact UInt32.le_refl _
  · have hone := unreadOf_append subscriber [] m
    rw [List.nil_append] at hone
    rw [hone, createConversation]
    cases m.unread subscriber with
    | true => rfl
    | false => rfl

theorem unreadCount_update (m : Message) (subscriber : Bytes) (now : Int64) (c : Conversation) :
    (updateConversation m subscriber now c).1.unreadCount =
      c.unreadCount + Int64.ofNat (if m.unread subscriber then 1 else 0) := by
  simp only [updateConversation]
  cases m.unread subscriber with
  | true =>
    simp only [if_true]
    split
    · rfl
    · rfl
  | false =>
    simp only [Bool.false_eq_true, if_false]
    have hzero : Int64.ofNat 0 = 0 := rfl
    rw [hzero, Int64.add_zero]
    split
    · rfl
    · rfl

theorem uid_update (m : Message) (subscriber : Bytes) (now : Int64) (c : Conversation) :
    (updateConversation m subscriber now c).1.uid = c.uid := by
  simp only [updateConversation]
  split <;> split <;> rfl

theorem carries_update_newer {m : Message} (h : c.lastMsgSeq < m.recvPacket.messageSeq)
    (subscriber : Bytes) (now : Int64) : Carries (updateConversation m subscriber now c).1 m := by
  cases hunread : m.unread subscriber with
  | true =>
    simp only [updateConversation, hunread, if_true, if_pos h]
    exact ⟨rfl,rfl,rfl,rfl⟩
  | false =>
    simp only [updateConversation, hunread, Bool.false_eq_true, if_false, if_pos h]
    exact ⟨rfl,rfl,rfl,rfl⟩

theorem carries_update_older {m old : Message} (h : ¬ c.lastMsgSeq < m.recvPacket.messageSeq)
    (hc : Carries c old) (subscriber : Bytes) (now : Int64) :
    Carries (updateConversation m subscriber now c).1 old := by
  cases hunread : m.unread subscriber with
  | true =>
    simp only [updateConversation, hunread, if_true, if_neg h]
    exact ⟨hc.lastMsgSeq,hc.lastMsgID,hc.lastClientMsgNo,hc.timestamp⟩
  | false =>
    simp only [updateConversation, hunread, Bool.false_eq_true, if_false, if_neg h]
    exact ⟨hc.lastMsgSeq,hc.lastMsgID,hc.lastClientMsgNo,hc.timestamp⟩

theorem Summarises.update (h : Summarises subscriber ms c) (m : Message) (now : Int64) :
    Summarises subscriber (ms ++ [m]) (updateConversation m subscriber now c).1 := by
  obtain ⟨old,hlatest,hcarries⟩ := h.latest
  refine ⟨(uid_update m subscriber now c).trans h.owner,?_,?_⟩
  · rcases Classical.em (c.lastMsgSeq < m.recvPacket.messageSeq) with hnewer | holder
    · refine ⟨m,⟨List.mem_append_right _ List.mem_cons_self,fun other hother => ?_⟩,
        carries_update_newer hnewer subscriber now⟩
      rcases List.mem_append.mp hother with hbefore | hself
      · have hle := hlatest.last other hbefore
        rw [← hcarries.lastMsgSeq] at hle
        exact UInt32.le_trans hle (UInt32.le_of_lt hnewer)
      · rw [List.mem_singleton.mp hself]
        exact UInt32.le_refl _
    · refine ⟨old,⟨List.mem_append_left _ hlatest.mem,fun other hother => ?_⟩,
        carries_update_older holder hcarries subscriber now⟩
      rcases List.mem_append.mp hother with hbefore | hself
      · exact hlatest.last other hbefore
      · rw [List.mem_singleton.mp hself, ← hcarries.lastMsgSeq]
        exact UInt32.not_lt.mp holder
  · rw [unreadCount_update, h.unreadCount, unreadOf_append, Int64.ofNat_add]

end Summaries

namespace UserConversations

variable {opts : ConversationOptions} {subscriber : Bytes} {u : UserConversations opts}
  {ms : List Message} {k : Bytes} {c : Conversation}

def ofKey (subscriber k : Bytes) (ms : List Message) : List Message :=
  ms.filter fun m => m.key subscriber = k

structure Accounts (subscriber : Bytes) (ms : List Message) (u : UserConversations opts) : Prop where
  sound : Sound u
  unsaved : u.stored = []
  absent : ∀ k, u.cache.peek k = none → ofKey subscriber k ms = []
  present : ∀ k c, u.cache.peek k = some c → Summarises subscriber (ofKey subscriber k ms) c

theorem Accounts.load (h : Accounts subscriber ms u) : u.loadIfEmpty = u := by
  rw [loadIfEmpty]
  split
  · have hload : addAll u.stored u.cache = u.cache := by
      rw [h.unsaved]
      rfl
    rw [hload]
  · rfl

theorem ofKey_append (subscriber k : Bytes) (ms : List Message) (m : Message) :
    ofKey subscriber k (ms ++ [m]) =
      ofKey subscriber k ms ++ if m.key subscriber = k then [m] else [] := by
  rw [ofKey, ofKey, List.filter_append, List.filter_singleton]
  split
  · rename_i hk
    rw [decide_eq_true hk]
    rfl
  · rename_i hk
    rw [decide_eq_false hk]
    rfl

theorem Accounts.mem_keys (h : Accounts subscriber ms u) (hk : k ∈ u.cache.keys) :
    k ∈ ms.map fun m => m.key subscriber := by
  obtain ⟨c,hc⟩ := Lru.mem_keys.mp hk
  obtain ⟨m,hlatest,-⟩ := (h.present k c hc).latest
  obtain ⟨hmem,hkey⟩ := List.mem_filter.mp hlatest.mem
  exact List.mem_map.mpr ⟨m,hmem,of_decide_eq_true hkey⟩

theorem Accounts.room (h : Accounts subscriber ms u) {m : Message} {rest : List Message}
    (hmax : ((ms ++ m :: rest).map fun m => m.key subscriber).dedup.length ≤
      opts.conversationOfUserMaxCount) :
    (∃ c, u.cache.peek (m.key subscriber) = some c) ∨
      u.cache.len < opts.conversationOfUserMaxCount := by
  cases hpeek : u.cache.peek (m.key subscriber) with
  | some c => exact Or.inl ⟨c,rfl⟩
  | none =>
    right
    have hnew : m.key subscriber ∉ u.cache.keys := by
      intro hmem
      obtain ⟨c,hc⟩ := Lru.mem_keys.mp hmem
      rw [hpeek] at hc
      cases hc
    have hsub : m.key subscriber :: u.cache.keys ⊆
        ((ms ++ m :: rest).map fun m => m.key subscriber).dedup := by
      intro k hk
      rw [List.mem_dedup, List.map_append, List.mem_append]
      rcases List.mem_cons.mp hk with rfl | hk
      · exact Or.inr List.mem_cons_self
      · exact Or.inl (h.mem_keys hk)
    have hlen := ((List.nodup_cons.mpr ⟨hnew,u.cache.nodup⟩).subperm hsub).length_le
    rw [List.length_cons] at hlen
    have hkeys : u.cache.keys.length = u.cache.len := List.length_map ..
    omega

theorem Accounts.step (h : Accounts subscriber ms u) {m : Message} (now : Int64)
    (hroom : (∃ c, u.cache.peek (m.key subscriber) = some c) ∨
      u.cache.len < opts.conversationOfUserMaxCount) :
    Accounts subscriber (ms ++ [m]) (u.calConversation m subscriber now) := by
  have hsound := h.sound.calConversation m subscriber now
  obtain ⟨cache,hpeek,hlen,heq⟩ := calConversation_eq m subscriber now u
  rw [h.load] at hpeek hlen heq
  rw [heq] at hsound ⊢
  have hroom' : (∃ c, cache.peek (m.key subscriber) = some c) ∨
      cache.len < opts.conversationOfUserMaxCount := by
    rwa [hpeek, hlen]
  refine ⟨hsound,h.unsaved,fun k hk => ?_,fun k c hk => ?_⟩
  · simp only [Lru.peek_add_room hroom', hpeek] at hk
    split at hk
    · cases hk
    · rename_i hne
      rw [ofKey_append, h.absent k hk, if_neg (Ne.symm hne)]
      rfl
  · simp only [Lru.peek_add_room hroom', hpeek] at hk
    rw [ofKey_append]
    split at hk
    · rename_i hkey
      obtain rfl := Option.some.inj hk
      rw [if_pos hkey.symm, hkey]
      cases hold : u.cache.peek (m.key subscriber) with
      | none =>
        rw [h.absent _ hold]
        exact summarises_create m subscriber now
      | some old => exact (h.present _ old hold).update m now
    · rename_i hne
      rw [if_neg (Ne.symm hne), List.append_nil]
      exact h.present k c hk

end UserConversations

def processed (opts : ConversationOptions) (subscriber : Bytes) (l : List (Message × Int64)) :
    UserConversations opts :=
  l.foldl (fun u e => u.calConversation e.1 subscriber e.2) .empty

def conversations (opts : ConversationOptions) (subscriber : Bytes) (l : List (Message × Int64)) :
    List Conversation :=
  ((processed opts subscriber l).getConversations 0).1

namespace UserConversations

variable {opts : ConversationOptions} {subscriber : Bytes} {ms : List Message}

theorem accounts_empty (subscriber : Bytes) :
    Accounts subscriber [] (.empty : UserConversations opts) := by
  refine ⟨sound_empty,rfl,fun _ _ => rfl,fun k c hc => ?_⟩
  cases hc

theorem Accounts.run {u : UserConversations opts} (h : Accounts subscriber ms u)
    (l : List (Message × Int64))
    (hmax : ((ms ++ l.map (·.1)).map fun m => m.key subscriber).dedup.length ≤
      opts.conversationOfUserMaxCount) :
    Accounts subscriber (ms ++ l.map (·.1))
      (l.foldl (fun u e => u.calConversation e.1 subscriber e.2) u) := by
  induction l generalizing ms u with
  | nil =>
    rw [List.map_nil, List.append_nil]
    exact h
  | cons e l ih =>
    obtain ⟨m,now⟩ := e
    rw [List.map_cons] at hmax ⊢
    have hstep := h.step now (h.room hmax)
    rw [List.append_cons] at hmax ⊢
    exact ih hstep hmax

end UserConversations

def unversioned (c : Conversation) : Conversation := { c with version := 0 }

structure Summary (subscriber : Bytes) (ms : List Message) (c : Conversation) : Prop where
  owner : c.uid = subscriber
  latest : ∃ m, Latest ms m ∧ Carries c m
  unreadCount : c.unreadCount.toInt = unreadOf subscriber ms

def ofChannel (subscriber : Bytes) (x : Bytes × UInt8) (ms : List Message) : List Message :=
  ms.filter fun m => messageChannel m subscriber = x

def sequenced (subscriber : Bytes) (ms : List Message) : List ((Bytes × UInt8) × UInt32) :=
  ms.map fun m => (messageChannel m subscriber,m.recvPacket.messageSeq)

section Permutations

variable {opts : ConversationOptions} {subscriber : Bytes} {ms ms' : List Message} {c d : Conversation}

theorem key_eq_iff (m : Message) (subscriber : Bytes) (x : Bytes × UInt8) :
    m.key subscriber = getChannelKey x.1 x.2 ↔ messageChannel m subscriber = x := by
  constructor
  · intro h
    obtain ⟨hid,hty⟩ := LiMao.channelKey_injective h
    exact Prod.ext hid hty
  · rintro rfl
    rfl

theorem ofKey_eq (subscriber : Bytes) (x : Bytes × UInt8) (ms : List Message) :
    UserConversations.ofKey subscriber (getChannelKey x.1 x.2) ms = ofChannel subscriber x ms := by
  rw [UserConversations.ofKey, ofChannel]
  simp only [key_eq_iff]

theorem length_dedup_keys (subscriber : Bytes) (ms : List Message) :
    (ms.map fun m => m.key subscriber).dedup.length =
      (ms.map fun m => messageChannel m subscriber).dedup.length := by
  have hkeys : (ms.map fun m => m.key subscriber) =
      (ms.map fun m => messageChannel m subscriber).map fun x => getChannelKey x.1 x.2 := by
    rw [List.map_map]
    rfl
  have hinj : Function.Injective fun x : Bytes × UInt8 => getChannelKey x.1 x.2 := by
    intro x y hxy
    obtain ⟨hid,hty⟩ := LiMao.channelKey_injective hxy
    exact Prod.ext hid hty
  rw [hkeys, List.dedup_map_of_injective hinj, List.length_map]

theorem seqs_nodup (h : (sequenced subscriber ms).Nodup) (x : Bytes × UInt8) :
    ((ofChannel subscriber x ms).map fun m => m.recvPacket.messageSeq).Nodup := by
  have hsub : (sequenced subscriber (ofChannel subscriber x ms)).Nodup :=
    h.sublist (List.filter_sublist.map _)
  have hpair : sequenced subscriber (ofChannel subscriber x ms) =
      ((ofChannel subscriber x ms).map fun m => m.recvPacket.messageSeq).map fun seq => (x,seq) := by
    rw [sequenced, List.map_map]
    apply List.map_congr_left
    intro m hm
    have hx := of_decide_eq_true (List.mem_filter.mp hm).2
    rw [hx]
    rfl
  rw [hpair] at hsub
  exact hsub.of_map _

theorem unreadOf_lt (h : (sequenced subscriber ms).Nodup) (x : Bytes × UInt8) :
    unreadOf subscriber (ofChannel subscriber x ms) < 2 ^ 63 := by
  have hn := seqs_nodup h x
  have hvalues : ((ofChannel subscriber x ms).map fun m => m.recvPacket.messageSeq.toNat).Nodup := by
    have hmap := hn.map (f := UInt32.toNat) fun a b hab => UInt32.toNat_inj.mp hab
    rwa [List.map_map] at hmap
  have hsub : ((ofChannel subscriber x ms).map fun m => m.recvPacket.messageSeq.toNat) ⊆
      List.range (2 ^ 32) := by
    intro n hn
    obtain ⟨m,-,rfl⟩ := List.mem_map.mp hn
    exact List.mem_range.mpr m.recvPacket.messageSeq.toNat_lt
  have hlen := (hvalues.subperm hsub).length_le
  rw [List.length_map, List.length_range] at hlen
  have hle : unreadOf subscriber (ofChannel subscriber x ms) ≤ (ofChannel subscriber x ms).length :=
    List.length_filter_le _ _
  omega

theorem latest_unique (h : (sequenced subscriber ms).Nodup) {x : Bytes × UInt8} {m m' : Message}
    (hm : Latest (ofChannel subscriber x ms) m) (hm' : Latest (ofChannel subscriber x ms) m') :
    m = m' :=
  List.inj_on_of_nodup_map (seqs_nodup h x) hm.mem hm'.mem
    (UInt32.le_antisymm (hm'.last m hm.mem) (hm.last m' hm'.mem))

theorem accounts_processed (l : List (Message × Int64))
    (hmax : ((l.map (·.1)).map fun m => messageChannel m subscriber).dedup.length ≤
      opts.conversationOfUserMaxCount) :
    UserConversations.Accounts subscriber (l.map (·.1)) (processed opts subscriber l) := by
  have hempty : UserConversations.Accounts subscriber [] (.empty : UserConversations opts) :=
    UserConversations.accounts_empty subscriber
  have hrun := hempty.run l
  rw [List.nil_append, length_dedup_keys] at hrun
  exact hrun hmax

theorem mem_conversations {l : List (Message × Int64)}
    (h : UserConversations.Accounts subscriber (l.map (·.1)) (processed opts subscriber l)) :
    c ∈ conversations opts subscriber l ↔
      (processed opts subscriber l).cache.peek (conversationKey c) = some c := by
  rw [conversations, UserConversations.mem_getConversations, h.load]
  constructor
  · rintro ⟨⟨k,hk⟩,-⟩
    rwa [← h.sound.matched k c hk]
  · exact fun hk => ⟨⟨_,hk⟩,Or.inl (Int64.le_refl 0)⟩

theorem nodup_unversioned {u : UserConversations opts} (h : u.Sound) :
    ((u.getConversations 0).1.map unversioned).Nodup := by
  apply List.Nodup.of_map conversationKey
  rw [List.map_map]
  have hkeys : u.loadIfEmpty.cache.values.map conversationKey = u.loadIfEmpty.cache.keys := by
    rw [Lru.values, Lru.keys, Assoc.keys, List.map_map]
    apply List.map_congr_left
    rintro ⟨k,c⟩ hmem
    exact (h.loadIfEmpty.matched k c (Lru.mem_items.mp hmem)).symm
  have hperm : (u.getConversations 0).1.Perm u.loadIfEmpty.cache.values := by
    simp only [UserConversations.getConversations, Lru.readAll_eq]
    refine (List.mergeSort_perm _ _).trans ?_
    rw [List.filter_eq_self.mpr fun c _ => decide_eq_true (Or.inl (Int64.le_refl 0))]
  have hnodup := (hperm.map conversationKey).nodup_iff.mpr (hkeys ▸ u.loadIfEmpty.cache.nodup)
  exact hnodup

theorem unreadOf_perm (h : ms.Perm ms') (subscriber : Bytes) :
    unreadOf subscriber ms = unreadOf subscriber ms' :=
  (h.filter _).length_eq

theorem Latest.perm {m : Message} (h : Latest ms m) (hperm : ms.Perm ms') : Latest ms' m :=
  ⟨hperm.mem_iff.mp h.mem,fun other hother => h.last other (hperm.mem_iff.mpr hother)⟩

theorem unversioned_eq (hkey : conversationKey c = conversationKey d) {m : Message}
    (hc : Carries c m) (hd : Carries d m) (howner : c.uid = d.uid)
    (hunread : c.unreadCount = d.unreadCount) : unversioned c = unversioned d := by
  obtain ⟨hid,hty⟩ := conversationKey_injective hkey
  rw [unversioned, unversioned, howner, hid, hty, hunread, hc.timestamp, hd.timestamp, hc.lastMsgSeq,
    hd.lastMsgSeq, hc.lastClientMsgNo, hd.lastClientMsgNo, hc.lastMsgID, hd.lastMsgID]

theorem mem_unversioned {l l' : List (Message × Int64)}
    (hperm : (l.map (·.1)).Perm (l'.map (·.1))) (hseq : (sequenced subscriber (l.map (·.1))).Nodup)
    (h : UserConversations.Accounts subscriber (l.map (·.1)) (processed opts subscriber l))
    (h' : UserConversations.Accounts subscriber (l'.map (·.1)) (processed opts subscriber l'))
    (hmem : c ∈ (conversations opts subscriber l).map unversioned) :
    c ∈ (conversations opts subscriber l').map unversioned := by
  obtain ⟨c,hc,rfl⟩ := List.mem_map.mp hmem
  have hpeek := (mem_conversations h).mp hc
  have hsum := h.present _ c hpeek
  have hkeyperm := hperm.filter fun m => decide (m.key subscriber = conversationKey c)
  cases hpeek' : (processed opts subscriber l').cache.peek (conversationKey c) with
  | none =>
    obtain ⟨m,hm,-⟩ := hsum.latest
    have hthere := hkeyperm.mem_iff.mp hm.mem
    have hnone := h'.absent _ hpeek'
    rw [UserConversations.ofKey] at hnone
    rw [hnone] at hthere
    cases hthere
  | some d =>
    have hkey := h'.sound.matched _ d hpeek'
    have hsum' := h'.present _ d hpeek'
    obtain ⟨m,hm,hcarries⟩ := hsum.latest
    obtain ⟨m',hm',hcarries'⟩ := hsum'.latest
    have hback := hm'.perm hkeyperm.symm
    have hofKey : UserConversations.ofKey subscriber (conversationKey c) (l.map (·.1)) =
        ofChannel subscriber (c.channelID,c.channelType) (l.map (·.1)) :=
      ofKey_eq subscriber (c.channelID,c.channelType) _
    rw [hofKey] at hm
    rw [← UserConversations.ofKey, hofKey] at hback
    obtain rfl := latest_unique hseq hm hback
    refine List.mem_map.mpr ⟨d,(mem_conversations h').mpr (hkey ▸ hpeek'),?_⟩
    have hunread : unreadOf subscriber (UserConversations.ofKey subscriber (conversationKey c)
        (l'.map (·.1))) = unreadOf subscriber (UserConversations.ofKey subscriber (conversationKey c)
        (l.map (·.1))) := unreadOf_perm hkeyperm.symm subscriber
    refine unversioned_eq hkey.symm hcarries' hcarries (hsum'.owner.trans hsum.owner.symm) ?_
    rw [hsum'.unreadCount, hsum.unreadCount, hunread]

theorem Summarises.summary (hseq : (sequenced subscriber ms).Nodup)
    (h : Summarises subscriber (ofChannel subscriber (c.channelID,c.channelType) ms) c) :
    Summary subscriber (ofChannel subscriber (c.channelID,c.channelType) ms) c := by
  refine ⟨h.owner,h.latest,?_⟩
  rw [h.unreadCount]
  exact Int64.toInt_ofNat_of_lt (unreadOf_lt hseq _)

end Permutations

theorem conversations_order_independent (opts : ConversationOptions) (subscriber : Bytes)
    (l l' : List (Message × Int64)) (hperm : (l.map (·.1)).Perm (l'.map (·.1)))
    (hseq : (sequenced subscriber (l.map (·.1))).Nodup)
    (hmax : ((l.map (·.1)).map fun m => messageChannel m subscriber).dedup.length ≤
      opts.conversationOfUserMaxCount) :
    ((conversations opts subscriber l).map unversioned).Perm
        ((conversations opts subscriber l').map unversioned) ∧
      (∀ x, HasChannel (conversations opts subscriber l) x ↔
        ∃ m ∈ l.map (·.1), messageChannel m subscriber = x) ∧
      ∀ c ∈ conversations opts subscriber l,
        Summary subscriber (ofChannel subscriber (c.channelID,c.channelType) (l.map (·.1))) c := by
  have h : UserConversations.Accounts subscriber (l.map (·.1)) (processed opts subscriber l) :=
    accounts_processed l hmax
  have hmax' : ((l'.map (·.1)).map fun m => messageChannel m subscriber).dedup.length ≤
      opts.conversationOfUserMaxCount := by
    rwa [← ((hperm.map fun m => messageChannel m subscriber).dedup).length_eq]
  have h' : UserConversations.Accounts subscriber (l'.map (·.1)) (processed opts subscriber l') :=
    accounts_processed l' hmax'
  refine ⟨?_,fun x => ?_,fun c hc => ?_⟩
  · have hseq' : (sequenced subscriber (l'.map (·.1))).Nodup := (hperm.map _).nodup_iff.mp hseq
    refine (List.perm_ext_iff_of_nodup (nodup_unversioned h.sound) (nodup_unversioned h'.sound)).mpr
      fun c => ?_
    exact ⟨mem_unversioned hperm hseq h h',mem_unversioned hperm.symm hseq' h' h⟩
  · constructor
    · rintro ⟨c,hc,hid,hty⟩
      have hpeek := (mem_conversations h).mp hc
      obtain ⟨m,hlatest,-⟩ := (h.present _ c hpeek).latest
      obtain ⟨hmem,hkey⟩ := List.mem_filter.mp hlatest.mem
      obtain ⟨hid',hty'⟩ := LiMao.channelKey_injective (of_decide_eq_true hkey)
      exact ⟨m,hmem,Prod.ext (hid'.trans hid) (hty'.trans hty)⟩
    · rintro ⟨m,hmem,rfl⟩
      cases hpeek : (processed opts subscriber l).cache.peek (m.key subscriber) with
      | none =>
        have hnone := h.absent _ hpeek
        rw [UserConversations.ofKey, List.filter_eq_nil_iff] at hnone
        exact absurd (decide_eq_true rfl) (hnone m hmem)
      | some c =>
        have hkey := h.sound.matched _ c hpeek
        obtain ⟨hid,hty⟩ := LiMao.channelKey_injective hkey
        exact ⟨c,(mem_conversations h).mpr (hkey ▸ hpeek),hid.symm,hty.symm⟩
  · have hsum := h.present _ c ((mem_conversations h).mp hc)
    have hofKey : UserConversations.ofKey subscriber (conversationKey c) (l.map (·.1)) =
        ofChannel subscriber (c.channelID,c.channelType) (l.map (·.1)) :=
      ofKey_eq subscriber (c.channelID,c.channelType) _
    rw [hofKey] at hsum
    exact hsum.summary hseq

def early : Message := groupMessage [0x61] [0x67] 1

def late : Message := groupMessage [0x61] [0x67] 2

theorem late_message_first :
    ((conversations hundredConversations [0x75] [(late,3),(early,8)]).map unversioned).Perm
        ((conversations hundredConversations [0x75] [(early,5),(late,6)]).map unversioned) ∧
      ∀ c ∈ conversations hundredConversations [0x75] [(late,3),(early,8)],
        Summary [0x75] (ofChannel [0x75] (c.channelID,c.channelType) [late,early]) c := by
  have h := conversations_order_independent hundredConversations [0x75] [(late,3),(early,8)]
    [(early,5),(late,6)] (List.Perm.swap early late []) (by decide +kernel) (by decide +kernel)
  exact ⟨h.1,h.2.2⟩

end LiMaoIM.Lim

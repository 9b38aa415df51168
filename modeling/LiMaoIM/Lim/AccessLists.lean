import LiMaoIM.Lim.ChannelApi

namespace LiMaoIM.Lim

open Outcome Db

structure AccessListsAgree (s : LiMao) : Prop where
  blacklist : ∀ k id ty c, s.cached k id ty = some c →
    ∀ uid, uid ∈ c.blacklist ↔ uid ∈ s.lists ⟨.denylist,id,ty⟩
  whitelist : ∀ k id ty c, s.cached k id ty = some c →
    ∀ uid, uid ∈ c.whitelist ↔ uid ∈ s.lists ⟨.allowlist,id,ty⟩
  allow : ∀ k id ty c, s.cached k id ty = some c →
    ∀ uid, c.allow s.systemUIDs uid = (s.fresh id ty).allow s.systemUIDs uid

def Unlisted (lists : ChannelLists) (id : Bytes) (ty : UInt8) : Prop :=
  ty = channelTypePerson → isFakeChannel id = true →
    lists ⟨.denylist,id,ty⟩ = [] ∧ lists ⟨.allowlist,id,ty⟩ = []

def AccessListReq.denyKey (req : AccessListReq) : ChannelKey :=
  ⟨.denylist,req.channelID,req.channelType⟩

def AccessListReq.allowKey (req : AccessListReq) : ChannelKey :=
  ⟨.allowlist,req.channelID,req.channelType⟩

def AccessListReq.Clean (req : AccessListReq) (check : Outcome Unit) (lists : ChannelLists) : Prop :=
  check = .ok () → isTmpChannel req.channelID = false →
    Unlisted lists req.channelID req.channelType

def KeepsAccessLists (s : LiMao) : ChannelOp → Prop
  | .create _ => True
  | .delete _ _ => True
  | .addSubscriber _ => True
  | .removeSubscriber req => req.check = .ok () → isTmpChannel req.channelID = false →
      Unlisted s.lists req.channelID req.channelType
  | .get id ty => isTmpChannel id = false → Unlisted s.lists id ty
  | .blacklistAdd req => req.Clean req.check (s.lists.add req.denyKey req.uids)
  | .blacklistSet req => req.Clean req.checkSet (setList req.denyKey req.uids s.lists)
  | .blacklistRemove req => req.Clean req.check (s.lists.remove req.denyKey req.uids)
  | .whitelistAdd req => req.Clean req.check (s.lists.add req.allowKey req.uids)
  | .whitelistSet req => req.Clean req.checkSet (setList req.allowKey req.uids s.lists) ∧
      (req.checkSet = .ok () → isTmpChannel req.channelID = false → req.uids = [])
  | .whitelistRemove req => req.Clean req.check (s.lists.remove req.allowKey req.uids)

instance (lists : ChannelLists) (id : Bytes) (ty : UInt8) : Decidable (Unlisted lists id ty) :=
  inferInstanceAs (Decidable (_ → _ → _ ∧ _))

instance (req : AccessListReq) (check : Outcome Unit) (lists : ChannelLists) :
    Decidable (req.Clean check lists) := inferInstanceAs (Decidable (_ → _ → _))

instance (s : LiMao) : DecidablePred (KeepsAccessLists s)
  | .create _ => isTrue trivial
  | .delete _ _ => isTrue trivial
  | .addSubscriber _ => isTrue trivial
  | .removeSubscriber _ => inferInstanceAs (Decidable (_ → _ → _))
  | .get _ _ => inferInstanceAs (Decidable (_ → _))
  | .blacklistAdd req => inferInstanceAs (Decidable (req.Clean _ _))
  | .blacklistSet req => inferInstanceAs (Decidable (req.Clean _ _))
  | .blacklistRemove req => inferInstanceAs (Decidable (req.Clean _ _))
  | .whitelistAdd req => inferInstanceAs (Decidable (req.Clean _ _))
  | .whitelistSet req => inferInstanceAs (Decidable (req.Clean _ _ ∧ (_ → _ → _)))
  | .whitelistRemove req => inferInstanceAs (Decidable (req.Clean _ _))

structure Matches (lists : ChannelLists) (id : Bytes) (ty : UInt8) (c : Channel) : Prop where
  blacklist : ∀ uid, uid ∈ c.blacklist ↔ uid ∈ lists ⟨.denylist,id,ty⟩
  whitelist : ∀ uid, uid ∈ c.whitelist ↔ uid ∈ lists ⟨.allowlist,id,ty⟩

structure AccessSync (s : LiMao) : Prop where
  place : ∀ k id ty c, s.cached k id ty = some c → isTmpChannel id = false ∧ k = LiMao.route id ty
  unlisted : ∀ k id ty c, s.cached k id ty = some c → Unlisted s.lists id ty
  lists : ∀ k id ty c, s.cached k id ty = some c → Matches s.lists id ty c

section Loading

variable {s : LiMao} {id : Bytes} {ty : UInt8} {c c' : Channel} {lists : ChannelLists}

theorem foldl_addSubscriber (uids : List Bytes) (c : Channel) :
    (uids.foldl Channel.addSubscriber c).blacklist = c.blacklist ∧
      (uids.foldl Channel.addSubscriber c).whitelist = c.whitelist := by
  induction uids generalizing c with
  | nil => exact ⟨rfl,rfl⟩
  | cons uid uids ih => exact ih (c.addSubscriber uid)

theorem matches_loadData {info : ChannelInfo} (hid : info.channelID = id) (hty : info.channelType = ty)
    (h : Unlisted s.lists id ty) : Matches s.lists id ty (s.loadData (newChannel info)) := by
  subst hid hty
  rw [LiMao.loadData]
  split
  · rename_i hfake
    obtain ⟨hdeny,hallow⟩ := h hfake.1 hfake.2
    exact ⟨fun uid => by rw [hdeny]; rfl,fun uid => by rw [hallow]; rfl⟩
  · exact ⟨fun uid => by simp [newChannel],fun uid => by simp [newChannel]⟩

theorem matches_fresh (h : Unlisted s.lists id ty) : Matches s.lists id ty (s.fresh id ty) := by
  rw [LiMao.fresh]
  split
  · have hload : Matches s.lists id ty (s.loadData (newChannel (newChannelInfo id ty))) :=
      matches_loadData rfl rfl h
    rw [LiMao.newPersonChannel]
    split
    · obtain ⟨hb,hw⟩ := foldl_addSubscriber (id.splitOn atSign)
        (s.loadData (newChannel (newChannelInfo id ty)))
      exact ⟨by rw [hb]; exact hload.blacklist,by rw [hw]; exact hload.whitelist⟩
    · exact hload
  · rw [LiMao.storedChannel]
    split
    · exact matches_loadData rfl rfl h
    · exact matches_loadData rfl rfl h

theorem length_pos_congr {a b : List Bytes} (h : ∀ uid, uid ∈ a ↔ uid ∈ b) :
    0 < a.length ↔ 0 < b.length := by
  rw [List.length_pos_iff_exists_mem, List.length_pos_iff_exists_mem]
  exact exists_congr h

theorem Matches.allow_eq (h : Matches lists id ty c) (h' : Matches lists id ty c')
    (systemUIDs : List Bytes) (uid : Bytes) : c.allow systemUIDs uid = c'.allow systemUIDs uid := by
  have hw : ∀ uid, uid ∈ c.whitelist ↔ uid ∈ c'.whitelist :=
    fun uid => (h.whitelist uid).trans (h'.whitelist uid).symm
  have hb : ∀ uid, uid ∈ c.blacklist ↔ uid ∈ c'.blacklist :=
    fun uid => (h.blacklist uid).trans (h'.blacklist uid).symm
  simp only [Channel.allow, Channel.isBlacklist, length_pos_congr hw, hw uid, hb uid]

theorem AccessSync.agree (h : AccessSync s) : AccessListsAgree s := by
  refine ⟨fun k id ty c hc => (h.lists k id ty c hc).blacklist,
    fun k id ty c hc => (h.lists k id ty c hc).whitelist,fun k id ty c hc uid => ?_⟩
  exact (h.lists k id ty c hc).allow_eq (matches_fresh (h.unlisted k id ty c hc)) _ uid

end Loading

structure AccessPlaced (r : LiMao) (k : Cache) (id : Bytes) (ty : UInt8) (c : Channel) : Prop where
  tmp : isTmpChannel id = false
  cache : k = LiMao.route id ty
  unlisted : Unlisted r.lists id ty
  lists : Matches r.lists id ty c

section Steps

variable {s r : LiMao} {id : Bytes} {ty : UInt8} {c : Channel}

theorem AccessSync.placed (h : AccessSync s) {k : Cache} (hc : s.cached k id ty = some c) :
    AccessPlaced s k id ty c :=
  ⟨(h.place k id ty c hc).1,(h.place k id ty c hc).2,h.unlisted k id ty c hc,h.lists k id ty c hc⟩

theorem accessSync_of_placed (h : ∀ k id ty c, s.cached k id ty = some c → AccessPlaced s k id ty c) :
    AccessSync s :=
  ⟨fun k id ty c hc => ⟨(h k id ty c hc).tmp,(h k id ty c hc).cache⟩,
    fun k id ty c hc => (h k id ty c hc).unlisted,fun k id ty c hc => (h k id ty c hc).lists⟩

theorem AccessPlaced.congr {k : Cache} (h : AccessPlaced s k id ty c)
    (hdeny : r.lists ⟨.denylist,id,ty⟩ = s.lists ⟨.denylist,id,ty⟩)
    (hallow : r.lists ⟨.allowlist,id,ty⟩ = s.lists ⟨.allowlist,id,ty⟩) : AccessPlaced r k id ty c := by
  refine ⟨h.tmp,h.cache,fun hty hfake => ?_,?_,?_⟩
  · rw [hdeny, hallow]
    exact h.unlisted hty hfake
  · rw [hdeny]
    exact h.lists.blacklist
  · rw [hallow]
    exact h.lists.whitelist

theorem AccessSync.target (h : AccessSync s) (id : Bytes) (ty : UInt8)
    (hc : ∀ k id' ty', (id',ty') ≠ (id,ty) → r.cached k id' ty' = s.cached k id' ty')
    (hl : ∀ kind id' ty', kind ≠ .subscribers → (id',ty') ≠ (id,ty) →
      r.lists ⟨kind,id',ty'⟩ = s.lists ⟨kind,id',ty'⟩)
    (hhere : ∀ k c, r.cached k id ty = some c → AccessPlaced r k id ty c) : AccessSync r := by
  apply accessSync_of_placed
  intro k id' ty' c' hc'
  rcases eq_or_ne (id',ty') (id,ty) with heq | hne
  · obtain ⟨rfl,rfl⟩ := Prod.mk.inj heq
    exact hhere k c' hc'
  · rw [hc k id' ty' hne] at hc'
    exact (h.placed hc').congr (hl .denylist id' ty' (by decide) hne)
      (hl .allowlist id' ty' (by decide) hne)

theorem cached_of_held (hh : LiMao.Held s r id ty c) {k : Cache} {c' : Channel}
    (hc : r.cached k id ty = some c') :
    k = LiMao.route id ty ∧ c' = c ∨ k ≠ LiMao.route id ty ∧ s.cached k id ty = some c' := by
  rcases eq_or_ne k (LiMao.route id ty) with rfl | hne
  · rw [hh.here] at hc
    exact Or.inl ⟨rfl,(Option.some.inj hc).symm⟩
  · rw [hh.other k id ty fun hp => hne (Prod.mk.inj hp).1] at hc
    exact Or.inr ⟨hne,hc⟩

theorem AccessSync.not_tmp (h : AccessSync s) {f : ChannelLists → ChannelLists} {s' : LiMao}
    (hget : (s.onLists f).getChannel id ty = (some c,s')) : isTmpChannel id = false := by
  by_contra hnot
  have ht : isTmpChannel id = true := by simpa using hnot
  rw [LiMao.getChannel_tmp ht] at hget
  have hp := h.placed (s := s) (Prod.mk.inj hget).1
  rw [hp.tmp] at ht
  cases ht

theorem AccessSync.accessList (h : AccessSync s) (check : Outcome Unit) (req : AccessListReq)
    {store : ChannelLists → ChannelLists} {update : Channel → Channel}
    (hstore : ∀ kind id ty, (id,ty) ≠ (req.channelID,req.channelType) →
      store s.lists ⟨kind,id,ty⟩ = s.lists ⟨kind,id,ty⟩)
    (hclean : req.Clean check (store s.lists))
    (hupdate : check = .ok () → isTmpChannel req.channelID = false → ∀ c,
      Matches s.lists req.channelID req.channelType c ∨
        Matches (store s.lists) req.channelID req.channelType c →
      Matches (store s.lists) req.channelID req.channelType (update c)) :
    AccessSync (accessListHandler check req store update s).2 := by
  rcases accessListHandler_cases check req store update s with
    heq | ⟨-,ht,heq⟩ | ⟨hcheck,c,s',hget,hheld⟩
  · rw [heq]
    exact h
  · rw [heq]
    apply h.target req.channelID req.channelType
    · exact fun _ _ _ _ => rfl
    · exact fun kind id' ty' _ hne => hstore kind id' ty' hne
    · intro k c hc
      have hp := h.placed (s := s) hc
      rw [hp.tmp] at ht
      cases ht
  · have hroute : ∀ k id' ty', (id',ty') ≠ (req.channelID,req.channelType) →
        (k,id',ty') ≠ (LiMao.route req.channelID req.channelType,req.channelID,req.channelType) :=
      fun k id' ty' hne hp => hne (Prod.mk.inj hp).2
    have htmp := h.not_tmp (f := store) hget
    have hun := hclean hcheck htmp
    have hlists := hheld.lists
    apply h.target req.channelID req.channelType
    · exact fun k id' ty' hne => hheld.other _ _ _ (hroute k id' ty' hne)
    · intro kind id' ty' _ hne
      rw [hlists]
      exact hstore kind id' ty' hne
    · intro k c' hc'
      rcases cached_of_held hheld hc' with ⟨hk,rfl⟩ | ⟨hk,hold⟩
      · refine ⟨htmp,hk,by rw [hlists]; exact hun,?_⟩
        rw [hlists]
        apply hupdate hcheck htmp c
        rw [LiMao.getChannel_value htmp hget]
        cases hcached : (s.onLists store).cached (LiMao.route req.channelID req.channelType)
            req.channelID req.channelType with
        | some c₀ => exact Or.inl (h.lists _ _ _ c₀ hcached)
        | none => exact Or.inr (matches_fresh (s := s.onLists store) hun)
      · exact absurd (h.placed (s := s) hold).cache hk

theorem AccessSync.get (h : AccessSync s) (id : Bytes) (ty : UInt8)
    (hun : isTmpChannel id = false → Unlisted s.lists id ty) {s' : LiMao}
    (hget : s.getChannel id ty = (some c,s')) (hheld : LiMao.Held s s' id ty c) : AccessSync s' := by
  have htmp := h.not_tmp (f := fun lists => lists) hget
  apply h.target id ty
  · exact fun k id' ty' hne => hheld.other _ _ _ fun hp => hne (Prod.mk.inj hp).2
  · intro kind id' ty' _ _
    rw [hheld.lists]
  · intro k c' hc'
    have hlists := hheld.lists
    rcases cached_of_held hheld hc' with ⟨hk,rfl⟩ | ⟨hk,hold⟩
    · refine ⟨htmp,hk,by rw [hlists]; exact hun htmp,?_⟩
      rw [hlists]
      rw [LiMao.getChannel_value htmp hget]
      cases hcached : s.cached (LiMao.route id ty) id ty with
      | some c₀ => exact h.lists _ _ _ c₀ hcached
      | none => exact matches_fresh (hun htmp)
    · exact absurd (h.placed hold).cache hk

theorem AccessSync.recache (h : AccessSync s) {k : Cache} {c' : Channel}
    (hc : s.cached k id ty = some c) (hb : c'.blacklist = c.blacklist)
    (hw : c'.whitelist = c.whitelist) : AccessSync (s.cache k id ty c') := by
  apply accessSync_of_placed
  intro k₁ id₁ ty₁ c₁ hc₁
  rcases eq_or_ne (k₁,id₁,ty₁) (k,id,ty) with heq | hne
  · cases heq
    rw [LiMao.cached_cache_self] at hc₁
    cases hc₁
    have hp := h.placed hc
    refine ⟨hp.tmp,hp.cache,hp.unlisted,?_,?_⟩
    · rw [hb]
      exact hp.lists.blacklist
    · rw [hw]
      exact hp.lists.whitelist
  · rw [LiMao.cached_cache_ne hne] at hc₁
    exact (h.placed hc₁).congr rfl rfl

theorem AccessSync.onSubscribers (h : AccessSync s) {f : ChannelLists → ChannelLists}
    (hf : ∀ kind id ty, kind ≠ .subscribers → f s.lists ⟨kind,id,ty⟩ = s.lists ⟨kind,id,ty⟩) :
    AccessSync (s.onLists f) := by
  apply accessSync_of_placed
  intro k id ty c hc
  have hp := h.placed (s := s) hc
  exact hp.congr (hf .denylist id ty (by decide)) (hf .allowlist id ty (by decide))

theorem foldl_removeSubscriber (uids : List Bytes) (c : Channel) :
    (uids.foldl Channel.removeSubscriber c).blacklist = c.blacklist ∧
      (uids.foldl Channel.removeSubscriber c).whitelist = c.whitelist := by
  induction uids generalizing c with
  | nil => exact ⟨rfl,rfl⟩
  | cons uid uids ih => exact ih (c.removeSubscriber uid)

theorem subscribersKey_ne {kind : ListKind} (h : kind ≠ .subscribers) (id id' : Bytes) (ty ty' : UInt8) :
    (⟨kind,id,ty⟩ : ChannelKey) ≠ ⟨.subscribers,id',ty'⟩ := by
  intro heq
  cases heq
  exact h rfl

theorem AccessSync.remove (h : AccessSync s) (req : SubscriberRemoveReq)
    (hun : req.check = .ok () → isTmpChannel req.channelID = false →
      Unlisted s.lists req.channelID req.channelType) : AccessSync (removeSubscriber req s).2 := by
  have hf : ∀ (lists : ChannelLists) kind id ty, kind ≠ .subscribers →
      lists.remove ⟨.subscribers,req.channelID,req.channelType⟩ req.subscribers ⟨kind,id,ty⟩ =
        lists ⟨kind,id,ty⟩ := by
    intro lists kind id ty hk
    exact Function.update_of_ne (subscribersKey_ne hk _ _ _ _) _ _
  rcases removeSubscriber_cases req s with heq | ⟨-,heq⟩ | ⟨hcheck,c,s',hget,hheld,heq⟩
  · rw [heq]
    exact h
  · rw [heq]
    exact h.onSubscribers (hf s.lists)
  · rw [heq]
    have hs' := h.get _ _ (hun hcheck) hget hheld
    obtain ⟨hb,hw⟩ := foldl_removeSubscriber req.subscribers c
    exact (hs'.onSubscribers (hf s'.lists)).recache hheld.here hb hw

theorem AccessSync.add (h : AccessSync s) (req : SubscriberAddReq) :
    AccessSync (addSubscriber req s).2 := by
  by_cases hacc : req.Accepted
  · rcases addSubscriber_cases hacc s with ⟨-,heq⟩ | ⟨c,s',hget,hheld,heq⟩
    · rw [heq]
      exact h
    · rw [heq]
      have hs' := h.get _ _ (fun _ hty => absurd hty (SubscriberAddReq.actType_ne hacc)) hget hheld
      have hexist : AccessSync (req.existSubscribers c s').2 := by
        rw [SubscriberAddReq.existSubscribers]
        split
        · have hlists : AccessSync (s'.onLists (.removeAll req.key)) := by
            apply hs'.onSubscribers
            intro kind id ty hk
            exact Function.update_of_ne (subscribersKey_ne hk _ _ _ _) _ _
          exact hlists.recache hheld.here rfl rfl
        · exact hs'
      simp only [SubscriberAddReq.storeNew]
      split
      · apply hexist.onSubscribers
        intro kind id ty hk
        exact Function.update_of_ne (subscribersKey_ne hk _ _ _ _) _ _
      · exact hexist
  · rw [addSubscriber_rejected hacc]
    exact h

theorem AccessSync.uncached (h : AccessSync s)
    (hl : ∀ kind id ty, kind ≠ .subscribers → r.lists ⟨kind,id,ty⟩ = s.lists ⟨kind,id,ty⟩)
    (hc : ∀ k id ty c, r.cached k id ty = some c → s.cached k id ty = some c) : AccessSync r := by
  apply accessSync_of_placed
  intro k id ty c hr
  exact (h.placed (hc k id ty c hr)).congr (hl .denylist id ty (by decide))
    (hl .allowlist id ty (by decide))

theorem AccessSync.create (h : AccessSync s) (req : ChannelCreateReq) :
    AccessSync (channelCreateOrUpdate req s).2 := by
  rcases channelCreateOrUpdate_cases req s with heq | ⟨-,heq⟩
  · rw [heq]
    exact h
  · rw [heq]
    apply h.uncached
    · intro kind id ty hk
      have hne := subscribersKey_ne hk id req.channelID ty req.channelType
      simp only [LiMao.deleteChannelFromCache, LiMao.onLists, addOrUpdateChannel,
        ChannelLists.add, ChannelLists.removeAll, Function.update_of_ne hne]
    · exact fun k id ty c hc => LiMao.cached_of_deleteChannelFromCache hc

theorem AccessSync.delete (h : AccessSync s) (id : Bytes) (ty : UInt8) :
    AccessSync (channelDelete id ty s).2 := by
  obtain ⟨m,heq | heq⟩ := channelDelete_cases id ty s
  · rw [heq]
    exact h.uncached (fun _ _ _ _ => rfl) fun _ _ _ _ hc => hc
  · rw [heq]
    exact h.uncached (fun _ _ _ _ => rfl) fun _ _ _ _ hc =>
      LiMao.cached_of_deleteChannelFromCache hc

end Steps

section Updates

variable {lists : ChannelLists} {id : Bytes} {ty : UInt8} {uids : List Bytes} {c : Channel}

theorem matches_addDenylist (h : Matches lists id ty c ∨
    Matches (lists.add ⟨.denylist,id,ty⟩ uids) id ty c) :
    Matches (lists.add ⟨.denylist,id,ty⟩ uids) id ty (c.addDenylist uids) := by
  rcases h with h | h
  · refine ⟨fun uid => ?_,fun uid => ?_⟩
    · simp [Channel.addDenylist, ChannelLists.add, h.blacklist uid]
    · simp [Channel.addDenylist, ChannelLists.add, h.whitelist uid]
  · refine ⟨fun uid => ?_,h.whitelist⟩
    have hb := h.blacklist uid
    simp only [ChannelLists.add, Function.update_self, List.mem_append] at hb
    simp only [Channel.addDenylist, ChannelLists.add, Function.update_self, List.mem_append,
      mem_storeAll, hb]
    tauto

theorem matches_removeDenylist (h : Matches lists id ty c ∨
    Matches (lists.remove ⟨.denylist,id,ty⟩ uids) id ty c) :
    Matches (lists.remove ⟨.denylist,id,ty⟩ uids) id ty (c.removeDenylist uids) := by
  rcases h with h | h
  · refine ⟨fun uid => ?_,fun uid => ?_⟩
    · simp [Channel.removeDenylist, ChannelLists.remove, h.blacklist uid]
    · simp [Channel.removeDenylist, ChannelLists.remove, h.whitelist uid]
  · refine ⟨fun uid => ?_,h.whitelist⟩
    have hb := h.blacklist uid
    simp only [ChannelLists.remove, Function.update_self, List.mem_filter, decide_eq_true_eq] at hb
    simp only [Channel.removeDenylist, ChannelLists.remove, Function.update_self, List.mem_filter,
      decide_eq_true_eq, mem_deleteAll, hb]
    tauto

theorem mem_setList {key : ChannelKey} {uid : Bytes} :
    uid ∈ setList key uids lists key ↔ uid ∈ uids := by
  rw [setList]
  split
  · simp [ChannelLists.add, ChannelLists.removeAll]
  · rename_i hlen
    have hnil : uids = [] := List.length_eq_zero_iff.mp (by omega)
    simp [ChannelLists.removeAll, hnil]

theorem matches_setDenylist (h : Matches lists id ty c ∨
    Matches (setList ⟨.denylist,id,ty⟩ uids lists) id ty c) :
    Matches (setList ⟨.denylist,id,ty⟩ uids lists) id ty (c.setDenylist uids) := by
  refine ⟨fun uid => ?_,fun uid => ?_⟩
  · rw [mem_setList]
    simp [Channel.setDenylist, Channel.addDenylist]
  · rcases h with h | h
    · rw [setList_of_ne (by simp)]
      exact h.whitelist uid
    · exact h.whitelist uid

theorem matches_addAllowlist (h : Matches lists id ty c ∨
    Matches (lists.add ⟨.allowlist,id,ty⟩ uids) id ty c) :
    Matches (lists.add ⟨.allowlist,id,ty⟩ uids) id ty (c.addAllowlist uids) := by
  rcases h with h | h
  · refine ⟨fun uid => ?_,fun uid => ?_⟩
    · simp [Channel.addAllowlist, ChannelLists.add, h.blacklist uid]
    · simp [Channel.addAllowlist, ChannelLists.add, h.whitelist uid]
  · refine ⟨h.blacklist,fun uid => ?_⟩
    have hw := h.whitelist uid
    simp only [ChannelLists.add, Function.update_self, List.mem_append] at hw
    simp only [Channel.addAllowlist, ChannelLists.add, Function.update_self, List.mem_append,
      mem_storeAll, hw]
    tauto

theorem matches_removeAllowlist (h : Matches lists id ty c ∨
    Matches (lists.remove ⟨.allowlist,id,ty⟩ uids) id ty c) :
    Matches (lists.remove ⟨.allowlist,id,ty⟩ uids) id ty (c.removeAllowlist uids) := by
  rcases h with h | h
  · refine ⟨fun uid => ?_,fun uid => ?_⟩
    · simp [Channel.removeAllowlist, ChannelLists.remove, h.blacklist uid]
    · simp [Channel.removeAllowlist, ChannelLists.remove, h.whitelist uid]
  · refine ⟨h.blacklist,fun uid => ?_⟩
    have hw := h.whitelist uid
    simp only [ChannelLists.remove, Function.update_self, List.mem_filter, decide_eq_true_eq] at hw
    simp only [Channel.removeAllowlist, ChannelLists.remove, Function.update_self, List.mem_filter,
      decide_eq_true_eq, mem_deleteAll, hw]
    tauto

theorem matches_clearAllowlist (h : Matches lists id ty c ∨
    Matches (setList ⟨.allowlist,id,ty⟩ [] lists) id ty c) :
    Matches (setList ⟨.allowlist,id,ty⟩ [] lists) id ty (c.setAllowlist []) := by
  refine ⟨fun uid => ?_,fun uid => ?_⟩
  · rcases h with h | h
    · rw [setList_of_ne (by simp)]
      exact h.blacklist uid
    · exact h.blacklist uid
  · rw [mem_setList]
    simp [Channel.setAllowlist, Channel.addDenylist]

end Updates

theorem AccessSync.step (s : LiMao) (op : ChannelOp) (h : AccessSync s)
    (hc : KeepsAccessLists s op) : ∃ s', apiStep s op = .ok s' ∧ AccessSync s' := by
  refine ⟨_,rfl,?_⟩
  cases op with
  | create req => exact h.create req
  | addSubscriber req => exact h.add req
  | removeSubscriber req => exact h.remove req hc
  | delete id ty => exact h.delete id ty
  | blacklistAdd req =>
    exact h.accessList _ req (fun _ _ _ hne => Function.update_of_ne (key_of_ne hne) _ _) hc
      fun _ _ _ => matches_addDenylist
  | blacklistSet req =>
    exact h.accessList _ req (fun _ _ _ hne => setList_of_ne (key_of_ne hne) _ _) hc
      fun _ _ _ => matches_setDenylist
  | blacklistRemove req =>
    exact h.accessList _ req (fun _ _ _ hne => Function.update_of_ne (key_of_ne hne) _ _) hc
      fun _ _ _ => matches_removeDenylist
  | whitelistAdd req =>
    exact h.accessList _ req (fun _ _ _ hne => Function.update_of_ne (key_of_ne hne) _ _) hc
      fun _ _ _ => matches_addAllowlist
  | whitelistSet req =>
    refine h.accessList _ req (fun _ _ _ hne => setList_of_ne (key_of_ne hne) _ _) hc.1 ?_
    intro hcheck ht c hmatch
    rw [hc.2 hcheck ht] at hmatch ⊢
    exact matches_clearAllowlist hmatch
  | whitelistRemove req =>
    exact h.accessList _ req (fun _ _ _ hne => Function.update_of_ne (key_of_ne hne) _ _) hc
      fun _ _ _ => matches_removeAllowlist
  | get id ty =>
    rcases s.getChannel_cases id ty with ⟨-,hget⟩ | ⟨c,s',hget,hheld⟩
    · show AccessSync (s.getChannel id ty).2
      rw [hget]
      exact h
    · show AccessSync (s.getChannel id ty).2
      rw [hget]
      exact h.get id ty hc hget hheld

theorem cached_access_lists_agree (opts : ChannelOptions) (systemUIDs : List Bytes)
    (records : List ((Bytes × UInt8) × ChannelInfo)) (lists : ChannelLists) (messages : Store)
    {ops : List ChannelOp}
    (hm : Run.Meets apiStep KeepsAccessLists (.start opts systemUIDs records lists messages) ops) :
    Run.Always apiStep AccessListsAgree (.start opts systemUIDs records lists messages) ops := by
  apply Run.always_of_invariant (fun _ h => h.agree) AccessSync.step _ hm
  apply accessSync_of_placed
  intro k id ty c hc
  cases hc

def listedGroup : List ChannelOp :=
  [.blacklistAdd ⟨[0x67],2,[[0x61],[0x62]]⟩,.whitelistAdd ⟨[0x67],2,[[0x63]]⟩,
    .blacklistRemove ⟨[0x67],2,[[0x61]]⟩,.blacklistSet ⟨[0x67],2,[[0x64]]⟩,
    .whitelistRemove ⟨[0x67],2,[[0x64]]⟩,.whitelistSet ⟨[0x67],2,[]⟩,.get [0x61,0x40,0x62] 1]

theorem listed_group_agrees : Run.Always apiStep AccessListsAgree emptyServer listedGroup :=
  cached_access_lists_agree serverOptions [] [] (fun _ => []) (newStore 256 4096) (by decide +kernel)

theorem set_allowlist_not_cached :
    ¬ Run.Always apiStep AccessListsAgree emptyServer [.whitelistSet ⟨[0x67],2,[[0x61]]⟩] := by
  intro h
  have hagree : Run.Always apiStep (fun s => ∀ c ∈ s.cached .channelMap [0x67] 2,
      [0x61] ∈ s.lists ⟨.allowlist,[0x67],2⟩ → [0x61] ∈ c.whitelist) emptyServer
        [.whitelistSet ⟨[0x67],2,[[0x61]]⟩] := by
    apply h.imp
    intro s hs c hc hmem
    exact (hs.whitelist .channelMap [0x67] 2 c hc [0x61]).mpr hmem
  revert hagree
  decide +kernel

end LiMaoIM.Lim

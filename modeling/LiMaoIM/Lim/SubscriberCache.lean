import LiMaoIM.Lim.ChannelApi

namespace LiMaoIM.Lim

open Outcome Db

structure SubscribersAgree (s : LiMao) : Prop where
  subscribers : ∀ id ty c, s.cached .channelMap id ty = some c →
    ∀ uid, uid ∈ c.getAllSubscribers ↔ uid ∈ s.lists ⟨.subscribers,id,ty⟩
  delivered : ∀ id ty c, s.cached .channelMap id ty = some c →
    ∀ uid, uid ∈ c.recipients [] ↔ uid ∈ s.lists ⟨.subscribers,id,ty⟩

def KeepsSubscribers (s : LiMao) : ChannelOp → Prop
  | .addSubscriber req => req.Accepted → isTmpChannel req.channelID = false →
      req.reset ≠ 1 ∧ ∀ uid ∈ req.subscribers, uid ∈ s.lists req.key
  | _ => True

structure InSync (s : LiMao) (id : Bytes) (ty : UInt8) (c : Channel) : Prop where
  tmp : isTmpChannel id = false
  type : ty ≠ channelTypePerson
  subscribers : ∀ uid, uid ∈ c.subscriberMap ↔ uid ∈ s.lists ⟨.subscribers,id,ty⟩

def SubscribersSync (s : LiMao) : Prop :=
  ∀ id ty c, s.cached .channelMap id ty = some c → InSync s id ty c

theorem SubscribersSync.agree {s : LiMao} (h : SubscribersSync s) : SubscribersAgree s :=
  ⟨fun id ty c hc => (h id ty c hc).subscribers,fun id ty c hc => (h id ty c hc).subscribers⟩

section Frames

variable {s s' : LiMao} {id : Bytes} {ty : UInt8} {c : Channel}

theorem InSync.congr (h : InSync s id ty c)
    (hl : s'.lists ⟨.subscribers,id,ty⟩ = s.lists ⟨.subscribers,id,ty⟩) : InSync s' id ty c :=
  ⟨h.tmp,h.type,fun uid => by rw [hl]; exact h.subscribers uid⟩

theorem SubscribersSync.obtained (h : SubscribersSync s) (ht : isTmpChannel id = false)
    (hty : ty ≠ channelTypePerson) {s' : LiMao} (hget : s.getChannel id ty = (some c,s')) :
    InSync s id ty c := by
  have hroute : LiMao.route id ty = .channelMap := LiMao.route_eq_channelMap_iff.mpr ⟨ht,hty⟩
  rw [LiMao.getChannel_value ht hget, hroute]
  cases hc : s.cached .channelMap id ty with
  | some c => exact h id ty c hc
  | none =>
    refine ⟨ht,hty,fun uid => ?_⟩
    rw [Option.getD_none, LiMao.subscriberMap_fresh hty]
    simp

theorem SubscribersSync.held (h : SubscribersSync s) (hh : LiMao.Held s s' id ty c)
    (hc : isTmpChannel id = false → ty ≠ channelTypePerson → InSync s id ty c) :
    SubscribersSync s' := by
  intro id' ty' c' hc'
  rcases eq_or_ne (Cache.channelMap,id',ty') (LiMao.route id ty,id,ty) with heq | hne
  · obtain ⟨hroute,hpair⟩ := Prod.mk.inj heq
    obtain ⟨rfl,rfl⟩ := Prod.mk.inj hpair
    obtain ⟨ht,hty⟩ := LiMao.route_eq_channelMap_iff.mp hroute.symm
    have hhere := hh.here
    rw [← hroute, hc'] at hhere
    cases hhere
    exact (hc ht hty).congr (by rw [hh.lists])
  · rw [hh.other _ _ _ hne] at hc'
    exact (h id' ty' c' hc').congr (by rw [hh.lists])

theorem SubscribersSync.target {r : LiMao} (h : SubscribersSync s) (id : Bytes) (ty : UInt8)
    (hc : ∀ id' ty', (id',ty') ≠ (id,ty) → r.cached .channelMap id' ty' = s.cached .channelMap id' ty')
    (hl : ∀ id' ty', (id',ty') ≠ (id,ty) →
      r.lists ⟨.subscribers,id',ty'⟩ = s.lists ⟨.subscribers,id',ty'⟩)
    (hhere : ∀ c, r.cached .channelMap id ty = some c → InSync r id ty c) : SubscribersSync r := by
  intro id' ty' c' hc'
  rcases eq_or_ne (id',ty') (id,ty) with heq | hne
  · obtain ⟨rfl,rfl⟩ := Prod.mk.inj heq
    exact hhere c' hc'
  · rw [hc id' ty' hne] at hc'
    exact (h id' ty' c' hc').congr (hl id' ty' hne)

end Frames

section Steps

variable {s : LiMao}

theorem SubscribersSync.accessList (h : SubscribersSync s) (check : Outcome Unit)
    (req : AccessListReq) {store : ChannelLists → ChannelLists} {update : Channel → Channel}
    (hstore : ∀ lists id ty, store lists ⟨.subscribers,id,ty⟩ = lists ⟨.subscribers,id,ty⟩)
    (hupdate : ∀ c, (update c).subscriberMap = c.subscriberMap) :
    SubscribersSync (accessListHandler check req store update s).2 := by
  have hs : SubscribersSync (s.onLists store) := by
    intro id ty c hc
    exact (h id ty c hc).congr (hstore s.lists id ty)
  rcases accessListHandler_cases check req store update s with
    heq | ⟨-,-,heq⟩ | ⟨-,c,s',hget,hheld⟩
  · rw [heq]
    exact h
  · rw [heq]
    exact hs
  · refine hs.held hheld fun ht hty => ?_
    have hin := hs.obtained ht hty hget
    exact ⟨ht,hty,fun uid => by rw [hupdate]; exact hin.subscribers uid⟩

theorem SubscribersSync.create (h : SubscribersSync s) (req : ChannelCreateReq) :
    SubscribersSync (channelCreateOrUpdate req s).2 := by
  rcases channelCreateOrUpdate_cases req s with heq | ⟨-,heq⟩
  · rw [heq]
    exact h
  · rw [heq]
    apply h.target req.channelID req.channelType
    · intro id' ty' hne
      rw [LiMao.cached_deleteChannelFromCache_ne hne]
      rfl
    · intro id' ty' hne
      have hkey : (⟨.subscribers,id',ty'⟩ : ChannelKey) ≠
          ⟨.subscribers,req.channelID,req.channelType⟩ := key_of_ne hne
      simp only [LiMao.deleteChannelFromCache, LiMao.onLists, addOrUpdateChannel,
        ChannelLists.add, ChannelLists.removeAll, Function.update_of_ne hkey]
    · intro c hc
      rw [LiMao.cached_deleteChannelFromCache_self] at hc
      cases hc

theorem SubscribersSync.delete (h : SubscribersSync s) (id : Bytes) (ty : UInt8) :
    SubscribersSync (channelDelete id ty s).2 := by
  obtain ⟨m,heq | heq⟩ := channelDelete_cases id ty s
  · rw [heq]
    exact fun id' ty' c hc => (h id' ty' c hc).congr rfl
  · rw [heq]
    apply h.target id ty
    · intro id' ty' hne
      rw [LiMao.cached_deleteChannelFromCache_ne hne]
      rfl
    · exact fun _ _ _ => rfl
    · intro c hc
      rw [LiMao.cached_deleteChannelFromCache_self] at hc
      cases hc

theorem SubscribersSync.remove (h : SubscribersSync s) (req : SubscriberRemoveReq) :
    SubscribersSync (removeSubscriber req s).2 := by
  have hlists : ∀ (r : LiMao) id' ty', r.lists = s.lists →
      (id',ty') ≠ (req.channelID,req.channelType) →
      (r.onLists (.remove ⟨.subscribers,req.channelID,req.channelType⟩ req.subscribers)).lists
        ⟨.subscribers,id',ty'⟩ = s.lists ⟨.subscribers,id',ty'⟩ := by
    intro r id' ty' hr hne
    simp only [LiMao.onLists, ChannelLists.remove, Function.update_of_ne (key_of_ne hne), hr]
  rcases removeSubscriber_cases req s with heq | ⟨ht,heq⟩ | ⟨-,c,s',hget,hheld,heq⟩
  · rw [heq]
    exact h
  · rw [heq]
    apply h.target req.channelID req.channelType
    · exact fun _ _ _ => rfl
    · exact fun id' ty' hne => hlists s id' ty' rfl hne
    · intro c hc
      have hin := h _ _ c hc
      rw [hin.tmp] at ht
      cases ht
  · rw [heq]
    apply h.target req.channelID req.channelType
    · intro id' ty' hne
      have hne' : (Cache.channelMap,id',ty') ≠
          (LiMao.route req.channelID req.channelType,req.channelID,req.channelType) :=
        fun hp => hne (Prod.mk.inj hp).2
      rw [LiMao.cached_cache_ne hne']
      exact hheld.other _ _ _ hne'
    · exact fun id' ty' hne => hlists s' id' ty' hheld.lists hne
    · intro c' hc'
      rcases eq_or_ne (LiMao.route req.channelID req.channelType) .channelMap with hroute | hroute
      · obtain ⟨ht,hty⟩ := LiMao.route_eq_channelMap_iff.mp hroute
        have hin := h.obtained ht hty hget
        rw [hroute, LiMao.cached_cache_self] at hc'
        cases hc'
        refine ⟨ht,hty,fun uid => ?_⟩
        rw [mem_foldl_removeSubscriber, hin.subscribers uid]
        simp [LiMao.cache, LiMao.onLists, ChannelLists.remove, hheld.lists]
      · rw [LiMao.cached_cache_ne (fun hp => hroute (Prod.mk.inj hp).1.symm)] at hc'
        have hold := (hheld.other .channelMap req.channelID req.channelType
          (fun hp => hroute (Prod.mk.inj hp).1.symm)).symm.trans hc'
        have hin := h _ _ c' hold
        exact absurd (LiMao.route_eq_channelMap_iff.mpr ⟨hin.tmp,hin.type⟩) hroute

theorem SubscribersSync.get (h : SubscribersSync s) (id : Bytes) (ty : UInt8) :
    SubscribersSync (s.getChannel id ty).2 := by
  rcases s.getChannel_cases id ty with ⟨-,hget⟩ | ⟨c,s',hget,hheld⟩
  · rw [hget]
    exact h
  · rw [hget]
    exact h.held hheld fun ht hty => h.obtained ht hty hget

theorem storeNew_eq {req : SubscriberAddReq} {exist : List Bytes}
    (h : ∀ uid ∈ req.subscribers, uid ∈ exist) (s : LiMao) : req.storeNew exist s = s := by
  have hnil : req.subscribers.filter (fun uid => decide (¬ uid ∈ exist)) = [] := by
    rw [List.filter_eq_nil_iff]
    intro uid hu
    simp [h uid hu]
  simp only [SubscriberAddReq.storeNew, hnil, List.length_nil, if_neg (Nat.lt_irrefl 0)]

theorem cached_storeNew (req : SubscriberAddReq) (exist : List Bytes) (s : LiMao) (k : Cache)
    (id : Bytes) (ty : UInt8) : (req.storeNew exist s).cached k id ty = s.cached k id ty := by
  simp only [SubscriberAddReq.storeNew]
  split
  · rfl
  · rfl

theorem mem_lists_storeNew {req : SubscriberAddReq} {exist : List Bytes} (s : LiMao) {uid : Bytes} :
    uid ∈ (req.storeNew exist s).lists req.key ↔
      uid ∈ s.lists req.key ∨ uid ∈ req.subscribers ∧ uid ∉ exist := by
  simp only [SubscriberAddReq.storeNew]
  split
  · simp [LiMao.onLists, ChannelLists.add]
  · rename_i hlen
    have hnil : req.subscribers.filter (fun uid => decide (¬ uid ∈ exist)) = [] :=
      List.length_eq_zero_iff.mp (by omega)
    have hnone : ¬ (uid ∈ req.subscribers ∧ uid ∉ exist) := by
      rintro ⟨hu,hne⟩
      have hmem : uid ∈ req.subscribers.filter (fun uid => decide (¬ uid ∈ exist)) := by
        simp [hu, hne]
      rw [hnil] at hmem
      cases hmem
    simp [hnone]

theorem lists_storeNew_ne {req : SubscriberAddReq} {key : ChannelKey} (h : key ≠ req.key)
    (exist : List Bytes) (s : LiMao) : (req.storeNew exist s).lists key = s.lists key := by
  simp only [SubscriberAddReq.storeNew]
  split
  · exact Function.update_of_ne h _ _
  · rfl

theorem lists_existSubscribers_ne {req : SubscriberAddReq} {key : ChannelKey} (h : key ≠ req.key)
    (c : Channel) (s : LiMao) : (req.existSubscribers c s).2.lists key = s.lists key := by
  rw [SubscriberAddReq.existSubscribers]
  split
  · exact Function.update_of_ne h _ _
  · rfl

theorem cached_existSubscribers_ne {req : SubscriberAddReq} {k : Cache} {id : Bytes} {ty : UInt8}
    (h : (k,id,ty) ≠ (LiMao.route req.channelID req.actType,req.channelID,req.actType))
    (c : Channel) (s : LiMao) :
    (req.existSubscribers c s).2.cached k id ty = s.cached k id ty := by
  rw [SubscriberAddReq.existSubscribers]
  split
  · exact LiMao.cached_cache_ne h
  · rfl

theorem SubscribersSync.add (h : SubscribersSync s) {req : SubscriberAddReq}
    (hc : KeepsSubscribers s (.addSubscriber req)) : SubscribersSync (addSubscriber req s).2 := by
  by_cases hacc : req.Accepted
  · rcases addSubscriber_cases hacc s with ⟨-,heq⟩ | ⟨c,s',hget,hheld,heq⟩
    · rw [heq]
      exact h
    · rw [heq]
      cases ht : isTmpChannel req.channelID with
      | false =>
        obtain ⟨hreset,hsub⟩ := hc hacc ht
        rw [SubscriberAddReq.existSubscribers, if_neg hreset]
        rw [storeNew_eq (by rw [hheld.lists]; exact hsub)]
        exact h.held hheld fun ht hty => h.obtained ht hty hget
      | true =>
        have hroute : LiMao.route req.channelID req.actType = .tmpChannelMap := by
          rw [LiMao.route, ht, if_pos rfl]
        have hne : ∀ id ty, (Cache.channelMap,id,ty) ≠
            (LiMao.route req.channelID req.actType,req.channelID,req.actType) := by
          intro id ty hp
          rw [hroute] at hp
          cases (Prod.mk.inj hp).1
        have hcached : ∀ id ty, (req.storeNew (req.existSubscribers c s').1
            (req.existSubscribers c s').2).cached .channelMap id ty = s.cached .channelMap id ty := by
          intro id ty
          rw [cached_storeNew, cached_existSubscribers_ne (hne id ty), hheld.other _ _ _ (hne id ty)]
        apply h.target req.channelID req.actType
        · exact fun id ty _ => hcached id ty
        · intro id ty hp
          have hkey : (⟨.subscribers,id,ty⟩ : ChannelKey) ≠ req.key := key_of_ne hp
          rw [lists_storeNew_ne hkey, lists_existSubscribers_ne hkey, hheld.lists]
        · intro c' hc'
          rw [hcached] at hc'
          have hin := h _ _ c' hc'
          rw [hin.tmp] at ht
          cases ht
  · rw [addSubscriber_rejected hacc]
    exact h

theorem SubscribersSync.step (s : LiMao) (op : ChannelOp) (h : SubscribersSync s)
    (hc : KeepsSubscribers s op) : ∃ s', apiStep s op = .ok s' ∧ SubscribersSync s' := by
  refine ⟨_,rfl,?_⟩
  cases op with
  | create req => exact h.create req
  | addSubscriber req => exact h.add hc
  | removeSubscriber req => exact h.remove req
  | delete id ty => exact h.delete id ty
  | blacklistAdd req =>
    exact h.accessList _ req (fun _ _ _ => Function.update_of_ne (by simp) _ _) fun _ => rfl
  | blacklistSet req =>
    exact h.accessList _ req (fun lists _ _ => setList_of_ne (by simp) _ lists) fun _ => rfl
  | blacklistRemove req =>
    exact h.accessList _ req (fun _ _ _ => Function.update_of_ne (by simp) _ _) fun _ => rfl
  | whitelistAdd req =>
    exact h.accessList _ req (fun _ _ _ => Function.update_of_ne (by simp) _ _) fun _ => rfl
  | whitelistSet req =>
    exact h.accessList _ req (fun lists _ _ => setList_of_ne (by simp) _ lists) fun _ => rfl
  | whitelistRemove req =>
    exact h.accessList _ req (fun _ _ _ => Function.update_of_ne (by simp) _ _) fun _ => rfl
  | get id ty => exact h.get id ty

theorem SubscribersSync.altered (s : LiMao) (op : ChannelOp) (s' : LiMao) (h : SubscribersSync s)
    (hc : ¬ KeepsSubscribers s op) (hs : apiStep s op = .ok s') : ¬ SubscribersAgree s' := by
  cases op with
  | addSubscriber req =>
    simp only [KeepsSubscribers, Classical.not_imp] at hc
    obtain ⟨hacc,ht,hc⟩ := hc
    have hty := SubscriberAddReq.actType_ne hacc
    have hroute := LiMao.route_eq_channelMap_iff.mpr ⟨ht,hty⟩
    rcases addSubscriber_cases hacc s with ⟨htmp,-⟩ | ⟨c,s₁,hget,hheld,heq⟩
    · rw [ht] at htmp
      cases htmp
    · have hin := h.obtained ht hty hget
      obtain rfl : (addSubscriber req s).2 = s' := Outcome.ok.inj hs
      intro hagree
      rw [heq] at hagree
      have hstored := hagree.subscribers req.channelID req.actType
      rw [cached_storeNew] at hstored
      by_cases hreset : req.reset = 1
      · rw [SubscriberAddReq.existSubscribers, if_pos hreset, hroute] at hstored
        have hagree' := hstored c.removeAllSubscriber LiMao.cached_cache_self
        obtain ⟨uid,hu⟩ : ∃ uid, uid ∈ req.subscribers := by
          have hcheck := hacc.1
          rw [SubscriberAddReq.check, subscribersCheck] at hcheck
          split at hcheck
          · cases hcheck
          · split at hcheck
            · cases hcheck
            · rename_i hlen
              exact List.exists_mem_of_length_pos (Nat.pos_of_ne_zero hlen)
        have hmem := (hagree' uid).mpr (mem_lists_storeNew _ |>.mpr (Or.inr ⟨hu,List.not_mem_nil⟩))
        cases hmem
      · rw [SubscriberAddReq.existSubscribers, if_neg hreset] at hstored
        have hhere := hheld.here
        rw [hroute] at hhere
        have hagree' := hstored c hhere
        simp only [not_and, not_forall] at hc
        obtain ⟨uid,hu,hnot⟩ := hc hreset
        have hmem := (hagree' uid).mpr (mem_lists_storeNew _ |>.mpr
          (Or.inr ⟨hu,by rw [hheld.lists]; exact hnot⟩))
        exact hnot ((hin.subscribers uid).mp hmem)
  | _ => exact absurd trivial hc

end Steps

theorem cached_subscribers_agree_iff (opts : ChannelOptions) (systemUIDs : List Bytes)
    (records : List ((Bytes × UInt8) × ChannelInfo)) (lists : ChannelLists) (messages : Store)
    (ops : List ChannelOp) :
    Run.Always apiStep SubscribersAgree (.start opts systemUIDs records lists messages) ops ↔
      Run.Meets apiStep KeepsSubscribers (.start opts systemUIDs records lists messages) ops := by
  apply Run.always_iff_meets (fun _ h => h.agree) SubscribersSync.step SubscribersSync.altered
  intro id ty c hc
  cases hc

def groupAdded : List ChannelOp :=
  [.create ⟨[0x67],2,[],[[0x61]]⟩,.addSubscriber ⟨[0x67],2,0,[[0x62]]⟩]

theorem added_subscriber_not_cached :
    ¬ Run.Always apiStep SubscribersAgree emptyServer groupAdded := by
  intro h
  have hagree : Run.Always apiStep (fun s => ∀ c ∈ s.cached .channelMap [0x67] 2,
      [0x62] ∈ s.lists ⟨.subscribers,[0x67],2⟩ → [0x62] ∈ c.getAllSubscribers) emptyServer
        groupAdded := by
    apply h.imp
    intro s hs c hc hmem
    exact (hs.subscribers [0x67] 2 c hc [0x62]).mpr hmem
  revert hagree
  decide +kernel

end LiMaoIM.Lim

import LiMaoIM.Foundation.Space
import LiMaoIM.Db.StoreLists
import LiMaoIM.Db.Store

namespace LiMaoIM.Lim

open Outcome Db

def channelTypePerson : UInt8 := 1

def channelTypeGroup : UInt8 := 2

def tmpChannelSuffix : Bytes := Bytes.ofString "@tmp"

def atSign : UInt8 := 0x40

def isTmpChannel (channelID : Bytes) : Bool := tmpChannelSuffix <:+ channelID

def isFakeChannel (channelID : Bytes) : Bool := atSign ∈ channelID

def getFakeChannelIDWith (fromUID toUID : Bytes) : Bytes :=
  if Crc32.checksumIEEE toUID < Crc32.checksumIEEE fromUID then fromUID ++ atSign :: toUID
  else toUID ++ atSign :: fromUID

def channelKey (channelID : Bytes) (channelType : UInt8) : Bytes :=
  FileDB.formatKey [] channelID channelType

def storeAll (set uids : List Bytes) : List Bytes := uids.foldl (fun set uid => set.insert uid) set

def deleteAll (set uids : List Bytes) : List Bytes := set.filter fun uid => ¬ uid ∈ uids

structure ChannelInfo where
  channelID : Bytes
  channelType : UInt8
  mute : Bool
  parent : Bytes
deriving DecidableEq

def newChannelInfo (channelID : Bytes) (channelType : UInt8) : ChannelInfo :=
  ⟨channelID,channelType,false,[]⟩

structure Channel where
  info : ChannelInfo
  blacklist : List Bytes
  whitelist : List Bytes
  subscriberMap : List Bytes
deriving DecidableEq

def newChannel (info : ChannelInfo) : Channel := ⟨info,[],[],[]⟩

namespace Channel

def isSubscriber (c : Channel) (uid : Bytes) : Bool :=
  uid ∈ c.subscriberMap ∨ 0 < c.info.parent.length

def isBlacklist (c : Channel) (uid : Bytes) : Bool := uid ∈ c.blacklist

def addSubscriber (c : Channel) (uid : Bytes) : Channel :=
  { c with subscriberMap := c.subscriberMap.insert uid }

def allow (c : Channel) (systemUIDs : List Bytes) (uid : Bytes) : Bool :=
  if uid ∈ systemUIDs then true
  else if 0 < c.whitelist.length then uid ∈ c.whitelist
  else !c.isBlacklist uid

def getAllSubscribers (c : Channel) : List Bytes := c.subscriberMap

def recipients (c : Channel) (subscribers : List Bytes) : List Bytes :=
  if 0 < subscribers.length then subscribers else c.getAllSubscribers

def removeAllSubscriber (c : Channel) : Channel := { c with subscriberMap := [] }

def removeSubscriber (c : Channel) (uid : Bytes) : Channel :=
  { c with subscriberMap := c.subscriberMap.filter fun u => ¬ u = uid }

def addDenylist (uids : List Bytes) (c : Channel) : Channel :=
  { c with blacklist := storeAll c.blacklist uids }

def setDenylist (uids : List Bytes) (c : Channel) : Channel := addDenylist uids { c with blacklist := [] }

def removeDenylist (uids : List Bytes) (c : Channel) : Channel :=
  { c with blacklist := deleteAll c.blacklist uids }

def addAllowlist (uids : List Bytes) (c : Channel) : Channel :=
  { c with whitelist := storeAll c.whitelist uids }

def setAllowlist (uids : List Bytes) (c : Channel) : Channel := addDenylist uids { c with whitelist := [] }

def removeAllowlist (uids : List Bytes) (c : Channel) : Channel :=
  { c with whitelist := deleteAll c.whitelist uids }

end Channel

abbrev ChannelLists := ChannelKey → List Bytes

theorem key_of_ne {kind kind' : ListKind} {id id' : Bytes} {ty ty' : UInt8}
    (h : (id,ty) ≠ (id',ty')) : (⟨kind,id,ty⟩ : ChannelKey) ≠ ⟨kind',id',ty'⟩ := by
  intro heq
  cases heq
  exact h rfl

namespace ChannelLists

def add (c : ChannelKey) (uids : List Bytes) (lists : ChannelLists) : ChannelLists :=
  Function.update lists c (lists c ++ uids)

def remove (c : ChannelKey) (uids : List Bytes) (lists : ChannelLists) : ChannelLists :=
  Function.update lists c ((lists c).filter fun uid => ¬ uid ∈ uids)

def removeAll (c : ChannelKey) (lists : ChannelLists) : ChannelLists := Function.update lists c []

end ChannelLists

inductive Cache where
  | channelMap
  | tmpChannelMap
  | personChannelMap
deriving DecidableEq, Repr

structure ChannelOptions where
  testMode : Bool
  createIfChannelNotExist : Bool

structure LiMao where
  opts : ChannelOptions
  systemUIDs : List Bytes
  records : List ((Bytes × UInt8) × ChannelInfo)
  lists : ChannelLists
  caches : Cache → List (Bytes × Channel)
  messages : Store

namespace LiMao

def cached (s : LiMao) (k : Cache) (channelID : Bytes) (channelType : UInt8) : Option Channel :=
  Assoc.get (channelKey channelID channelType) (s.caches k)

def cache (s : LiMao) (k : Cache) (channelID : Bytes) (channelType : UInt8) (c : Channel) : LiMao :=
  { s with
    caches := Function.update s.caches k (Assoc.put (channelKey channelID channelType) c (s.caches k)) }

def deleteChannelFromCache (channelID : Bytes) (channelType : UInt8) (s : LiMao) : LiMao :=
  { s with
    caches := Function.update s.caches .channelMap
      (Assoc.erase (channelKey channelID channelType) (s.caches .channelMap)) }

def loadData (s : LiMao) (c : Channel) : Channel :=
  if c.info.channelType = channelTypePerson ∧ isFakeChannel c.info.channelID then c
  else
    { c with
      subscriberMap := storeAll c.subscriberMap
        (s.lists ⟨.subscribers,c.info.channelID,c.info.channelType⟩)
      blacklist := storeAll c.blacklist (s.lists ⟨.denylist,c.info.channelID,c.info.channelType⟩)
      whitelist := storeAll c.whitelist (s.lists ⟨.allowlist,c.info.channelID,c.info.channelType⟩) }

def storedChannel (s : LiMao) (channelID : Bytes) (channelType : UInt8) : Option ChannelInfo :=
  match Assoc.get (channelID,channelType) s.records with
  | some data => some ⟨channelID,channelType,data.mute,data.parent⟩
  | none => some ⟨channelID,channelType,false,[]⟩

def newPersonChannel (s : LiMao) (channelID : Bytes) (channelType : UInt8) : Channel :=
  let c := s.loadData (newChannel (newChannelInfo channelID channelType))
  if isFakeChannel channelID then (channelID.splitOn atSign).foldl Channel.addSubscriber c else c

def getPersonChannel (s : LiMao) (channelID : Bytes) (channelType : UInt8) :
    Option Channel × LiMao :=
  match s.cached .personChannelMap channelID channelType with
  | some c => (some c,s)
  | none =>
      (some (s.newPersonChannel channelID channelType),
        s.cache .personChannelMap channelID channelType (s.newPersonChannel channelID channelType))

def getChannel (s : LiMao) (channelID : Bytes) (channelType : UInt8) : Option Channel × LiMao :=
  if isTmpChannel channelID then (s.cached .tmpChannelMap channelID channelType,s)
  else if channelType = channelTypePerson then s.getPersonChannel channelID channelType
  else
    match s.cached .channelMap channelID channelType with
    | some c => (some c,s)
    | none =>
        match s.storedChannel channelID channelType with
        | some info =>
            (some (s.loadData (newChannel info)),
              s.cache .channelMap channelID channelType (s.loadData (newChannel info)))
        | none =>
            if s.opts.createIfChannelNotExist then
              (some (s.loadData (newChannel (newChannelInfo channelID channelType))),
                s.cache .channelMap channelID channelType
                  (s.loadData (newChannel (newChannelInfo channelID channelType))))
            else (none,s)

def route (channelID : Bytes) (channelType : UInt8) : Cache :=
  if isTmpChannel channelID then .tmpChannelMap
  else if channelType = channelTypePerson then .personChannelMap
  else .channelMap

def onLists (f : ChannelLists → ChannelLists) (s : LiMao) : LiMao := { s with lists := f s.lists }

def fresh (s : LiMao) (channelID : Bytes) (channelType : UInt8) : Channel :=
  if channelType = channelTypePerson then s.newPersonChannel channelID channelType
  else s.loadData (newChannel ((s.storedChannel channelID channelType).getD
    (newChannelInfo channelID channelType)))

section Caching

variable {s s' : LiMao} {id id' : Bytes} {ty ty' : UInt8} {c : Channel} {k k' : Cache}

theorem channelKey_injective (h : channelKey id ty = channelKey id' ty') : id = id' ∧ ty = ty' :=
  FileDB.formatKey_injective h

@[simp] theorem cached_cache_self : (s.cache k id ty c).cached k id ty = some c := by
  simp [cached, cache]

theorem cached_cache_ne (h : (k',id',ty') ≠ (k,id,ty)) :
    (s.cache k id ty c).cached k' id' ty' = s.cached k' id' ty' := by
  simp only [cached, cache]
  by_cases hk : k' = k
  · subst hk
    rw [Function.update_self, Assoc.get_put_ne]
    intro hkey
    obtain ⟨rfl,rfl⟩ := channelKey_injective hkey
    exact h rfl
  · rw [Function.update_of_ne hk]

theorem storedChannel_ne_none (s : LiMao) (id : Bytes) (ty : UInt8) :
    ∃ info, s.storedChannel id ty = some info := by
  rw [storedChannel]
  split
  · exact ⟨_,rfl⟩
  · exact ⟨_,rfl⟩

theorem getChannel_cached (ht : isTmpChannel id = false) (h : s.cached (route id ty) id ty = some c) :
    s.getChannel id ty = (some c,s) := by
  rw [route, ht, if_neg (by decide)] at h
  rw [getChannel, ht, if_neg (by decide)]
  split
  · rename_i hty
    rw [if_pos hty] at h
    rw [getPersonChannel, h]
  · rename_i hty
    rw [if_neg hty] at h
    rw [h]

theorem getChannel_fresh (ht : isTmpChannel id = false) (h : s.cached (route id ty) id ty = none) :
    s.getChannel id ty = (some (s.fresh id ty),s.cache (route id ty) id ty (s.fresh id ty)) := by
  have hroute : route id ty =
      if ty = channelTypePerson then .personChannelMap else .channelMap := by
    rw [route, ht, if_neg (by decide)]
  rw [hroute] at h ⊢
  rw [getChannel, ht, if_neg (by decide), fresh]
  rcases eq_or_ne ty channelTypePerson with hty | hty
  · simp only [if_pos hty] at h ⊢
    rw [getPersonChannel, h]
  · simp only [if_neg hty] at h ⊢
    obtain ⟨info,hinfo⟩ := s.storedChannel_ne_none id ty
    rw [h, hinfo]
    rfl

theorem getChannel_tmp (ht : isTmpChannel id = true) :
    s.getChannel id ty = (s.cached .tmpChannelMap id ty,s) := by
  rw [getChannel, ht, if_pos rfl]

structure Held (s s' : LiMao) (id : Bytes) (ty : UInt8) (c : Channel) : Prop where
  opts : s'.opts = s.opts
  systemUIDs : s'.systemUIDs = s.systemUIDs
  records : s'.records = s.records
  lists : s'.lists = s.lists
  messages : s'.messages = s.messages
  here : s'.cached (route id ty) id ty = some c
  other : ∀ k' id' ty', (k',id',ty') ≠ (route id ty,id,ty) → s'.cached k' id' ty' = s.cached k' id' ty'

theorem held_self (h : s.cached (route id ty) id ty = some c) : Held s s id ty c :=
  ⟨rfl,rfl,rfl,rfl,rfl,h,fun _ _ _ _ => rfl⟩

theorem Held.cache {s' : LiMao} (h : Held s s' id ty c) (c' : Channel) :
    Held s (s'.cache (route id ty) id ty c') id ty c' :=
  ⟨h.opts,h.systemUIDs,h.records,h.lists,h.messages,cached_cache_self,
    fun k' id' ty' hne => (cached_cache_ne hne).trans (h.other k' id' ty' hne)⟩

theorem getChannel_some (ht : isTmpChannel id = false) (s : LiMao) (ty : UInt8) :
    ∃ s', s.getChannel id ty = (some ((s.cached (route id ty) id ty).getD (s.fresh id ty)),s') ∧
      Held s s' id ty ((s.cached (route id ty) id ty).getD (s.fresh id ty)) := by
  cases h : s.cached (route id ty) id ty with
  | some c => exact ⟨s,getChannel_cached ht h,held_self h⟩
  | none =>
    refine ⟨_,getChannel_fresh ht h,rfl,rfl,rfl,rfl,rfl,cached_cache_self,?_⟩
    exact fun k' id' ty' hne => cached_cache_ne hne

theorem getChannel_value (ht : isTmpChannel id = false) {s' : LiMao}
    (h : s.getChannel id ty = (some c,s')) :
    c = (s.cached (route id ty) id ty).getD (s.fresh id ty) := by
  obtain ⟨s₁,hs₁,-⟩ := getChannel_some ht s ty
  exact Option.some.inj (Prod.mk.inj (h.symm.trans hs₁)).1

theorem getChannel_cases (s : LiMao) (id : Bytes) (ty : UInt8) :
    (isTmpChannel id = true ∧ s.getChannel id ty = (none,s)) ∨
      ∃ c s', s.getChannel id ty = (some c,s') ∧ Held s s' id ty c := by
  cases ht : isTmpChannel id with
  | false =>
    obtain ⟨s',hget,hheld⟩ := getChannel_some ht s ty
    exact Or.inr ⟨_,s',hget,hheld⟩
  | true =>
    have hroute : route id ty = .tmpChannelMap := by rw [route, ht, if_pos rfl]
    rw [getChannel_tmp ht]
    cases hc : s.cached .tmpChannelMap id ty with
    | none => exact Or.inl ⟨rfl,rfl⟩
    | some c => exact Or.inr ⟨c,s,rfl,held_self (hroute ▸ hc)⟩

theorem cached_deleteChannelFromCache_ne (h : (id',ty') ≠ (id,ty)) :
    (s.deleteChannelFromCache id ty).cached k' id' ty' = s.cached k' id' ty' := by
  simp only [cached, deleteChannelFromCache]
  rcases eq_or_ne k' .channelMap with rfl | hk
  · rw [Function.update_self, Assoc.get_erase_ne]
    intro hkey
    obtain ⟨rfl,rfl⟩ := channelKey_injective hkey
    exact h rfl
  · rw [Function.update_of_ne hk]

theorem cached_deleteChannelFromCache_self :
    (s.deleteChannelFromCache id ty).cached .channelMap id ty = none := by
  simp [cached, deleteChannelFromCache]

theorem cached_of_deleteChannelFromCache
    (h : (s.deleteChannelFromCache id ty).cached k id' ty' = some c) :
    s.cached k id' ty' = some c := by
  rcases eq_or_ne (id',ty') (id,ty) with heq | hne
  · cases heq
    rcases eq_or_ne k .channelMap with rfl | hk
    · rw [cached_deleteChannelFromCache_self] at h
      cases h
    · simpa only [cached, deleteChannelFromCache, Function.update_of_ne hk] using h
  · rwa [cached_deleteChannelFromCache_ne hne] at h

theorem route_eq_channelMap_iff : route id ty = .channelMap ↔
    isTmpChannel id = false ∧ ty ≠ channelTypePerson := by
  rw [route]
  cases ht : isTmpChannel id with
  | true => simp
  | false =>
    rcases eq_or_ne ty channelTypePerson with hty | hty
    · simp [hty]
    · simp [hty]

theorem subscriberMap_fresh (hty : ty ≠ channelTypePerson) :
    (s.fresh id ty).subscriberMap = storeAll [] (s.lists ⟨.subscribers,id,ty⟩) := by
  rw [fresh, if_neg hty, storedChannel]
  split
  · simp [loadData, newChannel, hty]
  · simp [loadData, newChannel, hty]

theorem loadData_congr (hl : s'.lists = s.lists) (c : Channel) :
    s'.loadData c = s.loadData c := by
  rw [loadData, loadData, hl]

theorem fresh_congr (hr : s'.records = s.records) (hl : s'.lists = s.lists) (id : Bytes)
    (ty : UInt8) : s'.fresh id ty = s.fresh id ty := by
  have hstored : s'.storedChannel id ty = s.storedChannel id ty := by
    rw [storedChannel, storedChannel, hr]
  have hperson : s'.newPersonChannel id ty = s.newPersonChannel id ty := by
    simp only [newPersonChannel, loadData_congr hl]
  rw [fresh, fresh, hstored, hperson, loadData_congr hl]

theorem getChannel_stable (s : LiMao) (id : Bytes) (ty : UInt8) (id' : Bytes) (ty' : UInt8) :
    ((s.getChannel id ty).2.getChannel id' ty').1 = (s.getChannel id' ty').1 := by
  cases ht : isTmpChannel id with
  | true => rw [getChannel_tmp ht]
  | false =>
    obtain ⟨s',hget,hheld⟩ := getChannel_some ht s ty
    rw [hget]
    cases ht' : isTmpChannel id' with
    | true =>
      have hne : (Cache.tmpChannelMap,id',ty') ≠ (route id ty,id,ty) := by
        intro heq
        obtain ⟨-,hpair⟩ := Prod.mk.inj heq
        rw [(Prod.mk.inj hpair).1, ht] at ht'
        cases ht'
      rw [getChannel_tmp ht', getChannel_tmp ht']
      exact hheld.other _ _ _ hne
    | false =>
      obtain ⟨s₁,h₁,-⟩ := getChannel_some ht' s' ty'
      obtain ⟨s₂,h₂,-⟩ := getChannel_some ht' s ty'
      rw [h₁, h₂, fresh_congr hheld.records hheld.lists]
      rcases eq_or_ne (route id' ty',id',ty') (route id ty,id,ty) with heq | hne
      · obtain ⟨-,hpair⟩ := Prod.mk.inj heq
        obtain ⟨rfl,rfl⟩ := Prod.mk.inj hpair
        rw [hheld.here, Option.getD_some]
      · rw [hheld.other _ _ _ hne]

end Caching

def start (opts : ChannelOptions) (systemUIDs : List Bytes) (records : List ((Bytes × UInt8) × ChannelInfo))
    (lists : ChannelLists) (messages : Store) : LiMao :=
  ⟨opts,systemUIDs,records,lists,fun _ => [],messages⟩

end LiMao

def serverOptions : ChannelOptions := ⟨false,false⟩

def emptyServer : LiMao := .start serverOptions [] [] (fun _ => []) (newStore 256 4096)

section Sets

variable {set uids : List Bytes} {uid : Bytes}

@[simp] theorem mem_storeAll : uid ∈ storeAll set uids ↔ uid ∈ set ∨ uid ∈ uids := by
  induction uids generalizing set with
  | nil => simp [storeAll]
  | cons u uids ih =>
    have hcons : storeAll set (u :: uids) = storeAll (set.insert u) uids := rfl
    rw [hcons, ih, List.mem_insert_iff, List.mem_cons]
    tauto

theorem mem_foldl_removeSubscriber (c : Channel) :
    uid ∈ (uids.foldl Channel.removeSubscriber c).subscriberMap ↔
      uid ∈ c.subscriberMap ∧ uid ∉ uids := by
  induction uids generalizing c with
  | nil => simp
  | cons u uids ih =>
    rw [List.foldl_cons, ih, Channel.removeSubscriber, List.mem_cons]
    simp
    tauto

@[simp] theorem mem_deleteAll : uid ∈ deleteAll set uids ↔ uid ∈ set ∧ uid ∉ uids := by
  simp [deleteAll]

end Sets
end LiMaoIM.Lim

import LiMaoIM.Foundation.Run
import LiMaoIM.Lim.Channel

namespace LiMaoIM.Lim

open Outcome Db

structure ChannelCreateReq where
  channelID : Bytes
  channelType : UInt8
  bind : Bytes
  subscribers : List Bytes

structure SubscriberAddReq where
  channelID : Bytes
  channelType : UInt8
  reset : Int
  subscribers : List Bytes

structure SubscriberRemoveReq where
  channelID : Bytes
  channelType : UInt8
  subscribers : List Bytes

structure AccessListReq where
  channelID : Bytes
  channelType : UInt8
  uids : List Bytes

def ChannelCreateReq.check (r : ChannelCreateReq) : Outcome Unit :=
  if Bytes.isBlank r.channelID then .error "频道ID不能为空！"
  else if r.channelType = 0 then .error "频道类型错误！"
  else .ok ()

def subscribersCheck (channelID : Bytes) (subscribers : List Bytes) : Outcome Unit :=
  if Bytes.isBlank channelID then .error "频道ID不能为空！"
  else if subscribers.length = 0 then .error "订阅者不能为空！"
  else .ok ()

def SubscriberAddReq.check (r : SubscriberAddReq) : Outcome Unit :=
  subscribersCheck r.channelID r.subscribers

def SubscriberRemoveReq.check (r : SubscriberRemoveReq) : Outcome Unit :=
  subscribersCheck r.channelID r.subscribers

def AccessListReq.check (r : AccessListReq) : Outcome Unit :=
  if r.channelID = [] then .error "channel_id不能为空！"
  else if r.channelType = 0 then .error "频道类型不能为0！"
  else if r.uids.length = 0 then .error "uids不能为空！"
  else .ok ()

def AccessListReq.checkSet (r : AccessListReq) : Outcome Unit :=
  if Bytes.isBlank r.channelID then .error "频道ID不能为空！" else .ok ()

def getChannel (channelID : Bytes) (channelType : UInt8) : Exec LiMao (Option Channel) :=
  Exec.state fun s => s.getChannel channelID channelType

def onMessages {α : Type} (x : Exec Store α) : Exec LiMao α := fun s =>
  ((x s.messages).1,{ s with messages := (x s.messages).2 })

def addOrUpdateChannel (info : ChannelInfo) (s : LiMao) : LiMao :=
  { s with records := Assoc.put (info.channelID,info.channelType) info s.records }

def deleteChannelRecord (channelID : Bytes) (channelType : UInt8) (s : LiMao) : LiMao :=
  { s with records := Assoc.erase (channelID,channelType) s.records }

def channelCreateOrUpdate (req : ChannelCreateReq) : Exec LiMao Unit := do
  Exec.lift req.check
  if req.channelType = channelTypePerson then Exec.lift (.error "暂不支持个人频道！")
  else do
    Exec.modify (addOrUpdateChannel ⟨req.channelID,req.channelType,false,req.bind⟩)
    Exec.modify (LiMao.onLists (.removeAll ⟨.subscribers,req.channelID,req.channelType⟩))
    Exec.modify (LiMao.onLists (.add ⟨.subscribers,req.channelID,req.channelType⟩ req.subscribers))
    Exec.modify (LiMao.deleteChannelFromCache req.channelID req.channelType)

def SubscriberAddReq.actType (req : SubscriberAddReq) : UInt8 :=
  if req.channelType = 0 then channelTypeGroup else req.channelType

def SubscriberAddReq.key (req : SubscriberAddReq) : ChannelKey :=
  ⟨.subscribers,req.channelID,req.actType⟩

def SubscriberAddReq.existSubscribers (req : SubscriberAddReq) (channel : Channel) (s : LiMao) :
    List Bytes × LiMao :=
  if req.reset = 1 then
    ([],(s.onLists (.removeAll req.key)).cache (LiMao.route req.channelID req.actType) req.channelID
      req.actType channel.removeAllSubscriber)
  else (s.lists req.key,s)

def SubscriberAddReq.storeNew (req : SubscriberAddReq) (existSubscribers : List Bytes) (s : LiMao) :
    LiMao :=
  let newSubscribers := req.subscribers.filter fun uid => ¬ uid ∈ existSubscribers
  if 0 < newSubscribers.length then s.onLists (.add req.key newSubscribers) else s

def addSubscriber (req : SubscriberAddReq) : Exec LiMao Unit := do
  Exec.lift req.check
  if req.channelType = channelTypePerson then Exec.lift (.error "个人频道不支持添加订阅者！")
  else
    match ← getChannel req.channelID req.actType with
    | none => Exec.lift (.error "频道并不存在！")
    | some channel => do
        let existSubscribers ← Exec.state (req.existSubscribers channel)
        Exec.modify (req.storeNew existSubscribers)

def removeSubscriber (req : SubscriberRemoveReq) : Exec LiMao Unit := do
  Exec.lift req.check
  let channel ← getChannel req.channelID req.channelType
  Exec.modify (LiMao.onLists (.remove ⟨.subscribers,req.channelID,req.channelType⟩ req.subscribers))
  match channel with
  | none => Exec.lift (.panic nilPointer)
  | some channel =>
      Exec.modify fun s => s.cache (LiMao.route req.channelID req.channelType) req.channelID
        req.channelType (req.subscribers.foldl Channel.removeSubscriber channel)

def accessListHandler (check : Outcome Unit) (req : AccessListReq)
    (store : ChannelLists → ChannelLists) (update : Channel → Channel) : Exec LiMao Unit := do
  Exec.lift check
  Exec.modify (LiMao.onLists store)
  match ← getChannel req.channelID req.channelType with
  | none => Exec.lift (.panic nilPointer)
  | some channelObj =>
      Exec.modify fun s => s.cache (LiMao.route req.channelID req.channelType) req.channelID
        req.channelType (update channelObj)

def setList (key : ChannelKey) (uids : List Bytes) (lists : ChannelLists) : ChannelLists :=
  if 0 < uids.length then (lists.removeAll key).add key uids else lists.removeAll key

def blacklistAdd (req : AccessListReq) : Exec LiMao Unit :=
  accessListHandler req.check req (.add ⟨.denylist,req.channelID,req.channelType⟩ req.uids)
    (.addDenylist req.uids)

def blacklistSet (req : AccessListReq) : Exec LiMao Unit :=
  accessListHandler req.checkSet req (setList ⟨.denylist,req.channelID,req.channelType⟩ req.uids)
    (.setDenylist req.uids)

def blacklistRemove (req : AccessListReq) : Exec LiMao Unit :=
  accessListHandler req.check req (.remove ⟨.denylist,req.channelID,req.channelType⟩ req.uids)
    (.removeDenylist req.uids)

def whitelistAdd (req : AccessListReq) : Exec LiMao Unit :=
  accessListHandler req.check req (.add ⟨.allowlist,req.channelID,req.channelType⟩ req.uids)
    (.addAllowlist req.uids)

def whitelistSet (req : AccessListReq) : Exec LiMao Unit :=
  accessListHandler req.checkSet req (setList ⟨.allowlist,req.channelID,req.channelType⟩ req.uids)
    (.setAllowlist req.uids)

def whitelistRemove (req : AccessListReq) : Exec LiMao Unit :=
  accessListHandler req.check req (.remove ⟨.allowlist,req.channelID,req.channelType⟩ req.uids)
    (.removeAllowlist req.uids)

def channelDelete (channelID : Bytes) (channelType : UInt8) : Exec LiMao Unit := do
  Exec.modify (deleteChannelRecord channelID channelType)
  onMessages (Store.deleteMessages channelID channelType)
  Exec.modify (deleteChannelRecord channelID channelType)
  Exec.modify (LiMao.deleteChannelFromCache channelID channelType)

inductive ChannelOp where
  | create (req : ChannelCreateReq)
  | addSubscriber (req : SubscriberAddReq)
  | removeSubscriber (req : SubscriberRemoveReq)
  | delete (channelID : Bytes) (channelType : UInt8)
  | blacklistAdd (req : AccessListReq)
  | blacklistSet (req : AccessListReq)
  | blacklistRemove (req : AccessListReq)
  | whitelistAdd (req : AccessListReq)
  | whitelistSet (req : AccessListReq)
  | whitelistRemove (req : AccessListReq)
  | get (channelID : Bytes) (channelType : UInt8)

def ChannelOp.handle : ChannelOp → Exec LiMao Unit
  | .create req => channelCreateOrUpdate req
  | .addSubscriber req => Lim.addSubscriber req
  | .removeSubscriber req => Lim.removeSubscriber req
  | .delete channelID channelType => channelDelete channelID channelType
  | .blacklistAdd req => Lim.blacklistAdd req
  | .blacklistSet req => Lim.blacklistSet req
  | .blacklistRemove req => Lim.blacklistRemove req
  | .whitelistAdd req => Lim.whitelistAdd req
  | .whitelistSet req => Lim.whitelistSet req
  | .whitelistRemove req => Lim.whitelistRemove req
  | .get channelID channelType => do
      let _ ← getChannel channelID channelType
      pure ()

def apiStep (s : LiMao) (op : ChannelOp) : Outcome LiMao := .ok (op.handle s).2

section Effects

variable {s : LiMao}

theorem setList_of_ne {key key' : ChannelKey} (h : key' ≠ key) (uids : List Bytes)
    (lists : ChannelLists) : setList key uids lists key' = lists key' := by
  rw [setList]
  split
  · rw [ChannelLists.add, Function.update_of_ne h, ChannelLists.removeAll, Function.update_of_ne h]
  · rw [ChannelLists.removeAll, Function.update_of_ne h]

theorem accessListHandler_cases (check : Outcome Unit) (req : AccessListReq)
    (store : ChannelLists → ChannelLists) (update : Channel → Channel) (s : LiMao) :
    (accessListHandler check req store update s).2 = s ∨
      check = .ok () ∧ isTmpChannel req.channelID = true ∧
        (accessListHandler check req store update s).2 = s.onLists store ∨
      check = .ok () ∧ ∃ c s', (s.onLists store).getChannel req.channelID req.channelType = (some c,s') ∧
        LiMao.Held (s.onLists store) (accessListHandler check req store update s).2 req.channelID
          req.channelType (update c) := by
  cases check with
  | error e => exact Or.inl rfl
  | panic e => exact Or.inl rfl
  | ok u =>
    right
    rw [accessListHandler, Exec.bind_of_ok (Exec.lift_apply _), Exec.modify_bind]
    rcases (s.onLists store).getChannel_cases req.channelID req.channelType with
      ⟨ht,hget⟩ | ⟨c,s',hget,hheld⟩
    · left
      have hrun : getChannel req.channelID req.channelType (s.onLists store) =
          (.ok none,s.onLists store) := by rw [getChannel, Exec.state_apply, hget]
      rw [Exec.bind_of_ok hrun]
      exact ⟨rfl,ht,rfl⟩
    · right
      have hrun : getChannel req.channelID req.channelType (s.onLists store) = (.ok (some c),s') := by
        rw [getChannel, Exec.state_apply, hget]
      rw [Exec.bind_of_ok hrun]
      exact ⟨rfl,c,s',hget,hheld.cache (update c)⟩

theorem channelCreateOrUpdate_cases (req : ChannelCreateReq) (s : LiMao) :
    (channelCreateOrUpdate req s).2 = s ∨ req.channelType ≠ channelTypePerson ∧
      (channelCreateOrUpdate req s).2 = LiMao.deleteChannelFromCache req.channelID req.channelType
        (LiMao.onLists (.add ⟨.subscribers,req.channelID,req.channelType⟩ req.subscribers)
          (LiMao.onLists (.removeAll ⟨.subscribers,req.channelID,req.channelType⟩)
            (addOrUpdateChannel ⟨req.channelID,req.channelType,false,req.bind⟩ s))) := by
  rw [channelCreateOrUpdate]
  cases hc : req.check with
  | error e => exact Or.inl rfl
  | panic e => exact Or.inl rfl
  | ok u =>
    rw [Exec.bind_of_ok (Exec.lift_apply _)]
    split
    · exact Or.inl rfl
    · rename_i hty
      exact Or.inr ⟨hty,rfl⟩

def SubscriberAddReq.Accepted (req : SubscriberAddReq) : Prop :=
  req.check = .ok () ∧ req.channelType ≠ channelTypePerson

instance (req : SubscriberAddReq) : Decidable req.Accepted := inferInstanceAs (Decidable (_ ∧ _))

theorem addSubscriber_rejected {req : SubscriberAddReq} (h : ¬ req.Accepted) (s : LiMao) :
    (addSubscriber req s).2 = s := by
  rw [addSubscriber]
  cases hc : req.check with
  | error e => rfl
  | panic e => rfl
  | ok u =>
    rw [Exec.bind_of_ok (Exec.lift_apply _)]
    split
    · rfl
    · rename_i hty
      exact absurd ⟨hc,hty⟩ h

theorem addSubscriber_cases {req : SubscriberAddReq} (h : req.Accepted) (s : LiMao) :
    isTmpChannel req.channelID = true ∧ (addSubscriber req s).2 = s ∨
      ∃ c s', s.getChannel req.channelID req.actType = (some c,s') ∧
        LiMao.Held s s' req.channelID req.actType c ∧
        (addSubscriber req s).2 =
          req.storeNew (req.existSubscribers c s').1 (req.existSubscribers c s').2 := by
  obtain ⟨hc,hty⟩ := h
  rw [addSubscriber, hc, Exec.bind_of_ok (Exec.lift_apply _), if_neg hty]
  rcases s.getChannel_cases req.channelID req.actType with ⟨ht,hget⟩ | ⟨c,s',hget,hheld⟩
  · left
    have hrun : getChannel req.channelID req.actType s = (.ok none,s) := by
      rw [getChannel, Exec.state_apply, hget]
    rw [Exec.bind_of_ok hrun]
    exact ⟨ht,rfl⟩
  · right
    have hrun : getChannel req.channelID req.actType s = (.ok (some c),s') := by
      rw [getChannel, Exec.state_apply, hget]
    rw [Exec.bind_of_ok hrun]
    exact ⟨c,s',hget,hheld,rfl⟩

theorem SubscriberAddReq.actType_ne {req : SubscriberAddReq} (h : req.Accepted) :
    req.actType ≠ channelTypePerson := by
  rw [SubscriberAddReq.actType]
  split
  · decide
  · exact h.2

theorem removeSubscriber_cases (req : SubscriberRemoveReq) (s : LiMao) :
    (removeSubscriber req s).2 = s ∨
      isTmpChannel req.channelID = true ∧ (removeSubscriber req s).2 = s.onLists
        (.remove ⟨.subscribers,req.channelID,req.channelType⟩ req.subscribers) ∨
      req.check = .ok () ∧ ∃ c s', s.getChannel req.channelID req.channelType = (some c,s') ∧
        LiMao.Held s s' req.channelID req.channelType c ∧
        (removeSubscriber req s).2 = (s'.onLists
          (.remove ⟨.subscribers,req.channelID,req.channelType⟩ req.subscribers)).cache
            (LiMao.route req.channelID req.channelType) req.channelID req.channelType
            (req.subscribers.foldl Channel.removeSubscriber c) := by
  rw [removeSubscriber]
  cases hc : req.check with
  | error e => exact Or.inl rfl
  | panic e => exact Or.inl rfl
  | ok u =>
    right
    rw [Exec.bind_of_ok (Exec.lift_apply _)]
    rcases s.getChannel_cases req.channelID req.channelType with ⟨ht,hget⟩ | ⟨c,s',hget,hheld⟩
    · left
      have hrun : getChannel req.channelID req.channelType s = (.ok none,s) := by
        rw [getChannel, Exec.state_apply, hget]
      rw [Exec.bind_of_ok hrun]
      exact ⟨ht,rfl⟩
    · right
      have hrun : getChannel req.channelID req.channelType s = (.ok (some c),s') := by
        rw [getChannel, Exec.state_apply, hget]
      rw [Exec.bind_of_ok hrun]
      exact ⟨rfl,c,s',hget,hheld,rfl⟩

theorem channelDelete_cases (id : Bytes) (ty : UInt8) (s : LiMao) :
    ∃ m, (channelDelete id ty s).2 = { deleteChannelRecord id ty s with messages := m } ∨
      (channelDelete id ty s).2 = LiMao.deleteChannelFromCache id ty (deleteChannelRecord id ty
        { deleteChannelRecord id ty s with messages := m }) := by
  rcases hrun : Store.deleteMessages id ty s.messages with ⟨r,m⟩
  have hon : onMessages (Store.deleteMessages id ty) (deleteChannelRecord id ty s) =
      (r,{ deleteChannelRecord id ty s with messages := m }) := by
    simp only [onMessages, deleteChannelRecord, hrun]
  refine ⟨m,?_⟩
  rw [channelDelete, Exec.modify_bind]
  cases r with
  | ok u =>
    right
    rw [Exec.bind_of_ok hon]
    rfl
  | error e =>
    left
    rw [Exec.bind_of_error hon]
  | panic e =>
    left
    rw [Exec.bind_of_panic hon]

end Effects
end LiMaoIM.Lim

import LiMaoIM.Lim.MessageWindow
import LiMaoIM.Lim.PersonChannel

namespace LiMaoIM.Lim

open Paging
open Db (toNat_toUInt64)

structure SyncMessagesReq where
  loginUID : Bytes
  channelID : Bytes
  channelType : UInt8
  minMessageSeq : UInt32
  maxMessageSeq : UInt32
  limit : Int64
  reverse : Int64

structure SyncMessageResp where
  minMessageSeq : UInt32
  maxMessageSeq : UInt32
  more : Int
  messages : List MessageResp

def SyncMessagesReq.fakeChannelID (req : SyncMessagesReq) : Bytes :=
  if req.channelType = channelTypePerson then getFakeChannelIDWith req.loginUID req.channelID
  else req.channelID

def SyncMessagesReq.more (req : SyncMessagesReq) (messageResps : List MessageResp) : Bool :=
  let more := !decide ((messageResps.length : Int) < req.limit.toInt)
  match messageResps.getLast? with
  | none => more
  | some last =>
      if req.reverse = 1 then
        if req.minMessageSeq ≠ 0 ∧ req.minMessageSeq = last.messageSeq then false else more
      else if req.maxMessageSeq ≠ 0 ∧ req.maxMessageSeq = last.messageSeq then false
      else more

def syncMessages (getMessages : GetMessages) (req : SyncMessagesReq) : Outcome SyncMessageResp := do
  let messages ← getMessagesWithOptions getMessages req.fakeChannelID req.channelType
    req.minMessageSeq req.limit.toUInt64 (req.reverse = 1) req.maxMessageSeq
  let messageResps := messages.map MessageResp.ofMessage
  pure ⟨req.minMessageSeq,req.maxMessageSeq,boolToInt (req.more messageResps),messageResps⟩

def SyncMessageResp.hasMore (resp : SyncMessageResp) : Bool := resp.more ≠ 0

def nextUp (req : SyncMessagesReq) (resp : SyncMessageResp) : SyncMessagesReq :=
  match resp.messages.getLast? with
  | some last => { req with minMessageSeq := last.messageSeq }
  | none => req

def nextDown (req : SyncMessagesReq) (resp : SyncMessageResp) : SyncMessagesReq :=
  match (resp.messages.map MessageResp.messageSeq).min? with
  | some smallest => { req with maxMessageSeq := smallest }
  | none => req

def pullUp (getMessages : GetMessages) : Nat → SyncMessagesReq →
    Outcome (Option (List SyncMessageResp)) :=
  pages (syncMessages getMessages) SyncMessageResp.hasMore nextUp

def pullDown (getMessages : GetMessages) : Nat → SyncMessagesReq →
    Outcome (Option (List SyncMessageResp)) :=
  pages (syncMessages getMessages) SyncMessageResp.hasMore nextDown

theorem hasMore_page {minSeq maxSeq : UInt32} {more : Bool} {resps : List MessageResp} :
    (SyncMessageResp.mk minSeq maxSeq (boolToInt more) resps).hasMore = more := by
  cases more <;> rfl

theorem more_eq {req : SyncMessagesReq} {messages : List Db.Message}
    (h : ∀ m ∈ messages, Within req.minMessageSeq req.maxMessageSeq m) :
    req.more (messages.map MessageResp.ofMessage) =
      decide (req.limit.toInt ≤ messages.length) := by
  have henough : (!decide (((messages.map MessageResp.ofMessage).length : Int) < req.limit.toInt)) =
      decide (req.limit.toInt ≤ messages.length) := by
    rw [List.length_map, ← decide_not, decide_eq_decide, Int.not_lt]
  rw [SyncMessagesReq.more, henough, List.getLast?_map]
  cases hlast : messages.getLast? with
  | none => rfl
  | some last =>
    obtain ⟨hmin,hmax⟩ := h last (List.mem_of_getLast? hlast)
    have hseq : (MessageResp.ofMessage last).messageSeq = last.messageSeq := rfl
    have hup : ¬ (req.minMessageSeq ≠ 0 ∧ req.minMessageSeq = last.messageSeq) :=
      fun heq => UInt32.lt_irrefl _ (heq.2 ▸ hmin)
    have hdown : ¬ (req.maxMessageSeq ≠ 0 ∧ req.maxMessageSeq = last.messageSeq) := by
      rintro ⟨hne,heq⟩
      rw [← heq, or_iff_right hne] at hmax
      exact UInt32.lt_irrefl _ hmax
    simp only [Option.map_some, hseq, if_neg hup, if_neg hdown, ite_self]

section Paged

variable {getMessages : GetMessages} {messages : List Db.Message} {req : SyncMessagesReq}

theorem syncMessages_page {a b : Nat} (hstored : Enumerated seqOf messages)
    (hb : b ≤ messages.length)
    (hread : getMessagesWithOptions getMessages req.fakeChannelID req.channelType
      req.minMessageSeq req.limit.toUInt64 (req.reverse = 1) req.maxMessageSeq =
        .ok (window a b messages))
    (hmin : req.minMessageSeq.toNat ≤ a)
    (hmax : req.maxMessageSeq = 0 ∨ b < req.maxMessageSeq.toNat) :
    ∃ resp, syncMessages getMessages req = .ok resp ∧
      resp.messages = (window a b messages).map MessageResp.ofMessage ∧
      resp.hasMore = decide (req.limit.toInt ≤ (b - a : Nat)) := by
  have hwithin : ∀ m ∈ window a b messages, Within req.minMessageSeq req.maxMessageSeq m := by
    intro m hm
    obtain ⟨hlow,hhigh⟩ := hstored.bounds hm
    rw [seqOf] at hlow hhigh
    exact ⟨UInt32.lt_iff_toNat_lt.mpr (by omega),
      hmax.imp_right fun h => UInt32.lt_iff_toNat_lt.mpr (by omega)⟩
  refine ⟨_,by rw [syncMessages, hread]; rfl,rfl,?_⟩
  rw [hasMore_page, more_eq hwithin, length_window, Nat.min_eq_left hb]

structure PullingUp (getMessages : GetMessages) (messages : List Db.Message)
    (req : SyncMessagesReq) : Prop where
  stores : StoresSequence getMessages req.fakeChannelID req.channelType messages
  reverse : req.reverse = 1
  limit : 1 ≤ req.limit.toInt
  minSeq : req.minMessageSeq.toNat ≤ messages.length
  maxSeq : req.maxMessageSeq = 0 ∨ req.minMessageSeq < req.maxMessageSeq

structure PullingDown (getMessages : GetMessages) (messages : List Db.Message)
    (req : SyncMessagesReq) : Prop where
  stores : StoresSequence getMessages req.fakeChannelID req.channelType messages
  reverse : req.reverse = 0
  limit : 1 ≤ req.limit.toInt
  minSeq : req.minMessageSeq = 0
  maxSeq_pos : 1 ≤ req.maxMessageSeq.toNat
  maxSeq_le : req.maxMessageSeq.toNat ≤ messages.length + 1

theorem toNat_pageLimit {limit : Int64} (h : 1 ≤ limit.toInt) :
    (limit.toUInt64.toNat : Int) = limit.toInt := by
  have hnat := toNat_toUInt64 limit
  have hlt := limit.toInt_lt
  rw [hnat]
  exact Int.emod_eq_of_lt (by omega) (by omega)

theorem nextUp_window (req : SyncMessagesReq) {a b : Nat}
    (hstored : Enumerated seqOf messages) (hab : a < b) (hb : b ≤ messages.length)
    {resp : SyncMessageResp}
    (hresp : resp.messages = (window a b messages).map MessageResp.ofMessage) :
    ∃ s, s.toNat = b ∧ nextUp req resp = { req with minMessageSeq := s } := by
  have hlast : ((window a b messages).map seqOf).getLast? = some b := by
    rw [hstored.key_window, Nat.min_eq_left hb, List.getLast?_range', if_neg (by omega)]
    exact congrArg some (by omega)
  rw [List.getLast?_map, Option.map_eq_some_iff] at hlast
  obtain ⟨m,hm,hseq⟩ := hlast
  refine ⟨m.messageSeq,hseq,?_⟩
  rw [nextUp, hresp, List.getLast?_map, hm]
  rfl

theorem nextDown_window (req : SyncMessagesReq) {a b : Nat}
    (hstored : Enumerated seqOf messages) (hab : a < b) (hb : b ≤ messages.length)
    {resp : SyncMessageResp}
    (hresp : resp.messages = (window a b messages).map MessageResp.ofMessage) :
    ∃ s, s.toNat = a + 1 ∧ nextDown req resp = { req with maxMessageSeq := s } := by
  have hhead : ((window a b messages).map seqOf).head? = some (a + 1) := by
    rw [hstored.key_window, Nat.min_eq_left hb, List.head?_range', if_neg (by omega)]
  have hsorted : ((window a b messages).map Db.Message.messageSeq).Pairwise
      fun s t => min s t = s := by
    have hkeys : ((window a b messages).map seqOf).Pairwise (· < ·) := by
      rw [hstored.key_window]
      exact List.pairwise_lt_range'
    rw [List.pairwise_map] at hkeys ⊢
    exact hkeys.imp fun hlt => if_pos (UInt32.le_of_lt (UInt32.lt_iff_toNat_lt.mpr hlt))
  rw [List.head?_map, Option.map_eq_some_iff] at hhead
  obtain ⟨m,hm,hseq⟩ := hhead
  refine ⟨m.messageSeq,hseq,?_⟩
  have hresps : resp.messages.map MessageResp.messageSeq =
      (window a b messages).map Db.Message.messageSeq := by
    rw [hresp, List.map_map]
    rfl
  rw [nextDown, hresps, List.min?_eq_head? hsorted, List.head?_map, hm]
  rfl

theorem PullingUp.windowTop_bounds (h : PullingUp getMessages messages req) :
    req.minMessageSeq.toNat ≤ windowTop messages.length req.maxMessageSeq.toNat ∧
      (req.maxMessageSeq = 0 ∨
        windowTop messages.length req.maxMessageSeq.toNat < req.maxMessageSeq.toNat) := by
  have hmin := h.minSeq
  rw [windowTop]
  rcases h.maxSeq with hzero | hlt
  · rw [if_pos (toNat_eq_zero.mpr hzero)]
    exact ⟨hmin,Or.inl hzero⟩
  · rw [UInt32.lt_iff_toNat_lt] at hlt
    rw [if_neg (by omega)]
    exact ⟨by omega,Or.inr (by omega)⟩

def upResult (messages : List Db.Message) (req : SyncMessagesReq)
    (resps : List SyncMessageResp) : Prop :=
  resps.flatMap SyncMessageResp.messages =
    (window req.minMessageSeq.toNat (windowTop messages.length req.maxMessageSeq.toNat)
      messages).map MessageResp.ofMessage

def downResult (messages : List Db.Message) (req : SyncMessagesReq)
    (resps : List SyncMessageResp) : Prop :=
  resps.reverse.flatMap SyncMessageResp.messages =
    (window 0 (req.maxMessageSeq.toNat - 1) messages).map MessageResp.ofMessage

theorem PullingUp.turns (h : PullingUp getMessages messages req)
    (hn : messages.length < 2 ^ 32 - 1) :
    ∃ resp, Turns (syncMessages getMessages) SyncMessageResp.hasMore nextUp
      (PullingUp getMessages messages) (fun r => messages.length - r.minMessageSeq.toNat)
      (upResult messages) req resp := by
  have hlimit := toNat_pageLimit h.limit
  have hpos := h.limit
  have hmin := h.minSeq
  have htop := windowTop_le messages.length req.maxMessageSeq.toNat
  obtain ⟨hle,hbelow⟩ := h.windowTop_bounds
  have hcount : 1 ≤ req.limit.toUInt64.toNat := by omega
  have hread := h.stores.up_eq hcount (by omega) h.maxSeq
  obtain ⟨resp,hfetch,hresp,hhas⟩ := syncMessages_page h.stores.numbered (by omega)
    (by rw [h.reverse]; exact hread) (Nat.le_refl _)
    (hbelow.imp_right (Nat.lt_of_le_of_lt (Nat.min_le_left _ _)))
  refine ⟨resp,hfetch,fun hmore => ?_,fun hmore => ?_⟩
  · rw [hhas, decide_eq_true_eq] at hmore
    have hfull : req.minMessageSeq.toNat + req.limit.toUInt64.toNat ≤
        windowTop messages.length req.maxMessageSeq.toNat := by omega
    rw [Nat.min_eq_right hfull] at hresp
    obtain ⟨s,hs,hnext⟩ :=
      nextUp_window req h.stores.numbered (by omega) (hfull.trans htop) hresp
    rw [hnext]
    refine ⟨⟨h.stores,h.reverse,h.limit,?_,?_⟩,?_,fun resps hresps => ?_⟩
    · exact hs ▸ hfull.trans htop
    · exact hbelow.imp_right fun hlt =>
        UInt32.lt_iff_toNat_lt.mpr (hs ▸ Nat.lt_of_le_of_lt hfull hlt)
    · dsimp only
      omega
    · rw [upResult, hs] at hresps
      rw [upResult, List.flatMap_cons, hresps, hresp, ← List.map_append,
        window_append (Nat.le_add_right _ _) hfull]
  · rw [hhas, decide_eq_false_iff_not] at hmore
    rw [upResult, List.flatMap_singleton, hresp, Nat.min_eq_left (by omega)]

theorem PullingDown.read_eq (h : PullingDown getMessages messages req) :
    getMessagesWithOptions getMessages req.fakeChannelID req.channelType req.minMessageSeq
        req.limit.toUInt64 (req.reverse = 1) req.maxMessageSeq =
      .ok (window (req.maxMessageSeq.toNat - req.limit.toUInt64.toNat - 1)
        (min (req.maxMessageSeq.toNat - 1) (req.maxMessageSeq.toNat -
          req.limit.toUInt64.toNat - 1 + req.limit.toUInt64.toNat)) messages) := by
  have hlimit := toNat_pageLimit h.limit
  have hpos := h.limit
  have hlimitLt := req.limit.toInt_lt
  have hmaxLt := req.maxMessageSeq.toNat_lt
  have hmax := h.maxSeq_pos
  have hle := h.maxSeq_le
  have htop : windowTop messages.length req.maxMessageSeq.toNat =
      req.maxMessageSeq.toNat - 1 := by
    rw [windowTop, if_neg (by omega)]
    omega
  have hfirst : firstSeq req.minMessageSeq.toNat req.maxMessageSeq.toNat
      req.limit.toUInt64.toNat = req.maxMessageSeq.toNat - req.limit.toUInt64.toNat := by
    rw [firstSeq, downStart, if_pos (toNat_eq_zero.mpr h.minSeq), if_pos (by omega),
      Nat.mod_eq_of_lt (by omega)]
  have hcount : 1 ≤ req.limit.toUInt64.toNat := by omega
  have hread := h.stores.down_eq req.minMessageSeq req.maxMessageSeq hcount
  rw [hfirst, htop] at hread
  rw [h.reverse]
  exact hread

theorem PullingDown.turns (h : PullingDown getMessages messages req) :
    ∃ resp, Turns (syncMessages getMessages) SyncMessageResp.hasMore nextDown
      (PullingDown getMessages messages) (fun r => r.maxMessageSeq.toNat - 1)
      (downResult messages) req resp := by
  have hlimit := toNat_pageLimit h.limit
  have hpos := h.limit
  have hmax := h.maxSeq_pos
  have hle := h.maxSeq_le
  have hmin : req.minMessageSeq.toNat = 0 := toNat_eq_zero.mpr h.minSeq
  obtain ⟨resp,hfetch,hresp,hhas⟩ := syncMessages_page h.stores.numbered (by omega) h.read_eq
    (by omega) (Or.inr (Nat.lt_of_le_of_lt (Nat.min_le_left _ _) (by omega)))
  refine ⟨resp,hfetch,fun hmore => ?_,fun hmore => ?_⟩
  · rw [hhas, decide_eq_true_eq] at hmore
    have hroom : req.limit.toUInt64.toNat < req.maxMessageSeq.toNat := by omega
    rw [Nat.min_eq_left (by omega)] at hresp
    obtain ⟨s,hs,hnext⟩ :=
      nextDown_window req h.stores.numbered (by omega) (by omega) hresp
    rw [hnext]
    refine ⟨⟨h.stores,h.reverse,h.limit,h.minSeq,?_,?_⟩,?_,fun resps hresps => ?_⟩
    · dsimp only
      omega
    · dsimp only
      omega
    · dsimp only
      omega
    · rw [downResult, hs, Nat.add_sub_cancel] at hresps
      rw [downResult, List.reverse_cons, List.flatMap_append, List.flatMap_singleton, hresps,
        hresp, ← List.map_append, window_append (Nat.zero_le _) (by omega)]
  · rw [hhas, decide_eq_false_iff_not] at hmore
    have hshort : req.maxMessageSeq.toNat - req.limit.toUInt64.toNat = 0 := by omega
    rw [hshort, Nat.min_eq_left (by omega)] at hresp
    rw [downResult, List.reverse_singleton, List.flatMap_singleton, hresp]

end Paged

theorem syncMessages_paging_complete {getMessages : GetMessages} {messages : List Db.Message}
    {req : SyncMessagesReq}
    (hstores : StoresSequence getMessages req.fakeChannelID req.channelType messages)
    (hn : messages.length < 2 ^ 32 - 1) (hlimit : 1 ≤ req.limit.toInt) {calls : Nat}
    (hcalls : messages.length < calls) :
    (req.reverse = 1 → req.minMessageSeq.toNat ≤ messages.length →
      (req.maxMessageSeq = 0 ∨ req.minMessageSeq < req.maxMessageSeq) →
        ∃ resps, pullUp getMessages calls req = .ok (some resps) ∧
          resps.flatMap SyncMessageResp.messages =
            (messages.filter fun m => Within req.minMessageSeq req.maxMessageSeq m).map
              MessageResp.ofMessage) ∧
      (req.reverse = 0 → req.minMessageSeq = 0 → 1 ≤ req.maxMessageSeq.toNat →
        req.maxMessageSeq.toNat ≤ messages.length + 1 →
          ∃ resps, pullDown getMessages calls req = .ok (some resps) ∧
            resps.reverse.flatMap SyncMessageResp.messages =
              (messages.filter fun m => m.messageSeq < req.maxMessageSeq).map
                MessageResp.ofMessage) := by
  constructor
  · intro hreverse hmin hmax
    have hpulling : PullingUp getMessages messages req := ⟨hstores,hreverse,hlimit,hmin,hmax⟩
    rw [hstores.within]
    exact pages_of_turns (fun r hr => hr.turns hn) hpulling
      (Nat.lt_of_le_of_lt (Nat.sub_le _ _) hcalls)
  · intro hreverse hmin hpos hle
    have hpulling : PullingDown getMessages messages req :=
      ⟨hstores,hreverse,hlimit,hmin,hpos,hle⟩
    have hne : req.maxMessageSeq ≠ 0 := fun hzero => by
      rw [hzero, UInt32.toNat_zero] at hpos
      omega
    have hbelow := hstores.filter_below (a := 0) (b := messages.length) hne
    rw [window_all, Nat.min_eq_right (by omega)] at hbelow
    rw [hbelow]
    exact pages_of_turns (fun r hr => hr.turns) hpulling
      (Nat.lt_of_le_of_lt (Nat.sub_le_iff_le_add.mpr hle) hcalls)

def groupReq (reverse : Int64) (minMessageSeq maxMessageSeq : UInt32) : SyncMessagesReq where
  loginUID := []
  channelID := []
  channelType := 2
  minMessageSeq := minMessageSeq
  maxMessageSeq := maxMessageSeq
  limit := 2
  reverse := reverse

theorem syncMessages_paging_complete_three :
    (∃ resps, pullUp (logReader threeMessages) 4 (groupReq 1 0 3) = .ok (some resps) ∧
      resps.flatMap SyncMessageResp.messages =
        (threeMessages.filter fun m => Within 0 3 m).map MessageResp.ofMessage) ∧
      ∃ resps, pullDown (logReader threeMessages) 4 (groupReq 0 0 4) = .ok (some resps) ∧
        resps.reverse.flatMap SyncMessageResp.messages =
          (threeMessages.filter fun m => m.messageSeq < 4).map MessageResp.ofMessage :=
  ⟨(syncMessages_paging_complete (logReader_stores _ _) (by decide) (by decide) (by decide)).1 rfl
      (by decide) (by decide),
    (syncMessages_paging_complete (logReader_stores _ _) (by decide) (by decide) (by decide)).2 rfl
      rfl (by decide) (by decide)⟩

end LiMaoIM.Lim

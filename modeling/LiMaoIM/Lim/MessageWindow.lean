import LiMaoIM.Db.Message
import LiMaoIM.Foundation.Paging

namespace LiMaoIM.Lim

open Paging
open Db (toInt_toInt64 toNat_toUInt64)

abbrev GetMessages := Bytes → UInt8 → UInt32 → UInt64 → Outcome (List Db.Message)

theorem toNat_eq_zero {x : UInt32} : x.toNat = 0 ↔ x = 0 := by
  rw [← UInt32.toNat_inj, UInt32.toNat_zero]

def upOffsetSeq (offsetMessageSeq : UInt32) : Int64 :=
  if offsetMessageSeq.toUInt64.toInt64 + 1 < 0 then 0 else offsetMessageSeq.toUInt64.toInt64 + 1

def actLimit (offsetMessageSeq : UInt32) (limit : UInt64) (endMessageSeq : UInt32) : UInt64 :=
  if endMessageSeq ≠ 0 ∧ offsetMessageSeq < endMessageSeq then
    if limit < (endMessageSeq - offsetMessageSeq).toUInt64 then limit
    else (endMessageSeq - offsetMessageSeq).toUInt64
  else limit

def downOffset (limit : UInt64) (endMessageSeq : UInt32) : Int64 :=
  if endMessageSeq.toUInt64.toInt64 - limit.toInt64 < 0 then 0
  else endMessageSeq.toUInt64.toInt64 - limit.toInt64

def readDown (getMessages : GetMessages) (channelID : Bytes) (channelType : UInt8)
    (offsetMessageSeq : UInt32) (limit : UInt64) (endMessageSeq : UInt32) :
    Outcome (List Db.Message) :=
  if offsetMessageSeq = 0 then
    getMessages channelID channelType (downOffset limit endMessageSeq).toUInt64.toUInt32 limit
  else getMessages channelID channelType (offsetMessageSeq + 1) limit

def getMessagesWithOptions (getMessages : GetMessages) (channelID : Bytes) (channelType : UInt8)
    (offsetMessageSeq : UInt32) (limit : UInt64) (reverse : Bool) (endMessageSeq : UInt32) :
    Outcome (List Db.Message) :=
  if reverse then do
    let messages ← getMessages channelID channelType
      (upOffsetSeq offsetMessageSeq).toUInt64.toUInt32
      (actLimit offsetMessageSeq limit endMessageSeq)
    pure (messages.filter fun message => endMessageSeq = 0 ∨ message.messageSeq < endMessageSeq)
  else do
    let messages ← readDown getMessages channelID channelType offsetMessageSeq limit endMessageSeq
    if endMessageSeq = 0 then pure messages
    else pure (messages.filter fun message => message.messageSeq < endMessageSeq)

def seqOf (m : Db.Message) : Nat := m.messageSeq.toNat

structure StoresSequence (getMessages : GetMessages) (channelID : Bytes) (channelType : UInt8)
    (messages : List Db.Message) : Prop where
  numbered : Enumerated seqOf messages
  returns : ∀ offset limit, 1 ≤ limit.toNat → getMessages channelID channelType offset limit =
    .ok ((messages.filter fun m => offset.toNat ≤ seqOf m).take limit.toNat)

def Within (minSeq maxSeq : UInt32) (m : Db.Message) : Prop :=
  minSeq < m.messageSeq ∧ (maxSeq = 0 ∨ m.messageSeq < maxSeq)

instance (minSeq maxSeq : UInt32) : DecidablePred (Within minSeq maxSeq) := fun m =>
  inferInstanceAs (Decidable (minSeq < m.messageSeq ∧ (maxSeq = 0 ∨ m.messageSeq < maxSeq)))

def newest (k : Nat) (messages : List Db.Message) : List Db.Message :=
  messages.drop (messages.length - k)

def windowTop (n maxSeq : Nat) : Nat := if maxSeq = 0 then n else min n (maxSeq - 1)

theorem toInt_limit (limit : UInt64) :
    limit.toInt64.toInt = if limit.toNat < 2 ^ 63 then (limit.toNat : Int)
      else limit.toNat - 2 ^ 64 := by
  have h : limit.toInt64.toInt = limit.toBitVec.toInt := rfl
  have h' : limit.toBitVec.toNat = limit.toNat := rfl
  rw [h, BitVec.toInt_eq_toNat_cond, h']
  split <;> split <;> omega

theorem toNat_offset {d : Int64} {k : Nat} (h : d.toInt = k) :
    d.toUInt64.toUInt32.toNat = k % 2 ^ 32 := by
  have hd := toNat_toUInt64 d
  rw [UInt64.toNat_toUInt32]
  omega

theorem upOffsetSeq_toNat (minSeq : UInt32) :
    (upOffsetSeq minSeq).toUInt64.toUInt32.toNat = (minSeq.toNat + 1) % 2 ^ 32 := by
  have hsum : (minSeq.toUInt64.toInt64 + 1).toInt = (minSeq.toNat + 1 : Nat) := by
    have hlt := minSeq.toNat_lt
    rw [Int64.toInt_add, toInt_toInt64, Int64.toInt_one]
    exact Int.bmod_eq_of_le (by omega) (by omega)
  apply toNat_offset
  rw [upOffsetSeq, if_neg, hsum]
  rw [Int64.lt_iff_toInt_lt, hsum]
  exact Int.not_lt.mpr (Int.natCast_nonneg _)

def downStart (limit maxSeq : Nat) : Nat :=
  if limit < 2 ^ 63 then maxSeq - limit
  else if limit ≤ maxSeq + 2 ^ 63 then 0
  else maxSeq + 2 ^ 64 - limit

theorem toInt_downOffset (limit : UInt64) (maxSeq : UInt32) :
    (downOffset limit maxSeq).toInt = downStart limit.toNat maxSeq.toNat := by
  have hmax := maxSeq.toNat_lt
  have hlimit := limit.toNat_lt
  have hdiff : (maxSeq.toUInt64.toInt64 - limit.toInt64).toInt =
      if limit.toNat ≤ maxSeq.toNat + 2 ^ 63 then (maxSeq.toNat - limit.toNat : Int)
      else maxSeq.toNat + 2 ^ 64 - limit.toNat := by
    rw [Int64.toInt_sub, toInt_toInt64, toInt_limit, Int.bmod]
    split_ifs <;> omega
  rw [downOffset, downStart]
  rcases Int.lt_or_le (maxSeq.toUInt64.toInt64 - limit.toInt64).toInt 0 with hneg | hnonneg
  · rw [if_pos (Int64.lt_iff_toInt_lt.mpr hneg), Int64.toInt_zero]
    split_ifs at * <;> omega
  · rw [if_neg (fun hlt => Int.not_lt.mpr hnonneg (Int64.lt_iff_toInt_lt.mp hlt)), hdiff]
    split_ifs at * <;> omega

theorem downOffset_toNat (limit : UInt64) (maxSeq : UInt32) :
    (downOffset limit maxSeq).toUInt64.toUInt32.toNat =
      downStart limit.toNat maxSeq.toNat % 2 ^ 32 :=
  toNat_offset (toInt_downOffset limit maxSeq)

def firstSeq (minSeq maxSeq limit : Nat) : Nat :=
  if minSeq = 0 then downStart limit maxSeq % 2 ^ 32 else (minSeq + 1) % 2 ^ 32

def ServesNewest (n minSeq maxSeq limit : Nat) : Prop :=
  n = 0 ∨ maxSeq = 1 ∨
    if minSeq = 0 then
      if limit < 2 ^ 63 then
        if maxSeq = 0 then n ≤ limit else maxSeq ≤ n + 1 ∨ maxSeq ≤ limit + 1
      else limit ≤ maxSeq + 2 ^ 63 ∨ (maxSeq + 2 ^ 64 - limit) % 2 ^ 32 ≤ 1
    else minSeq ≠ 2 ^ 32 - 1 ∧ windowTop n maxSeq ≤ minSeq + limit

theorem ne_zero_of_seq_lt {minSeq maxSeq : UInt32} (h : minSeq < maxSeq) : maxSeq ≠ 0 := by
  rintro rfl
  exact absurd (UInt32.lt_iff_toNat_lt.mp h) (Nat.not_lt_zero _)

theorem actLimit_toNat {minSeq maxSeq : UInt32} (limit : UInt64) (hlt : minSeq < maxSeq) :
    (actLimit minSeq limit maxSeq).toNat = min limit.toNat (maxSeq.toNat - minSeq.toNat) := by
  have hne := ne_zero_of_seq_lt hlt
  have hsub : (maxSeq - minSeq).toUInt64.toNat = maxSeq.toNat - minSeq.toNat :=
    UInt32.toNat_sub_of_le _ _ (UInt32.le_of_lt hlt)
  rw [actLimit, if_pos ⟨hne,hlt⟩]
  split_ifs with hlimit
  · rw [UInt64.lt_iff_toNat_lt, hsub] at hlimit
    omega
  · rw [UInt64.lt_iff_toNat_lt, hsub] at hlimit
    omega

section Stored

variable {getMessages : GetMessages} {channelID : Bytes} {channelType : UInt8}
  {messages : List Db.Message}

theorem StoresSequence.length_lt (h : StoresSequence getMessages channelID channelType messages) :
    messages.length < 2 ^ 32 := by
  by_contra hle
  have hlast : 2 ^ 32 ∈ messages.map seqOf := by
    rw [h.numbered.keys, List.mem_range'_1]
    omega
  obtain ⟨m,-,hm⟩ := List.mem_map.mp hlast
  exact absurd hm (Nat.ne_of_lt m.messageSeq.toNat_lt)

theorem StoresSequence.get_eq (h : StoresSequence getMessages channelID channelType messages)
    (offset : UInt32) {limit : UInt64} (hlimit : 1 ≤ limit.toNat) :
    getMessages channelID channelType offset limit =
      .ok (window (offset.toNat - 1) (min messages.length (offset.toNat - 1 + limit.toNat))
        messages) := by
  have hfilter : (messages.filter fun m => offset.toNat ≤ seqOf m) =
      messages.filter fun m => offset.toNat - 1 < seqOf m ∧ seqOf m ≤ messages.length := by
    apply List.filter_congr
    intro m hm
    have hbounds := h.numbered.bounds_of_mem hm
    rw [decide_eq_decide]
    omega
  rw [h.returns _ _ hlimit, hfilter, h.numbered.filter_eq, take_window]

theorem StoresSequence.within (h : StoresSequence getMessages channelID channelType messages)
    (minSeq maxSeq : UInt32) :
    (messages.filter fun m => Within minSeq maxSeq m) =
      window minSeq.toNat (windowTop messages.length maxSeq.toNat) messages := by
  rw [← h.numbered.filter_eq]
  apply List.filter_congr
  intro m hm
  have hbounds := h.numbered.bounds_of_mem hm
  have hzero : maxSeq = 0 ↔ maxSeq.toNat = 0 := toNat_eq_zero.symm
  rw [decide_eq_decide, Within, windowTop, UInt32.lt_iff_toNat_lt, UInt32.lt_iff_toNat_lt, hzero]
  rw [seqOf] at *
  split <;> omega

theorem StoresSequence.filter_below
    (h : StoresSequence getMessages channelID channelType messages) {a b : Nat}
    {maxSeq : UInt32} (hmax : maxSeq ≠ 0) :
    ((window a b messages).filter fun m => m.messageSeq < maxSeq) =
      window a (min b (maxSeq.toNat - 1)) messages := by
  have hpos : maxSeq.toNat ≠ 0 := fun hzero => hmax (toNat_eq_zero.mp hzero)
  rw [← h.numbered.filter_window]
  apply List.filter_congr
  intro m _
  rw [decide_eq_decide, UInt32.lt_iff_toNat_lt, seqOf]
  omega

theorem StoresSequence.up_eq (h : StoresSequence getMessages channelID channelType messages)
    {minSeq maxSeq : UInt32} {limit : UInt64} (hlimit : 1 ≤ limit.toNat)
    (hmin : minSeq.toNat + 1 < 2 ^ 32) (hmax : maxSeq = 0 ∨ minSeq < maxSeq) :
    getMessagesWithOptions getMessages channelID channelType minSeq limit true maxSeq =
      .ok (window minSeq.toNat
        (min (windowTop messages.length maxSeq.toNat) (minSeq.toNat + limit.toNat)) messages) := by
  rw [getMessagesWithOptions, if_pos rfl, windowTop]
  rcases hmax with rfl | hlt
  · have hall : (fun m : Db.Message => decide ((0 : UInt32) = 0 ∨ m.messageSeq < 0)) =
        fun _ => true := by
      funext m
      exact decide_eq_true (Or.inl rfl)
    have hact : actLimit minSeq limit 0 = limit := if_neg fun h0 => h0.1 rfl
    rw [hact, h.get_eq _ hlimit, upOffsetSeq_toNat, Nat.mod_eq_of_lt hmin, Nat.add_sub_cancel,
      Outcome.ok_bind, hall, List.filter_true]
    rfl
  · have hne := ne_zero_of_seq_lt hlt
    have hbelow : (fun m : Db.Message => decide (maxSeq = 0 ∨ m.messageSeq < maxSeq)) =
        fun m => decide (m.messageSeq < maxSeq) := by
      funext m
      rw [decide_eq_decide, or_iff_right hne]
    have hact := actLimit_toNat limit hlt
    rw [UInt32.lt_iff_toNat_lt] at hlt
    rw [h.get_eq _ (by omega), upOffsetSeq_toNat, Nat.mod_eq_of_lt hmin, Nat.add_sub_cancel,
      Outcome.ok_bind, hbelow, h.filter_below hne, hact,
      if_neg fun hzero => hne (toNat_eq_zero.mp hzero)]
    exact congrArg (fun b => Outcome.ok (window minSeq.toNat b messages)) (by omega)

theorem StoresSequence.readDown_eq (h : StoresSequence getMessages channelID channelType messages)
    (minSeq maxSeq : UInt32) {limit : UInt64} (hlimit : 1 ≤ limit.toNat) :
    readDown getMessages channelID channelType minSeq limit maxSeq =
      .ok (window (firstSeq minSeq.toNat maxSeq.toNat limit.toNat - 1) (min messages.length
        (firstSeq minSeq.toNat maxSeq.toNat limit.toNat - 1 + limit.toNat)) messages) := by
  rw [readDown, firstSeq]
  by_cases hmin : minSeq = 0
  · rw [if_pos hmin, if_pos (toNat_eq_zero.mpr hmin), h.get_eq _ hlimit, downOffset_toNat]
  · rw [if_neg hmin, if_neg fun hzero => hmin (toNat_eq_zero.mp hzero), h.get_eq _ hlimit,
      UInt32.toNat_add, UInt32.toNat_one]

theorem StoresSequence.down_eq (h : StoresSequence getMessages channelID channelType messages)
    (minSeq maxSeq : UInt32) {limit : UInt64} (hlimit : 1 ≤ limit.toNat) :
    getMessagesWithOptions getMessages channelID channelType minSeq limit false maxSeq =
      .ok (window (firstSeq minSeq.toNat maxSeq.toNat limit.toNat - 1)
        (min (windowTop messages.length maxSeq.toNat)
          (firstSeq minSeq.toNat maxSeq.toNat limit.toNat - 1 + limit.toNat)) messages) := by
  rw [getMessagesWithOptions, if_neg Bool.false_ne_true, h.readDown_eq _ _ hlimit,
    Outcome.ok_bind, windowTop]
  by_cases hmax : maxSeq = 0
  · rw [if_pos hmax, if_pos (toNat_eq_zero.mpr hmax)]
    rfl
  · rw [if_neg hmax, if_neg fun hzero => hmax (toNat_eq_zero.mp hzero), h.filter_below hmax,
      Nat.min_right_comm]
    rfl

theorem newest_window {a b k : Nat} (hb : b ≤ messages.length) :
    newest k (window a b messages) = window (max a (b - k)) b messages := by
  rw [newest, length_window, drop_window, Nat.min_eq_left hb]
  congr 1
  omega

theorem windowTop_le (n maxSeq : Nat) : windowTop n maxSeq ≤ n := by
  rw [windowTop]
  split <;> omega

theorem newest_iff {n minSeq maxSeq limit : Nat} (hn : n < 2 ^ 32) (hmin : minSeq < 2 ^ 32)
    (hmax : maxSeq < 2 ^ 32) (hlimit : 1 ≤ limit) (hlt : limit < 2 ^ 64) {start : Nat}
    (hstart : start = firstSeq minSeq maxSeq limit - 1) :
    (min (windowTop n maxSeq) (start + limit) ≤ start ∧
          windowTop n maxSeq ≤ max minSeq (windowTop n maxSeq - limit) ∨
        start = max minSeq (windowTop n maxSeq - limit) ∧
          min (windowTop n maxSeq) (start + limit) = windowTop n maxSeq) ↔
      ServesNewest n minSeq maxSeq limit := by
  rw [firstSeq, downStart] at hstart
  rw [ServesNewest, windowTop]
  split_ifs at hstart ⊢ <;> omega

theorem getMessagesWithOptions_newest_iff
    (h : StoresSequence getMessages channelID channelType messages) (minSeq maxSeq : UInt32)
    (limit : UInt64) (hlimit : 1 ≤ limit.toNat) :
    getMessagesWithOptions getMessages channelID channelType minSeq limit false maxSeq =
        .ok (newest limit.toNat (messages.filter fun m => Within minSeq maxSeq m)) ↔
      ServesNewest messages.length minSeq.toNat maxSeq.toNat limit.toNat := by
  have htop := windowTop_le messages.length maxSeq.toNat
  rw [h.down_eq minSeq maxSeq hlimit, h.within, newest_window htop, Outcome.ok.injEq,
    h.numbered.window_eq_iff ((Nat.min_le_left _ _).trans htop) htop]
  exact newest_iff h.length_lt minSeq.toNat_lt maxSeq.toNat_lt hlimit limit.toNat_lt rfl

end Stored

def logReader (log : List Db.Message) : GetMessages := fun _ _ offset limit =>
  .ok ((log.filter fun m => offset.toNat ≤ seqOf m).take limit.toNat)

def numberedMessage (messageSeq : UInt32) : Db.Message where
  header := 0
  appliIndex := 0
  version := 0
  setting := 0
  messageID := 0
  messageSeq := messageSeq
  clientMsgNo := []
  timestamp := 0
  fromUID := []
  queueUID := []
  channelID := []
  channelType := 2
  payload := []

def threeMessages : List Db.Message := [numberedMessage 1,numberedMessage 2,numberedMessage 3]

theorem logReader_stores (channelID : Bytes) (channelType : UInt8) :
    StoresSequence (logReader threeMessages) channelID channelType threeMessages :=
  ⟨⟨by decide⟩,fun _ _ _ => rfl⟩

theorem getMessagesWithOptions_newest_iff_three :
    getMessagesWithOptions (logReader threeMessages) [] 2 0 2 false 4 =
      .ok (newest 2 (threeMessages.filter fun m => Within 0 4 m)) :=
  (getMessagesWithOptions_newest_iff (logReader_stores [] 2) 0 4 2 (by decide)).mpr
    (by unfold ServesNewest; decide)

theorem getMessagesWithOptions_returns_oldest :
    ¬ ∀ (getMessages : GetMessages) (channelID : Bytes) (channelType : UInt8)
        (messages : List Db.Message), StoresSequence getMessages channelID channelType messages →
      ∀ (minSeq maxSeq : UInt32) (limit : UInt64), 1 ≤ limit.toNat →
        getMessagesWithOptions getMessages channelID channelType minSeq limit false maxSeq =
          .ok (newest limit.toNat (messages.filter fun m => Within minSeq maxSeq m)) := by
  intro h
  have hnewest := h _ [] 2 _ (logReader_stores [] 2) 0 0 1 (by decide)
  revert hnewest
  decide

end LiMaoIM.Lim

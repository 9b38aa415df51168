import LiMaoIM.Foundation.Separator
import LiMaoIM.Lim.SendAuthorisation

namespace LiMaoIM.Lim

open Separator

def byHash (a b : Bytes) : Bytes × Bytes :=
  if Crc32.checksumIEEE b < Crc32.checksumIEEE a then (a,b) else (b,a)

def Tied (a b c d : Bytes) : Prop :=
  c = b ∧ d = a ∧ a ≠ b ∧ Crc32.checksumIEEE a = Crc32.checksumIEEE b

def Recut (a b c d : Bytes) : Prop :=
  Cut atSign (byHash a b) (byHash c d) ∨ Cut atSign (byHash c d) (byHash a b)

structure Identified (a b c d : Bytes) : Prop where
  tie : Tied a b c d → Recut a b c d
  cut : Recut a b c d → ({a,b} : Set Bytes) = {c,d}

section Identity

variable {a b c d : Bytes}

theorem getFakeChannelIDWith_eq (a b : Bytes) :
    getFakeChannelIDWith a b = join atSign (byHash a b) := by
  rw [getFakeChannelIDWith, byHash]
  split
  · rfl
  · rfl

theorem byHash_cases (a b : Bytes) : byHash a b = (a,b) ∨ byHash a b = (b,a) := by
  rw [byHash]
  split
  · exact Or.inl rfl
  · exact Or.inr rfl

theorem byHash_swap (h : Crc32.checksumIEEE a ≠ Crc32.checksumIEEE b) :
    byHash b a = byHash a b := by
  simp only [byHash]
  rcases UInt32.lt_or_lt_of_ne h with hlt | hgt
  · rw [if_pos hlt, if_neg (UInt32.lt_asymm hlt)]
  · rw [if_neg (UInt32.lt_asymm hgt), if_pos hgt]

theorem byHash_tied (h : Crc32.checksumIEEE a = Crc32.checksumIEEE b) : byHash a b = (b,a) := by
  rw [byHash, h, if_neg (UInt32.lt_irrefl _)]

theorem pair_eq_of_byHash_eq (h : byHash a b = byHash c d) : ({a,b} : Set Bytes) = {c,d} := by
  have hset : ∀ x y, ({(byHash x y).1,(byHash x y).2} : Set Bytes) = {x,y} := by
    intro x y
    rcases byHash_cases x y with hxy | hxy
    · rw [hxy]
    · rw [hxy, Set.pair_comm]
  rw [← hset a b, ← hset c d, h]

theorem byHash_eq_of_pair_eq (h : ({a,b} : Set Bytes) = {c,d}) :
    byHash a b = byHash c d ∨ Tied a b c d := by
  rcases Set.pair_eq_pair_iff.mp h with ⟨rfl,rfl⟩ | ⟨rfl,rfl⟩
  · exact Or.inl rfl
  · rcases eq_or_ne (Crc32.checksumIEEE a) (Crc32.checksumIEEE b) with htie | hne
    · rcases eq_or_ne a b with rfl | hab
      · exact Or.inl rfl
      · exact Or.inr ⟨rfl,rfl,hab,htie⟩
    · exact Or.inl (byHash_swap hne).symm

theorem Tied.pair_eq (h : Tied a b c d) : ({a,b} : Set Bytes) = {c,d} := by
  obtain ⟨rfl,rfl,-,-⟩ := h
  exact Set.pair_comm d c

theorem Tied.byHash_ne (h : Tied a b c d) : byHash a b ≠ byHash c d := by
  obtain ⟨rfl,rfl,hne,htie⟩ := h
  rw [byHash_tied htie, byHash_tied htie.symm]
  exact fun heq => hne (Prod.mk.inj heq).2

theorem identified_of_plain (ha : atSign ∉ a) (hb : atSign ∉ b) (hc : atSign ∉ c) (hd : atSign ∉ d)
    (hash : Crc32.checksumIEEE a = Crc32.checksumIEEE b → a = b) : Identified a b c d := by
  have hplain : ∀ {x y : Bytes}, atSign ∉ x → atSign ∉ y → atSign ∉ (byHash x y).1 := by
    intro x y hx hy
    rcases byHash_cases x y with hxy | hxy
    · rwa [hxy]
    · rwa [hxy]
  constructor
  · intro htie
    exact absurd (hash htie.2.2.2) htie.2.2.1
  · rintro (hcut | hcut)
    · exact absurd hcut.mem_fst (hplain hc hd)
    · exact absurd hcut.mem_fst (hplain ha hb)

end Identity

theorem fake_channel_identity_iff (a b c d : Bytes) :
    (getFakeChannelIDWith a b = getFakeChannelIDWith c d ↔ ({a,b} : Set Bytes) = {c,d}) ↔
      Identified a b c d := by
  rw [getFakeChannelIDWith_eq, getFakeChannelIDWith_eq, join_eq_iff]
  constructor
  · intro h
    constructor
    · intro htie
      exact (h.mpr htie.pair_eq).resolve_left htie.byHash_ne
    · exact fun hcut => h.mp (Or.inr hcut)
  · rintro ⟨htie,hcut⟩
    constructor
    · rintro (heq | h)
      · exact pair_eq_of_byHash_eq heq
      · exact hcut h
    · intro hpair
      rcases byHash_eq_of_pair_eq hpair with heq | h
      · exact Or.inl heq
      · exact Or.inr (htie h)

theorem fake_channel_ids_confused :
    ¬ (getFakeChannelIDWith (Bytes.ofString "plumless") (Bytes.ofString "buckeroo") =
        getFakeChannelIDWith (Bytes.ofString "buckeroo") (Bytes.ofString "plumless") ↔
      ({Bytes.ofString "plumless",Bytes.ofString "buckeroo"} : Set Bytes) =
        {Bytes.ofString "buckeroo",Bytes.ofString "plumless"}) ∧
    ¬ (getFakeChannelIDWith (Bytes.ofString "a@b") (Bytes.ofString "c") =
        getFakeChannelIDWith (Bytes.ofString "a") (Bytes.ofString "b@c") ↔
      ({Bytes.ofString "a@b",Bytes.ofString "c"} : Set Bytes) =
        {Bytes.ofString "a",Bytes.ofString "b@c"}) := by
  constructor
  · intro h
    have heq := h.mpr (Set.pair_comm _ _)
    revert heq
    decide +kernel
  · intro h
    have hpair := h.mp (by decide +kernel)
    rcases Set.pair_eq_pair_iff.mp hpair with ⟨ha,-⟩ | ⟨ha,-⟩
    · revert ha
      decide
    · revert ha
      decide

structure MessageResp where
  header : MessageHeader
  setting : UInt8
  messageID : Int64
  messageIDStr : Bytes
  clientMsgNo : Bytes
  messageSeq : UInt32
  fromUID : Bytes
  channelID : Bytes
  channelType : UInt8
  timestamp : Int32
  payload : Bytes

def boolToInt (b : Bool) : Int := if b then 1 else 0

def formatInt (n : Int64) : Bytes :=
  if n < 0 then 0x2D :: Bytes.decimal n.toInt.natAbs else Bytes.decimal n.toInt.natAbs

def skipSender (fromUID realChannelID : Bytes) (channelIDs : List Bytes) : Bytes :=
  channelIDs.foldl (fun real channelID => if fromUID ≠ channelID then channelID else real) realChannelID

def realChannelID (messageD : Db.Message) : Bytes :=
  if messageD.channelType = channelTypePerson ∧ atSign ∈ messageD.channelID then
    skipSender messageD.fromUID messageD.channelID (messageD.channelID.splitOn atSign)
  else messageD.channelID

def MessageResp.ofMessage (messageD : Db.Message) : MessageResp :=
  let fm := Proto.framerFromUint8 messageD.header
  { header := ⟨boolToInt fm.noPersist,boolToInt fm.redDot,boolToInt fm.syncOnce⟩
    setting := messageD.setting
    messageID := messageD.messageID
    messageIDStr := formatInt messageD.messageID
    clientMsgNo := messageD.clientMsgNo
    messageSeq := messageD.messageSeq
    fromUID := messageD.fromUID
    channelID := realChannelID messageD
    channelType := messageD.channelType
    timestamp := messageD.timestamp
    payload := messageD.payload }

def lookUp (s : LiMao) (lookups : List (Bytes × UInt8)) : LiMao :=
  lookups.foldl (fun s l => (s.getChannel l.1 l.2).2) s

structure Decomposes (s : LiMao) (a b : Bytes) : Prop where
  subscribers : ∃ c s', s.getChannel (getFakeChannelIDWith a b) channelTypePerson = (some c,s') ∧
    ∀ uid, uid ∈ c.getAllSubscribers ↔ uid = a ∨ uid = b
  channelID : ∀ m : Db.Message, m.channelID = getFakeChannelIDWith a b →
    m.channelType = channelTypePerson → m.fromUID = a → (MessageResp.ofMessage m).channelID = b

structure Separable (a b : Bytes) : Prop where
  sender : atSign ∉ a
  recipient : atSign ∉ b
  distinct : a ≠ b
  last : (byHash a b).2 ≠ Bytes.ofString "tmp"

structure Untemporary (s : LiMao) : Prop where
  loaded : Loaded s
  tmp : ∀ id ty, s.cached .tmpChannelMap id ty = none

section Decomposition

variable {s : LiMao} {a b : Bytes}

theorem Untemporary.getChannel (h : Untemporary s) (id : Bytes) (ty : UInt8) :
    Untemporary (s.getChannel id ty).2 := by
  rcases s.getChannel_cases id ty with ⟨-,hget⟩ | ⟨c,s',hget,hheld⟩
  · rwa [hget]
  · have hc : (s.getChannel id ty).1 = some c := congrArg Prod.fst hget
    have hnotmp : isTmpChannel id = false := by
      cases ht : isTmpChannel id with
      | false => rfl
      | true =>
        rw [LiMao.getChannel_tmp ht, h.tmp] at hc
        cases hc
    have hroute : LiMao.route id ty ≠ .tmpChannelMap := by
      rw [LiMao.route, hnotmp, if_neg (by decide)]
      split
      · decide
      · decide
    have htmp : ∀ id' ty', s'.cached .tmpChannelMap id' ty' = none := by
      intro id' ty'
      rw [hheld.other _ _ _ fun heq => hroute (Prod.mk.inj heq).1.symm]
      exact h.tmp id' ty'
    rw [hget]
    refine ⟨⟨?_,fun id' ty' c' hc' => ?_⟩,htmp⟩
    · intro id' ty' c' ht' hc'
      rw [LiMao.fresh_congr hheld.records hheld.lists]
      rcases eq_or_ne (LiMao.route id' ty',id',ty') (LiMao.route id ty,id,ty) with heq | hne
      · obtain ⟨-,hpair⟩ := Prod.mk.inj heq
        obtain ⟨rfl,rfl⟩ := Prod.mk.inj hpair
        obtain rfl : c = c' := Option.some.inj (hheld.here.symm.trans hc')
        exact h.loaded.value hnotmp hc
      · rw [hheld.other _ _ _ hne] at hc'
        exact h.loaded.stored id' ty' c' ht' hc'
    · rw [htmp] at hc'
      cases hc'

theorem Untemporary.lookUp (h : Untemporary s) (lookups : List (Bytes × UInt8)) :
    Untemporary (lookUp s lookups) := by
  induction lookups generalizing s with
  | nil => exact h
  | cons l lookups ih => exact ih (h.getChannel l.1 l.2)

theorem untemporary_start (opts : ChannelOptions) (systemUIDs : List Bytes)
    (records : List ((Bytes × UInt8) × ChannelInfo)) (lists : ChannelLists) (messages : Db.Store) :
    Untemporary (.start opts systemUIDs records lists messages) := by
  refine ⟨⟨fun id ty c ht hc => ?_,fun id ty c hc => ?_⟩,fun id ty => rfl⟩
  · cases hc
  · cases hc

theorem mem_foldl_addSubscriber (uids : List Bytes) (c : Channel) (uid : Bytes) :
    uid ∈ (uids.foldl Channel.addSubscriber c).subscriberMap ↔
      uid ∈ c.subscriberMap ∨ uid ∈ uids := by
  induction uids generalizing c with
  | nil => simp
  | cons u uids ih =>
    rw [List.foldl_cons, ih, Channel.addSubscriber, List.mem_insert_iff, List.mem_cons]
    tauto

theorem splitOn_fakeChannelID (a b : Bytes) : (getFakeChannelIDWith a b).splitOn atSign =
    (byHash a b).1.splitOn atSign ++ (byHash a b).2.splitOn atSign := by
  rw [getFakeChannelIDWith_eq, splitOn_join]

theorem mem_newPersonChannel (s : LiMao) (a b uid : Bytes) :
    uid ∈ (s.newPersonChannel (getFakeChannelIDWith a b) channelTypePerson).getAllSubscribers ↔
      uid ∈ (getFakeChannelIDWith a b).splitOn atSign := by
  have hfake : isFakeChannel (getFakeChannelIDWith a b) = true := by
    rw [getFakeChannelIDWith_eq]
    simp [isFakeChannel, join]
  have hload : s.loadData (newChannel (newChannelInfo (getFakeChannelIDWith a b) channelTypePerson)) =
      newChannel (newChannelInfo (getFakeChannelIDWith a b) channelTypePerson) := by
    rw [LiMao.loadData, if_pos ⟨rfl,hfake⟩]
  rw [LiMao.newPersonChannel, if_pos hfake, hload, Channel.getAllSubscribers,
    mem_foldl_addSubscriber]
  simp [newChannel]

theorem isTmpChannel_fakeChannelID (hb : atSign ∉ (byHash a b).2) :
    isTmpChannel (getFakeChannelIDWith a b) = true ↔ (byHash a b).2 = Bytes.ofString "tmp" := by
  have htmp : tmpChannelSuffix = atSign :: Bytes.ofString "tmp" := by decide
  rw [getFakeChannelIDWith_eq, isTmpChannel, decide_eq_true_eq, htmp]
  constructor
  · rintro ⟨front,hfront⟩
    exact (Bytes.last_separator (by decide) hb hfront).2.symm
  · intro heq
    exact ⟨(byHash a b).1,by rw [join, heq]⟩

theorem plain_byHash : atSign ∉ (byHash a b).1 ∧ atSign ∉ (byHash a b).2 ↔ atSign ∉ a ∧ atSign ∉ b := by
  rcases byHash_cases a b with h | h
  · rw [h]
  · rw [h]
    exact and_comm

theorem mem_byHash (uid : Bytes) : uid = (byHash a b).1 ∨ uid = (byHash a b).2 ↔ uid = a ∨ uid = b := by
  rcases byHash_cases a b with h | h
  · rw [h]
  · rw [h]
    exact or_comm

theorem skipSender_byHash (hab : a ≠ b) (id : Bytes) :
    skipSender a id [(byHash a b).1,(byHash a b).2] = b := by
  rcases byHash_cases a b with h | h
  · rw [h]
    simp [skipSender, hab]
  · rw [h]
    simp [skipSender, hab]

theorem Separable.splitOn (h : Separable a b) :
    (getFakeChannelIDWith a b).splitOn atSign = [(byHash a b).1,(byHash a b).2] := by
  obtain ⟨hhigh,hlow⟩ := plain_byHash.mpr ⟨h.sender,h.recipient⟩
  rw [splitOn_fakeChannelID, List.splitOn_eq_singleton hhigh, List.splitOn_eq_singleton hlow]
  rfl

theorem realChannelID_person {m : Db.Message} (hid : m.channelID = getFakeChannelIDWith a b)
    (hty : m.channelType = channelTypePerson) : realChannelID m =
      skipSender m.fromUID m.channelID ((getFakeChannelIDWith a b).splitOn atSign) := by
  have hmem : atSign ∈ m.channelID := by
    rw [hid, getFakeChannelIDWith_eq]
    simp [join]
  rw [realChannelID, if_pos ⟨hty,hmem⟩, hid]

theorem Separable.decomposes (h : Separable a b) (hs : Untemporary s) : Decomposes s a b := by
  obtain ⟨-,hlow⟩ := plain_byHash.mpr ⟨h.sender,h.recipient⟩
  have ht : isTmpChannel (getFakeChannelIDWith a b) = false := by
    rw [← Bool.not_eq_true, isTmpChannel_fakeChannelID hlow]
    exact h.last
  constructor
  · obtain ⟨s',hget,-⟩ := LiMao.getChannel_some ht s channelTypePerson
    have hvalue := hs.loaded.value ht (congrArg Prod.fst hget)
    refine ⟨_,s',hget,fun uid => ?_⟩
    rw [hvalue, LiMao.fresh, if_pos rfl, mem_newPersonChannel, h.splitOn, ← mem_byHash]
    simp
  · intro m hid hty hfrom
    rw [MessageResp.ofMessage]
    simp only
    rw [realChannelID_person hid hty, hfrom, h.splitOn]
    exact skipSender_byHash h.distinct _

theorem Decomposes.separable (h : Decomposes s a b) (hs : Untemporary s) : Separable a b := by
  obtain ⟨⟨c,s',hget,hmem⟩,hreal⟩ := h
  have hc : (s.getChannel (getFakeChannelIDWith a b) channelTypePerson).1 = some c :=
    congrArg Prod.fst hget
  have ht : isTmpChannel (getFakeChannelIDWith a b) = false := by
    cases ht : isTmpChannel (getFakeChannelIDWith a b) with
    | false => rfl
    | true =>
      rw [LiMao.getChannel_tmp ht, hs.tmp] at hc
      cases hc
  have hparts : ∀ uid, uid = a ∨ uid = b → atSign ∉ uid := by
    intro uid huid
    have hvalue := hs.loaded.value ht hc
    rw [← hmem, hvalue, LiMao.fresh, if_pos rfl, mem_newPersonChannel] at huid
    exact not_mem_of_mem_splitOn huid
  have ha := hparts a (Or.inl rfl)
  have hb := hparts b (Or.inr rfl)
  obtain ⟨-,hlow⟩ := plain_byHash.mpr ⟨ha,hb⟩
  refine ⟨ha,hb,?_,?_⟩
  · rintro rfl
    have hself := hreal ⟨0,0,0,0,0,0,[],0,a,[],getFakeChannelIDWith a a,channelTypePerson,[]⟩ rfl rfl rfl
    have hsplit : (getFakeChannelIDWith a a).splitOn atSign = [a,a] := by
      rw [splitOn_fakeChannelID]
      rcases byHash_cases a a with hh | hh
      · rw [hh, List.splitOn_eq_singleton ha]
        rfl
      · rw [hh, List.splitOn_eq_singleton ha]
        rfl
    rw [MessageResp.ofMessage] at hself
    simp only at hself
    rw [realChannelID_person rfl rfl, hsplit] at hself
    simp only [skipSender, List.foldl_cons, List.foldl_nil, ne_eq, not_true_eq_false, if_false] at hself
    have hat : atSign ∈ getFakeChannelIDWith a a := by
      rw [getFakeChannelIDWith_eq]
      simp [join]
    rw [hself] at hat
    exact ha hat
  · intro hlast
    rw [(isTmpChannel_fakeChannelID hlow).mpr hlast] at ht
    cases ht

end Decomposition

theorem fake_channel_decomposes_iff (opts : ChannelOptions) (systemUIDs : List Bytes)
    (records : List ((Bytes × UInt8) × ChannelInfo)) (lists : ChannelLists) (messages : Db.Store)
    (lookups : List (Bytes × UInt8)) (a b : Bytes) :
    Decomposes (lookUp (.start opts systemUIDs records lists messages) lookups) a b ↔
      Separable a b := by
  have hs := (untemporary_start opts systemUIDs records lists messages).lookUp lookups
  exact ⟨fun h => h.separable hs,fun h => h.decomposes hs⟩

theorem self_and_tmp_not_decomposed :
    ¬ Decomposes emptyServer (Bytes.ofString "u1") (Bytes.ofString "u1") ∧
      ¬ Decomposes emptyServer (Bytes.ofString "a") (Bytes.ofString "tmp") ∧
      ¬ Decomposes emptyServer (Bytes.ofString "a@b") (Bytes.ofString "c") := by
  have hs : Untemporary emptyServer := untemporary_start _ _ _ _ _
  refine ⟨fun h => ?_,fun h => ?_,fun h => ?_⟩
  · exact (h.separable hs).distinct rfl
  · have hlast := (h.separable hs).last
    revert hlast
    decide +kernel
  · have hat := (h.separable hs).sender
    revert hat
    decide

end LiMaoIM.Lim

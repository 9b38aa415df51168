import LiMaoIM.Proto.Codec

namespace LiMaoIM.Lim

open Outcome Proto ByteReader Decoder Encoder

inductive CMDType where
  | unknown
  | appendMessage
  | addOrUpdateChannel
  | updateUserToken
  | addSubscribers
  | removeAllSubscriber
  | removeSubscribers
  | deleteChannel
  | deleteChannelAndClearMessages
  | appendMessageOfUser
  | appendMessageOfNotifyQueue
  | removeMessagesOfNotifyQueue
  | addOrUpdateConversations
  | addDenylist
  | removeDenylist
  | removeAllDenylist
  | addAllowlist
  | removeAllowlist
  | removeAllAllowlist
  | addNodeInFlightData
  | clearNodeInFlightData
  | updateMessageOfUserCursorIfNeed
deriving DecidableEq, Repr

def CMDType.int32 (t : CMDType) : Int32 := Int32.ofNat t.ctorIdx

structure CMD where
  type : Int32
  version : UInt8
  param : Bytes
deriving DecidableEq, Repr

def newCMD (typ : CMDType) : CMD := ⟨typ.int32,0,[]⟩

def CMD.encode (c : CMD) : Bytes := writeInt32 c.type ++ (writeUint8 c.version ++ c.param)

def readCMD : ByteReader CMD := do
  let cmdType ← int32
  let version ← uint8
  let param ← binaryAll
  pure ⟨cmdType,version,param⟩

def unmarshalCMD (data : Bytes) : Outcome CMD := do
  let (cmd,_) ← readCMD data
  pure cmd

structure JSONList (α : Type) where
  toJSON : List α → Bytes
  readJSONByByte : Bytes → Outcome (List α)

structure JSONList.Lawful {α : Type} (j : JSONList α) : Prop where
  inverse : ∀ xs, j.readJSONByByte (j.toJSON xs) = .ok xs
  nonempty : ∀ xs, j.toJSON xs ≠ []
  brackets : (j.toJSON []).length ≤ 4
  truncated : ∀ xs n, n < (j.toJSON xs).length → j.readJSONByByte ((j.toJSON xs).take n) ≠ .ok xs

section Commands

variable {α γ : Type} (strings : JSONList α) (conversations : JSONList γ)

def readList (j : JSONList α) : ByteReader (List α) := do
  let data ← binary
  if 0 < data.length then lift (j.readJSONByByte data) else pure []

def readUIDs : ByteReader (Bytes × UInt8 × List α) := do
  let channelID ← string
  let channelType ← uint8
  let uids ← readList strings
  pure (channelID,channelType,uids)

def readConversations : ByteReader (Bytes × List γ) := do
  let uid ← string
  let values ← readList conversations
  pure (uid,values)

def encodeUIDs (typ : CMDType) (c : CMD) (channelID : Bytes) (channelType : UInt8)
    (uids : List α) : CMD :=
  { c with
    type := typ.int32
    param := writeString channelID ++ (writeUint8 channelType ++
      if 0 < uids.length then writeString (strings.toJSON uids) else []) }

def decodeUIDs (c : CMD) : Outcome (Bytes × UInt8 × List α) := do
  let (args,_) ← readUIDs strings c.param
  pure args

def encodeCMDAddSubscribers := encodeUIDs strings .addSubscribers

def decodeCMDAddSubscribers := decodeUIDs strings

def encodeCMDRemoveSubscribers := encodeUIDs strings .removeSubscribers

def decodeRemoveSubscribers := decodeUIDs strings

def encodeCMDAddDenylist := encodeUIDs strings .addDenylist

def decodeCMDAddDenylist := decodeUIDs strings

def encodeCMDRemoveDenylist := encodeUIDs strings .removeDenylist

def decodeCMDRemoveDenylist := decodeUIDs strings

def encodeCMDAddAllowlist := encodeUIDs strings .addAllowlist

def decodeCMDAddAllowlist := decodeUIDs strings

def encodeCMDRemoveAllowlist := encodeUIDs strings .removeAllowlist

def decodeCMDRemoveAllowlist := decodeUIDs strings

def encodeCMDAddOrUpdateConversations (c : CMD) (uid : Bytes) (values : List γ) : CMD :=
  { c with
    type := CMDType.addOrUpdateConversations.int32
    param := writeString uid ++ writeString (conversations.toJSON values) }

def decodeCMDAddOrUpdateConversations (c : CMD) : Outcome (Bytes × List γ) := do
  let (args,_) ← readConversations conversations c.param
  pure args

inductive UIDCommand where
  | addSubscribers
  | removeSubscribers
  | addDenylist
  | removeDenylist
  | addAllowlist
  | removeAllowlist
deriving DecidableEq, Repr

def UIDCommand.encode : UIDCommand → CMD → Bytes → UInt8 → List α → CMD
  | .addSubscribers => encodeCMDAddSubscribers strings
  | .removeSubscribers => encodeCMDRemoveSubscribers strings
  | .addDenylist => encodeCMDAddDenylist strings
  | .removeDenylist => encodeCMDRemoveDenylist strings
  | .addAllowlist => encodeCMDAddAllowlist strings
  | .removeAllowlist => encodeCMDRemoveAllowlist strings

def UIDCommand.decode : UIDCommand → CMD → Outcome (Bytes × UInt8 × List α)
  | .addSubscribers => decodeCMDAddSubscribers strings
  | .removeSubscribers => decodeRemoveSubscribers strings
  | .addDenylist => decodeCMDAddDenylist strings
  | .removeDenylist => decodeCMDRemoveDenylist strings
  | .addAllowlist => decodeCMDAddAllowlist strings
  | .removeAllowlist => decodeCMDRemoveAllowlist strings

end Commands

def RoundTrips {β : Type} (encoded : CMD) (decode : CMD → Outcome β) (args : β) : Prop :=
  ∃ c, unmarshalCMD encoded.encode = .ok c ∧ decode c = .ok args

theorem unmarshalCMD_encode (c : CMD) : unmarshalCMD c.encode = .ok c := by
  have hread : Finishes readCMD c.encode c :=
    Finishes.bind (reads_int32 c.type) (Finishes.bind (reads_uint8 c.version)
      ((finishes_binaryAll c.param).map fun param => (⟨c.type,c.version,param⟩ : CMD)))
  rw [unmarshalCMD, hread]
  rfl

theorem roundTrips_iff {β : Type} {encoded : CMD} {decode : CMD → Outcome β} {args : β} :
    RoundTrips encoded decode args ↔ decode encoded = .ok args := by
  constructor
  · rintro ⟨c,hc,hd⟩
    rw [unmarshalCMD_encode] at hc
    obtain rfl := Outcome.ok.inj hc
    exact hd
  · exact fun hd => ⟨encoded,unmarshalCMD_encode encoded,hd⟩

section Lists

variable {α γ : Type} {j : JSONList α}

def ReadsBack (j : JSONList α) (bs : Bytes) (xs : List α) : Prop :=
  ∃ rest, readList j bs = .ok (xs,rest)

theorem readList_of_binary {bs data rest : Bytes} (h : binary bs = .ok (data,rest)) (xs : List α) :
    ReadsBack j bs xs ↔ if 0 < data.length then j.readJSONByByte data = .ok xs else xs = [] := by
  have hread : readList j bs = (if 0 < data.length then lift (j.readJSONByByte data)
      else pure []) rest := by
    rw [readList, bind_apply, h]
    rfl
  rw [ReadsBack, hread]
  split
  · cases hj : j.readJSONByByte data with
    | ok ys => simp [lift, eq_comm]
    | error e => simp [lift]
    | panic e => simp [lift]
  · simp [eq_comm]

theorem not_readsBack_nil (xs : List α) : ¬ ReadsBack j [] xs := by
  rintro ⟨rest,h⟩
  cases h

theorem readsBack_writeString_iff (hj : j.Lawful) (xs : List α) :
    ReadsBack j (writeString (j.toJSON xs)) xs ↔ (j.toJSON xs).length ≤ 32767 := by
  have hpos := List.length_pos_iff.mpr (hj.nonempty xs)
  rcases Nat.lt_or_ge ((j.toJSON xs).length % 2 ^ 16) (2 ^ 15) with hfits | hlong
  · rw [writeString, readList_of_binary (binary_writeBinary_wrapped hfits)]
    by_cases hle : (j.toJSON xs).length ≤ 32767
    · have hmod : (j.toJSON xs).length % 2 ^ 16 = (j.toJSON xs).length := by omega
      rw [hmod, List.take_length, if_pos hpos, hj.inverse]
      simp [hle]
    · have hcut : (j.toJSON xs).length % 2 ^ 16 < (j.toJSON xs).length := by omega
      simp only [hle, iff_false]
      split
      · exact hj.truncated xs _ hcut
      · rintro rfl
        have hsmall := hj.brackets
        omega
  · have hgt : ¬ (j.toJSON xs).length ≤ 32767 := by omega
    simp only [hgt, iff_false]
    rintro ⟨rest,hread⟩
    obtain ⟨e,he⟩ := binary_writeBinary_long hlong
    rw [readList, bind_apply, writeString, he] at hread
    cases hread

variable {strings : JSONList α} {conversations : JSONList γ}

theorem decodeUIDs_iff {typ : CMDType} {c : CMD} {channelID : Bytes} (channelType : UInt8)
    (uids : List α) (h : channelID.length ≤ 32767) :
    decodeUIDs strings (encodeUIDs strings typ c channelID channelType uids) =
        .ok (channelID,channelType,uids) ↔
      ReadsBack strings
        (if 0 < uids.length then writeString (strings.toJSON uids) else []) uids := by
  rw [decodeUIDs, encodeUIDs, readUIDs, bind_apply, reads_string channelID h, Outcome.ok_bind,
    bind_apply, reads_uint8, Outcome.ok_bind, bind_apply, ReadsBack]
  generalize readList strings
    (if 0 < uids.length then writeString (strings.toJSON uids) else []) = r
  rcases r with ⟨ys,rest⟩ | e | e
  · simp
  · simp
  · simp

theorem decodeConversations_iff {c : CMD} {uid : Bytes} (values : List γ)
    (h : uid.length ≤ 32767) :
    decodeCMDAddOrUpdateConversations conversations
        (encodeCMDAddOrUpdateConversations conversations c uid values) = .ok (uid,values) ↔
      ReadsBack conversations (writeString (conversations.toJSON values)) values := by
  rw [decodeCMDAddOrUpdateConversations, encodeCMDAddOrUpdateConversations, readConversations,
    bind_apply, reads_string uid h, Outcome.ok_bind, bind_apply, ReadsBack]
  generalize readList conversations (writeString (conversations.toJSON values)) = r
  rcases r with ⟨ys,rest⟩ | e | e
  · simp
  · simp
  · simp

theorem uidCommand_iff (hs : strings.Lawful) (kind : UIDCommand) (c : CMD) {channelID : Bytes}
    (channelType : UInt8) (uids : List α) (h : channelID.length ≤ 32767) :
    RoundTrips (kind.encode strings c channelID channelType uids) (kind.decode strings)
        (channelID,channelType,uids) ↔
      uids ≠ [] ∧ (strings.toJSON uids).length ≤ 32767 := by
  have hfamily : ∀ typ, RoundTrips (encodeUIDs strings typ c channelID channelType uids)
      (decodeUIDs strings) (channelID,channelType,uids) ↔
        uids ≠ [] ∧ (strings.toJSON uids).length ≤ 32767 := by
    intro typ
    rw [roundTrips_iff, decodeUIDs_iff channelType uids h]
    cases uids with
    | nil => simpa using not_readsBack_nil []
    | cons u us =>
      rw [if_pos (by simp), readsBack_writeString_iff hs]
      simp
  cases kind with
  | addSubscribers => exact hfamily .addSubscribers
  | removeSubscribers => exact hfamily .removeSubscribers
  | addDenylist => exact hfamily .addDenylist
  | removeDenylist => exact hfamily .removeDenylist
  | addAllowlist => exact hfamily .addAllowlist
  | removeAllowlist => exact hfamily .removeAllowlist

theorem list_commands_round_trip_iff (hs : strings.Lawful) (hc : conversations.Lawful) (c : CMD) :
    (∀ (kind : UIDCommand) (channelID : Bytes) (channelType : UInt8) (uids : List α),
      channelID.length ≤ 32767 →
        (RoundTrips (kind.encode strings c channelID channelType uids) (kind.decode strings)
            (channelID,channelType,uids) ↔
          uids ≠ [] ∧ (strings.toJSON uids).length ≤ 32767)) ∧
    ∀ (uid : Bytes) (values : List γ), uid.length ≤ 32767 →
      (RoundTrips (encodeCMDAddOrUpdateConversations conversations c uid values)
          (decodeCMDAddOrUpdateConversations conversations) (uid,values) ↔
        (conversations.toJSON values).length ≤ 32767) := by
  constructor
  · intro kind channelID channelType uids h
    exact uidCommand_iff hs kind c channelType uids h
  · intro uid values h
    rw [roundTrips_iff, decodeConversations_iff values h, readsBack_writeString_iff hc]

end Lists

def letterJSON (c : Fin 26) : Bytes := [0x22,UInt8.ofNat (97 + c),0x22]

def lettersJSON : List (Fin 26) → Bytes
  | [] => [0x5D]
  | [c] => letterJSON c ++ [0x5D]
  | c :: cs => letterJSON c ++ 0x2C :: lettersJSON cs

def letterItems : Bytes → List (Fin 26)
  | 0x22 :: b :: 0x22 :: _ :: rest => Fin.ofNat 26 (b.toNat - 97) :: letterItems rest
  | _ => []

def letterLists : JSONList (Fin 26) where
  toJSON cs := 0x5B :: lettersJSON cs
  readJSONByByte data :=
    if 0x5B :: lettersJSON (letterItems data.tail) = data then .ok (letterItems data.tail)
    else .error "unexpected EOF"

theorem letterItems_cons (c : Fin 26) (b : UInt8) (rest : Bytes) :
    letterItems (letterJSON c ++ b :: rest) = c :: letterItems rest := by
  have hval : (UInt8.ofNat (97 + c.val)).toNat - 97 = c.val := by
    rw [UInt8.toNat_ofNat', Nat.mod_eq_of_lt (by omega)]
    omega
  show Fin.ofNat 26 ((UInt8.ofNat (97 + c.val)).toNat - 97) :: letterItems rest = _
  rw [hval, Fin.ofNat_val_eq_self]

theorem letterItems_lettersJSON (cs : List (Fin 26)) : letterItems (lettersJSON cs) = cs := by
  induction cs with
  | nil => rfl
  | cons c cs ih =>
    cases cs with
    | nil => exact letterItems_cons c 0x5D []
    | cons d ds =>
      rw [lettersJSON, letterItems_cons, ih]
      exact fun h => List.cons_ne_nil _ _ h

theorem lawful_letterLists : letterLists.Lawful := by
  refine ⟨?_,?_,by decide,?_⟩
  · intro cs
    simp [letterLists, letterItems_lettersJSON]
  · exact fun cs => List.cons_ne_nil _ _
  · intro cs n hn hread
    simp only [letterLists] at hread
    split at hread
    · rename_i heq
      rw [Outcome.ok.inj hread] at heq
      have hlen := congrArg List.length heq
      rw [List.length_take] at hlen
      have hn' : n < (0x5B :: lettersJSON cs).length := hn
      omega
    · cases hread

theorem subscribers_added_round_trip :
    RoundTrips (encodeCMDAddSubscribers letterLists (newCMD .addSubscribers) [0x67] 2 [0,1])
      (decodeCMDAddSubscribers letterLists) ([0x67],2,[0,1]) :=
  ((list_commands_round_trip_iff lawful_letterLists lawful_letterLists (newCMD .addSubscribers)).1
    .addSubscribers [0x67] 2 [0,1] (by decide)).mpr (by decide)

theorem no_subscribers_not_decoded :
    ¬ RoundTrips (encodeCMDAddSubscribers letterLists (newCMD .addSubscribers) [0x67] 2 [])
      (decodeCMDAddSubscribers letterLists) ([0x67],2,[]) := by
  rw [roundTrips_iff]
  decide

end LiMaoIM.Lim

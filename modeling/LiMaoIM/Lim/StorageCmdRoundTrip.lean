import LiMaoIM.Db.MessageCodec
import LiMaoIM.Foundation.Assoc
import LiMaoIM.Foundation.Decimal
import LiMaoIM.Lim.Channel
import LiMaoIM.Lim.NodeInFlightPqueue
import LiMaoIM.Lim.StorageCmd
import LiMaoIM.Proto.Packets

namespace LiMaoIM.Lim

open Outcome Proto ByteReader Decoder Encoder Db

inductive JSONValue where
  | null
  | bool (b : Bool)
  | string (s : Bytes)
  | other (raw : Bytes)
deriving DecidableEq, Repr

abbrev JSONMap : Type := List (Bytes × JSONValue)

structure MapJSON where
  toJSON : JSONMap → Bytes
  jsonToMap : Bytes → Outcome JSONMap

structure MapJSON.Inverse (j : MapJSON) (mp : JSONMap) : Prop where
  inverse : j.jsonToMap (j.toJSON mp) = .ok mp
  nonempty : j.toJSON mp ≠ []

def interfaceConversion : String := "interface conversion: interface {} has another dynamic type"

namespace ChannelInfo

def muteKey : Bytes := Bytes.ofString "mute"

def parentKey : Bytes := Bytes.ofString "parent"

def toMap (c : ChannelInfo) : JSONMap := [(muteKey,.bool c.mute),(parentKey,.string c.parent)]

def fromMute (mp : JSONMap) (c : ChannelInfo) : Outcome ChannelInfo :=
  match (Assoc.get muteKey mp).getD .null with
  | .null => .ok c
  | .bool b => .ok { c with mute := b }
  | _ => .panic interfaceConversion

def fromParent (mp : JSONMap) (c : ChannelInfo) : Outcome ChannelInfo :=
  match (Assoc.get parentKey mp).getD .null with
  | .null => .ok c
  | .string s => .ok { c with parent := s }
  | _ => .panic interfaceConversion

def «from» (mp : JSONMap) (c : ChannelInfo) : Outcome ChannelInfo := do
  let c ← c.fromMute mp
  c.fromParent mp

end ChannelInfo

def JSONList.Inverse {α : Type} (j : JSONList α) (xs : List α) : Prop :=
  j.readJSONByByte (j.toJSON xs) = .ok xs

section Encoders

def encodeUserToken (c : CMD) (uid : Bytes) (deviceFlag : DeviceFlag) (deviceLevel : UInt8)
    (token : Bytes) : CMD :=
  { c with
    type := CMDType.updateUserToken.int32
    param := writeString uid ++ (writeUint8 deviceFlag ++ (writeUint8 deviceLevel ++
      writeString token)) }

def readUserToken : ByteReader (Bytes × DeviceFlag × UInt8 × Bytes) := do
  let uid ← string
  let deviceFlag ← uint8
  let deviceLevel ← uint8
  let token ← string
  pure (uid,deviceFlag,deviceLevel,token)

def decodeUserToken (c : CMD) : Outcome (Bytes × DeviceFlag × UInt8 × Bytes) := do
  let (args,_) ← readUserToken c.param
  pure args

def encodeAddOrUpdateChannel (j : MapJSON) (c : CMD) (channelInfo : ChannelInfo) : CMD :=
  { c with
    type := CMDType.addOrUpdateChannel.int32
    param := writeString channelInfo.channelID ++ (writeUint8 channelInfo.channelType ++
      writeString (j.toJSON channelInfo.toMap)) }

def readAddOrUpdateChannel (j : MapJSON) : ByteReader ChannelInfo := do
  let channelID ← string
  let channelType ← uint8
  let jsonStr ← string
  if 0 < jsonStr.length then
    lift (j.jsonToMap jsonStr >>= fun mp => (newChannelInfo channelID channelType).from mp)
  else pure (newChannelInfo channelID channelType)

def decodeAddOrUpdateChannel (j : MapJSON) (c : CMD) : Outcome ChannelInfo := do
  let (channelInfo,_) ← readAddOrUpdateChannel j c.param
  pure channelInfo

def encodeChannel (typ : CMDType) (c : CMD) (channelID : Bytes) (channelType : UInt8) : CMD :=
  { c with
    type := typ.int32
    param := writeString channelID ++ writeUint8 channelType }

def readChannel : ByteReader (Bytes × UInt8) := do
  let channelID ← string
  let channelType ← uint8
  pure (channelID,channelType)

def decodeChannel (c : CMD) : Outcome (Bytes × UInt8) := do
  let (args,_) ← readChannel c.param
  pure args

def encodeRemoveAllSubscriber := encodeChannel .removeAllSubscriber

def decodeRemoveAllSubscriber := decodeChannel

def encodeCMDDeleteChannel := encodeChannel .deleteChannel

def decodeCMDDeleteChannel := decodeChannel

def encodeCMDDeleteChannelAndClearMessages := encodeChannel .deleteChannelAndClearMessages

def decodeCMDDeleteChannelAndClearMessages := decodeChannel

def encodeCMDRemoveAllDenylist := encodeChannel .removeAllDenylist

def decodeCMDRemoveAllDenylist := decodeChannel

def encodeCMDRemoveAllAllowlist := encodeChannel .removeAllAllowlist

def decodeCMDRemoveAllAllowlist := decodeChannel

def encodeAppendMessage (c : CMD) (m : Db.Message) : CMD :=
  { c with
    type := CMDType.appendMessage.int32
    param := marshalMessage m }

def decodeAppendMessage (c : CMD) : Outcome Db.Message := do
  let (m,_) ← unmarshalMessage .zero c.param
  pure m

def encodeCMDAppendMessageOfUser (c : CMD) (m : Db.Message) : CMD :=
  { c with
    type := CMDType.appendMessageOfUser.int32
    param := marshalMessage m }

def decodeCMDAppendMessageOfUser (c : CMD) : Outcome Db.Message := do
  let (messageData,_) ← binaryAll c.param
  let (m,_) ← unmarshalMessage .zero messageData
  pure m

def encodeCMDUpdateMessageOfUserCursorIfNeed (c : CMD) (uid : Bytes) (messageSeq : UInt32) : CMD :=
  { c with
    type := CMDType.updateMessageOfUserCursorIfNeed.int32
    param := writeString uid ++ writeUint32 messageSeq }

def readUserCursor : ByteReader (Bytes × UInt32) := do
  let uid ← string
  let messageSeq ← uint32
  pure (uid,messageSeq)

def decodeCMDUpdateMessageOfUserCursorIfNeed (c : CMD) : Outcome (Bytes × UInt32) := do
  let (args,_) ← readUserCursor c.param
  pure args

def encodeCMDAppendMessageOfNotifyQueue (c : CMD) (m : Db.Message) : CMD :=
  { c with
    type := CMDType.appendMessageOfNotifyQueue.int32
    param := marshalMessage m }

def decodeCMDAppendMessageOfNotifyQueue (c : CMD) : Outcome Db.Message := do
  let (m,_) ← unmarshalMessage .zero c.param
  pure m

def encodeCMDRemoveMessagesOfNotifyQueue (j : JSONList Int64) (c : CMD) (messageIDs : List Int64) :
    CMD :=
  { c with
    type := CMDType.removeMessagesOfNotifyQueue.int32
    param := j.toJSON messageIDs }

def decodeCMDRemoveMessagesOfNotifyQueue (j : JSONList Int64) (c : CMD) : Outcome (List Int64) :=
  j.readJSONByByte c.param

def encodeCMDAddNodeInFlightData (j : JSONList NodeInFlightDataModel) (c : CMD)
    (data : List NodeInFlightDataModel) : CMD :=
  { c with
    type := CMDType.addNodeInFlightData.int32
    param := j.toJSON data }

def decodeCMDAddNodeInFlightData (j : JSONList NodeInFlightDataModel) (c : CMD) :
    Outcome (List NodeInFlightDataModel) := j.readJSONByByte c.param

end Encoders

inductive ChannelCommand where
  | removeAllSubscriber
  | deleteChannel
  | deleteChannelAndClearMessages
  | removeAllDenylist
  | removeAllAllowlist
deriving DecidableEq, Repr

inductive MessageCommand where
  | appendMessage
  | appendMessageOfUser
  | appendMessageOfNotifyQueue
deriving DecidableEq, Repr

def ChannelCommand.encode : ChannelCommand → CMD → Bytes → UInt8 → CMD
  | .removeAllSubscriber => encodeRemoveAllSubscriber
  | .deleteChannel => encodeCMDDeleteChannel
  | .deleteChannelAndClearMessages => encodeCMDDeleteChannelAndClearMessages
  | .removeAllDenylist => encodeCMDRemoveAllDenylist
  | .removeAllAllowlist => encodeCMDRemoveAllAllowlist

def ChannelCommand.decode : ChannelCommand → CMD → Outcome (Bytes × UInt8)
  | .removeAllSubscriber => decodeRemoveAllSubscriber
  | .deleteChannel => decodeCMDDeleteChannel
  | .deleteChannelAndClearMessages => decodeCMDDeleteChannelAndClearMessages
  | .removeAllDenylist => decodeCMDRemoveAllDenylist
  | .removeAllAllowlist => decodeCMDRemoveAllAllowlist

def MessageCommand.encode : MessageCommand → CMD → Db.Message → CMD
  | .appendMessage => encodeAppendMessage
  | .appendMessageOfUser => encodeCMDAppendMessageOfUser
  | .appendMessageOfNotifyQueue => encodeCMDAppendMessageOfNotifyQueue

def MessageCommand.decode : MessageCommand → CMD → Outcome Db.Message
  | .appendMessage => decodeAppendMessage
  | .appendMessageOfUser => decodeCMDAppendMessageOfUser
  | .appendMessageOfNotifyQueue => decodeCMDAppendMessageOfNotifyQueue

theorem message_round_trip_iff (m : Db.Message) :
    (∃ rest, unmarshalMessage .zero (marshalMessage m) = .ok ({ m with appliIndex := 0 },rest)) ↔
      m.Short := by
  constructor
  · rintro ⟨rest,h⟩
    obtain ⟨-,hshort,-⟩ := unmarshalMessage_eq_ok h
    exact ⟨hshort.clientMsgNo,hshort.fromUID,hshort.queueUID,hshort.channelID⟩
  · intro h
    exact ⟨[],unmarshalMessage_marshalMessage h⟩

theorem userToken_round_trip (c : CMD) {uid token : Bytes} (deviceFlag : DeviceFlag)
    (deviceLevel : UInt8) (hu : uid.length ≤ 32767) (ht : token.length ≤ 32767) :
    RoundTrips (encodeUserToken c uid deviceFlag deviceLevel token) decodeUserToken
      (uid,deviceFlag,deviceLevel,token) := by
  have hread : Finishes readUserToken
      (encodeUserToken c uid deviceFlag deviceLevel token).param
      (uid,deviceFlag,deviceLevel,token) :=
    .bind (reads_string uid hu) (.bind (reads_uint8 _) (.bind (reads_uint8 _)
      ((reads_string token ht).finishes.map fun token => (uid,deviceFlag,deviceLevel,token))))
  rw [roundTrips_iff, decodeUserToken, hread]
  rfl

theorem from_toMap (c : ChannelInfo) :
    (newChannelInfo c.channelID c.channelType).from c.toMap = .ok c := by
  have hmute : (Assoc.get ChannelInfo.muteKey c.toMap).getD .null = .bool c.mute := by
    rw [ChannelInfo.toMap, Assoc.get, if_pos rfl, Option.getD_some]
  have hparent : (Assoc.get ChannelInfo.parentKey c.toMap).getD .null = .string c.parent := by
    rw [ChannelInfo.toMap, Assoc.get, if_neg (by decide), Assoc.get, if_pos rfl, Option.getD_some]
  rw [ChannelInfo.from, ChannelInfo.fromMute, hmute]
  simp only [ok_bind, ChannelInfo.fromParent, hparent]
  rfl

theorem channel_round_trip (j : MapJSON) (c : CMD) {channelInfo : ChannelInfo}
    (hid : channelInfo.channelID.length ≤ 32767) (hj : j.Inverse channelInfo.toMap)
    (hjson : (j.toJSON channelInfo.toMap).length ≤ 32767) :
    RoundTrips (encodeAddOrUpdateChannel j c channelInfo) (decodeAddOrUpdateChannel j)
      channelInfo := by
  have hread : Finishes (readAddOrUpdateChannel j) (encodeAddOrUpdateChannel j c channelInfo).param
      channelInfo := by
    refine .bind (reads_string _ hid) (.bind (reads_uint8 _) ?_)
    rw [← List.append_nil (writeString (j.toJSON channelInfo.toMap))]
    refine .bind (reads_string _ hjson) ?_
    rw [if_pos (List.length_pos_iff.mpr hj.nonempty)]
    refine (reads_lift ?_).finishes
    rw [hj.inverse, ok_bind, from_toMap]
  rw [roundTrips_iff, decodeAddOrUpdateChannel, hread]
  rfl

theorem channelCommand_round_trip (kind : ChannelCommand) (c : CMD) {channelID : Bytes}
    (channelType : UInt8) (h : channelID.length ≤ 32767) :
    RoundTrips (kind.encode c channelID channelType) kind.decode (channelID,channelType) := by
  have hfamily : ∀ typ, RoundTrips (encodeChannel typ c channelID channelType) decodeChannel
      (channelID,channelType) := by
    intro typ
    have hread : Finishes readChannel (encodeChannel typ c channelID channelType).param
        (channelID,channelType) :=
      .bind (reads_string channelID h)
        ((reads_uint8 channelType).finishes.map fun channelType => (channelID,channelType))
    rw [roundTrips_iff, decodeChannel, hread]
    rfl
  cases kind with
  | removeAllSubscriber => exact hfamily .removeAllSubscriber
  | deleteChannel => exact hfamily .deleteChannel
  | deleteChannelAndClearMessages => exact hfamily .deleteChannelAndClearMessages
  | removeAllDenylist => exact hfamily .removeAllDenylist
  | removeAllAllowlist => exact hfamily .removeAllAllowlist

theorem messageCommand_round_trip (kind : MessageCommand) (c : CMD) {m : Db.Message}
    (h : m.Short) : RoundTrips (kind.encode c m) kind.decode { m with appliIndex := 0 } := by
  rw [roundTrips_iff]
  cases kind with
  | appendMessage =>
    show decodeAppendMessage (encodeAppendMessage c m) = _
    rw [decodeAppendMessage, encodeAppendMessage, unmarshalMessage_marshalMessage h]
    rfl
  | appendMessageOfUser =>
    show decodeCMDAppendMessageOfUser (encodeCMDAppendMessageOfUser c m) = _
    rw [decodeCMDAppendMessageOfUser, encodeCMDAppendMessageOfUser, finishes_binaryAll, ok_bind]
    simp only [unmarshalMessage_marshalMessage h]
    rfl
  | appendMessageOfNotifyQueue =>
    show decodeCMDAppendMessageOfNotifyQueue (encodeCMDAppendMessageOfNotifyQueue c m) = _
    rw [decodeCMDAppendMessageOfNotifyQueue, encodeCMDAppendMessageOfNotifyQueue,
      unmarshalMessage_marshalMessage h]
    rfl

theorem userCursor_round_trip (c : CMD) {uid : Bytes} (messageSeq : UInt32)
    (h : uid.length ≤ 32767) :
    RoundTrips (encodeCMDUpdateMessageOfUserCursorIfNeed c uid messageSeq)
      decodeCMDUpdateMessageOfUserCursorIfNeed (uid,messageSeq) := by
  have hread : Finishes readUserCursor
      (encodeCMDUpdateMessageOfUserCursorIfNeed c uid messageSeq).param (uid,messageSeq) :=
    .bind (reads_string uid h)
      ((reads_uint32 messageSeq).finishes.map fun messageSeq => (uid,messageSeq))
  rw [roundTrips_iff, decodeCMDUpdateMessageOfUserCursorIfNeed, hread]
  rfl

theorem storage_commands_round_trip (channels : MapJSON) (ids : JSONList Int64)
    (nodeData : JSONList NodeInFlightDataModel) (c : CMD) :
    (∀ m : Db.Message, (∃ rest, unmarshalMessage .zero (marshalMessage m) =
      .ok ({ m with appliIndex := 0 },rest)) ↔ m.Short) ∧
    (∀ (uid : Bytes) (deviceFlag : DeviceFlag) (deviceLevel : UInt8) (token : Bytes),
      uid.length ≤ 32767 → token.length ≤ 32767 →
        RoundTrips (encodeUserToken c uid deviceFlag deviceLevel token) decodeUserToken
          (uid,deviceFlag,deviceLevel,token)) ∧
    (∀ channelInfo : ChannelInfo, channelInfo.channelID.length ≤ 32767 →
      channels.Inverse channelInfo.toMap → (channels.toJSON channelInfo.toMap).length ≤ 32767 →
        RoundTrips (encodeAddOrUpdateChannel channels c channelInfo)
          (decodeAddOrUpdateChannel channels) channelInfo) ∧
    (∀ (kind : ChannelCommand) (channelID : Bytes) (channelType : UInt8),
      channelID.length ≤ 32767 →
        RoundTrips (kind.encode c channelID channelType) kind.decode (channelID,channelType)) ∧
    (∀ (kind : MessageCommand) (m : Db.Message), m.Short →
      RoundTrips (kind.encode c m) kind.decode { m with appliIndex := 0 }) ∧
    (∀ (uid : Bytes) (messageSeq : UInt32), uid.length ≤ 32767 →
      RoundTrips (encodeCMDUpdateMessageOfUserCursorIfNeed c uid messageSeq)
        decodeCMDUpdateMessageOfUserCursorIfNeed (uid,messageSeq)) ∧
    (∀ messageIDs : List Int64, ids.Inverse messageIDs →
      RoundTrips (encodeCMDRemoveMessagesOfNotifyQueue ids c messageIDs)
        (decodeCMDRemoveMessagesOfNotifyQueue ids) messageIDs) ∧
    ∀ data : List NodeInFlightDataModel, nodeData.Inverse data →
      RoundTrips (encodeCMDAddNodeInFlightData nodeData c data)
        (decodeCMDAddNodeInFlightData nodeData) data :=
  ⟨message_round_trip_iff,
    fun _ deviceFlag deviceLevel _ hu ht => userToken_round_trip c deviceFlag deviceLevel hu ht,
    fun _ hid hj hjson => channel_round_trip channels c hid hj hjson,
    fun kind _ channelType h => channelCommand_round_trip kind c channelType h,
    fun kind _ h => messageCommand_round_trip kind c h,
    fun _ messageSeq h => userCursor_round_trip c messageSeq h,
    fun _ h => roundTrips_iff.mpr h,
    fun _ h => roundTrips_iff.mpr h⟩

def quoted (s : Bytes) : Bytes := 0x22 :: (s ++ [0x22])

def memberJSON : Bytes × JSONValue → Bytes
  | (k,.null) => quoted k ++ Bytes.ofString ":null"
  | (k,.bool b) => quoted k ++ Bytes.ofString (if b then ":true" else ":false")
  | (k,.string s) => quoted k ++ 0x3A :: quoted s
  | (k,.other raw) => quoted k ++ 0x3A :: raw

def objectJSON (mp : JSONMap) : Bytes :=
  0x7B :: (List.intercalate [0x2C] (mp.map memberJSON) ++ [0x7D])

def arrayJSON {α : Type} (item : α → Bytes) (xs : List α) : Bytes :=
  0x5B :: (List.intercalate [0x2C] (xs.map item) ++ [0x5D])

def onlyMap (mp : JSONMap) : MapJSON where
  toJSON := objectJSON
  jsonToMap data := if data = objectJSON mp then .ok mp else .error "unexpected EOF"

def onlyList {α : Type} (item : α → Bytes) (xs : List α) : JSONList α where
  toJSON := arrayJSON item
  readJSONByByte data := if data = arrayJSON item xs then .ok xs else .error "unexpected EOF"

theorem inverse_onlyMap (mp : JSONMap) : (onlyMap mp).Inverse mp := by
  refine ⟨?_,List.cons_ne_nil _ _⟩
  simp only [onlyMap, if_true]

theorem inverse_onlyList {α : Type} (item : α → Bytes) (xs : List α) :
    (onlyList item xs).Inverse xs := by
  simp only [JSONList.Inverse, onlyList, if_true]

def groupInfo : ChannelInfo := ⟨[0x67],2,true,[0x70]⟩

theorem storage_commands_round_trip_group :
    RoundTrips (encodeAddOrUpdateChannel (onlyMap groupInfo.toMap) (newCMD .unknown) groupInfo)
      (decodeAddOrUpdateChannel (onlyMap groupInfo.toMap)) groupInfo ∧
    RoundTrips (encodeCMDRemoveMessagesOfNotifyQueue
        (onlyList (fun x => Bytes.signed x.toInt) [1,-2]) (newCMD .unknown) [1,-2])
      (decodeCMDRemoveMessagesOfNotifyQueue (onlyList (fun x => Bytes.signed x.toInt) [1,-2]))
      [1,-2] := by
  obtain ⟨-,-,hchannel,-,-,-,hids,-⟩ := storage_commands_round_trip (onlyMap groupInfo.toMap)
    (onlyList (fun x => Bytes.signed x.toInt) [1,-2]) (onlyList (fun _ => []) [])
    (newCMD .unknown)
  exact ⟨hchannel groupInfo (by decide) (inverse_onlyMap _) (by decide),
    hids [1,-2] (inverse_onlyList _ _)⟩

theorem appendMessage_drops_appliIndex :
    ¬ RoundTrips
      (encodeAppendMessage (newCMD .appendMessage) { Db.Message.zero with appliIndex := 1 })
      decodeAppendMessage { Db.Message.zero with appliIndex := 1 } := by
  rw [roundTrips_iff]
  decide

end LiMaoIM.Lim

import LiMaoIM.Foundation.Space
import LiMaoIM.Db.FileDB
import LiMaoIM.Db.Message
import LiMaoIM.Db.TopicLayout

namespace LiMaoIM.Db

open Outcome

structure Store where
  db : FileDB
  segmentMaxBytes : Int
  topics : List ((Nat × Bytes) × Topic)

def newStore (slotCount : Nat) (segmentMaxBytes : Int) : Store :=
  ⟨newFileDB slotCount,segmentMaxBytes,[]⟩

def topicName (channelID : Bytes) (channelType : UInt8) : Bytes :=
  Bytes.decimal channelType.toNat ++ dash :: channelID

def messageOfUserCursorPrefix : Bytes := Bytes.ofString "messageOfUserCursor:"

def getMessageOfUserCursorKey (uid : Bytes) : Bytes := messageOfUserCursorPrefix ++ uid

def Message.zero : Message := ⟨0,0,0,0,0,0,[],0,[],[],[],0,[]⟩

def collectMessages (messages : List Message) (data : Bytes) : Outcome (List Message) := do
  let (m,_) ← unmarshalMessage .zero data
  pure (messages ++ [m])

def collectUntilError : List Message × Bool → Bytes → Outcome (List Message × Bool)
  | (messages,true), _ => .ok (messages,true)
  | (messages,false), data =>
      match unmarshalMessage .zero data with
      | .ok (m,_) => .ok (messages ++ [m],false)
      | .error _ => .ok (messages,true)
      | .panic e => .panic e

def cursorOf (value : Option Bytes) : UInt32 :=
  if 0 < (value.getD []).length then UInt32.ofNat (Bytes.parseUint (value.getD [])) else 0

namespace Store

variable {α : Type}

def getTopic (st : Store) (slot : Nat) (topic : Bytes) : Outcome Topic :=
  match Assoc.get (slot,topic) st.topics with
  | some t => .ok t
  | none => newTopic .empty st.segmentMaxBytes

def putTopic (st : Store) (slot : Nat) (topic : Bytes) (t : Topic) : Store :=
  { st with topics := Assoc.put (slot,topic) t st.topics }

def onTopic (slot : Nat) (topic : Bytes) (x : Exec Topic α) : Exec Store α := fun st =>
  match st.getTopic slot topic with
  | .ok t => ((x t).1,st.putTopic slot topic (x t).2)
  | .error e => (.error e,st)
  | .panic e => (.panic e,st)

def nextOffset (slot : Nat) (topic : Bytes) : Exec Store UInt32 :=
  onTopic slot topic (Exec.state Topic.nextOffset)

def getNextMessageSeq (channelID : Bytes) (channelType : UInt8) : Exec Store UInt32 := do
  let st ← Exec.get
  let slot ← Exec.lift (st.db.slotNumForChannel channelID channelType)
  nextOffset slot (topicName channelID channelType)

def getUserNextMessageSeq (uid : Bytes) : Exec Store UInt32 := do
  let st ← Exec.get
  let slot ← Exec.lift (st.db.slotNum uid)
  nextOffset slot uid

def appendMessageTo (slot : Nat) (topic : Bytes) (m : Message) : Exec Store Nat :=
  onTopic slot topic (Topic.appendLog m.toLog)

def appendMessage (m : Message) : Exec Store Nat := do
  let st ← Exec.get
  let slot ← Exec.lift (st.db.slotNumForChannel m.channelID m.channelType)
  appendMessageTo slot (topicName m.channelID m.channelType) m

def appendMessageOfUser (m : Message) : Exec Store Nat := do
  if Bytes.isBlank m.queueUID then Exec.lift (.error "QueueUID不能为空！")
  else do
    let st ← Exec.get
    let slot ← Exec.lift (st.db.slotNum m.queueUID)
    appendMessageTo slot m.queueUID m

def getLastSeq (st : Store) (slot : Nat) (topic : Bytes) : Outcome UInt32 := do
  let t ← st.getTopic slot topic
  pure t.getLastSeq

def getMessages (channelID : Bytes) (channelType : UInt8) (offset : UInt32) (limit : UInt64) :
    Exec Store (List Message) := do
  let st ← Exec.get
  let slot ← Exec.lift (st.db.slotNumForChannel channelID channelType)
  onTopic slot (topicName channelID channelType)
    (Topic.readLogs offset.toUInt64.toInt64 limit collectMessages [])

def deleteMessages (channelID : Bytes) (channelType : UInt8) : Exec Store Unit := do
  let st ← Exec.get
  let slot ← Exec.lift (st.db.slotNumForChannel channelID channelType)
  onTopic slot (topicName channelID channelType) (pure ())

def getMessageOfUserCursor (st : Store) (uid : Bytes) : Outcome UInt32 := do
  let slot ← st.db.slotNum uid
  let value ← st.db.get slot (getMessageOfUserCursorKey uid)
  pure (cursorOf value)

def updateMessageOfUserCursorIfNeed (uid : Bytes) (offset : UInt32) : Exec Store Unit := do
  let st ← Exec.get
  let slot ← Exec.lift (st.db.slotNum uid)
  let lastSeq ← onTopic slot uid (Exec.state fun t => (t.getLastSeq,t))
  let actOffset := if lastSeq < offset then lastSeq else offset
  let value ← Exec.lift (st.db.get slot (getMessageOfUserCursorKey uid))
  if 0 < (value.getD []).length ∧ actOffset ≤ cursorOf value ∧ cursorOf value < lastSeq then pure ()
  else do
    let db ← Exec.lift (st.db.set slot (getMessageOfUserCursorKey uid) (Bytes.decimal actOffset.toNat))
    Exec.modify fun st => { st with db := db }

def getMessagesOfUser (uid : Bytes) (offset : UInt32) (limit : UInt64) :
    Exec Store (List Message) := do
  let st ← Exec.get
  let slot ← Exec.lift (st.db.slotNum uid)
  let maxOffset ← Exec.lift (st.getMessageOfUserCursor uid)
  let offst := if offset < maxOffset then maxOffset else offset
  let (messages,_) ← Exec.ignoreError ([],false) (onTopic slot uid
    (Topic.readLogs (offst + 1).toUInt64.toInt64 limit collectUntilError ([],false)))
  pure messages

section Topics

variable {st : Store} {slot slot' : Nat} {topic topic' : Bytes} {t : Topic}

@[simp] theorem getTopic_putTopic_self : (st.putTopic slot topic t).getTopic slot topic = .ok t := by
  simp [getTopic, putTopic]

theorem getTopic_putTopic_ne (h : (slot',topic') ≠ (slot,topic)) :
    (st.putTopic slot topic t).getTopic slot' topic' = st.getTopic slot' topic' := by
  simp only [getTopic, putTopic, Assoc.get_put_ne h]

theorem onTopic_ok {x : Exec Topic α} (h : st.getTopic slot topic = .ok t) :
    onTopic slot topic x st = ((x t).1,st.putTopic slot topic (x t).2) := by
  simp only [onTopic, h]

theorem getTopic_fresh (h : Assoc.get (slot,topic) st.topics = none) :
    st.getTopic slot topic = .ok (freshTopic st.segmentMaxBytes) := by
  simp only [getTopic, h, newTopic_empty]

end Topics
end Store
end LiMaoIM.Db

import LiMaoIM.Foundation.Assoc
import LiMaoIM.Foundation.Crc32
import LiMaoIM.Foundation.Decimal

namespace LiMaoIM.Db

open Outcome

structure FileDB where
  slotCount : Nat
  buckets : Nat → List (Bytes × Bytes)

def getSlotNum (slotCount : Nat) (v : Bytes) : Outcome Nat :=
  if slotCount % 2 ^ 32 = 0 then .panic "runtime error: integer divide by zero"
  else .ok ((Crc32.checksumIEEE v).toNat % (slotCount % 2 ^ 32))

def newFileDB (slotCount : Nat) : FileDB := ⟨slotCount,fun _ => []⟩

def comma : UInt8 := 0x2C

def dash : UInt8 := 0x2D

namespace FileDB

def getSlotBucket (f : FileDB) (slotNum : Nat) : Outcome (List (Bytes × Bytes)) :=
  if slotNum < f.slotCount then .ok (f.buckets slotNum) else .panic nilPointer

def getSlotBucketWithKey (f : FileDB) (key : Bytes) : Outcome (Nat × List (Bytes × Bytes)) := do
  let slot ← getSlotNum f.slotCount key
  let bucket ← f.getSlotBucket slot
  pure (slot,bucket)

def store (f : FileDB) (slotNum : Nat) (bucket : List (Bytes × Bytes)) : FileDB :=
  { f with buckets := Function.update f.buckets slotNum bucket }

def set (f : FileDB) (slot : Nat) (key value : Bytes) : Outcome FileDB := do
  let bucket ← f.getSlotBucket slot
  pure (f.store slot (Assoc.put key value bucket))

def get (f : FileDB) (slot : Nat) (key : Bytes) : Outcome (Option Bytes) := do
  let bucket ← f.getSlotBucket slot
  pure (Assoc.get key bucket)

def delete (f : FileDB) (slot : Nat) (key : Bytes) : Outcome FileDB := do
  let bucket ← f.getSlotBucket slot
  pure (f.store slot (Assoc.erase key bucket))

def slotNumForChannel (f : FileDB) (channelID : Bytes) (_channelType : UInt8) : Outcome Nat :=
  getSlotNum f.slotCount channelID

def slotNum (f : FileDB) (key : Bytes) : Outcome Nat := getSlotNum f.slotCount key

def splitList (value : Option Bytes) : List Bytes :=
  if 0 < (value.getD []).length then (value.getD []).splitOn comma else []

def joinList (list : List Bytes) : Bytes := [comma].intercalate list

def addList (f : FileDB) (slotNum : Nat) (key : Bytes) (valueList : List Bytes) :
    Outcome FileDB := do
  let bucket ← f.getSlotBucket slotNum
  let list := splitList (Assoc.get key bucket) ++ valueList
  pure (f.store slotNum (Assoc.put key (joinList list) bucket))

def getList (f : FileDB) (slotNum : Nat) (key : Bytes) : Outcome (List Bytes) := do
  let bucket ← f.getSlotBucket slotNum
  pure (splitList (Assoc.get key bucket))

def removeList (f : FileDB) (_slotNum : Nat) (key : Bytes) (uids : List Bytes) :
    Outcome FileDB := do
  let (slot,bucket) ← f.getSlotBucketWithKey key
  let list := (splitList (Assoc.get key bucket)).filter fun v => ¬ v ∈ uids
  pure (f.store slot (Assoc.put key (joinList list) bucket))

def formatKey (pre channelID : Bytes) (channelType : UInt8) : Bytes :=
  pre ++ (channelID ++ dash :: Bytes.decimal channelType.toNat)

def subscribersPrefix : Bytes := Bytes.ofString "subscribers:"

def denylistPrefix : Bytes := Bytes.ofString "denylist:"

def allowlistPrefix : Bytes := Bytes.ofString "allowlist:"

def getSubscribersKey (channelID : Bytes) (channelType : UInt8) : Bytes :=
  formatKey subscribersPrefix channelID channelType

def getDenylistKey (channelID : Bytes) (channelType : UInt8) : Bytes :=
  formatKey denylistPrefix channelID channelType

def getAllowlistKey (channelID : Bytes) (channelType : UInt8) : Bytes :=
  formatKey allowlistPrefix channelID channelType

section Lists

variable (f : FileDB) (channelID : Bytes) (channelType : UInt8) (uids : List Bytes)

def addSubscribers : Outcome FileDB := do
  let slotNum ← f.slotNumForChannel channelID channelType
  f.addList slotNum (getSubscribersKey channelID channelType) uids

def getSubscribers : Outcome (List Bytes) := do
  let slotNum ← f.slotNumForChannel channelID channelType
  f.getList slotNum (getSubscribersKey channelID channelType)

def removeSubscribers : Outcome FileDB := do
  let slotNum ← f.slotNumForChannel channelID channelType
  f.removeList slotNum (getSubscribersKey channelID channelType) uids

def removeAllSubscriber : Outcome FileDB := do
  let slotNum ← f.slotNumForChannel channelID channelType
  let bucket ← f.getSlotBucket slotNum
  pure (f.store slotNum (Assoc.erase (getSubscribersKey channelID channelType) bucket))

def addDenylist : Outcome FileDB := do
  let slotNum ← f.slotNumForChannel channelID channelType
  f.addList slotNum (getDenylistKey channelID channelType) uids

def getDenylist : Outcome (List Bytes) := do
  let slotNum ← f.slotNumForChannel channelID channelType
  f.getList slotNum (getDenylistKey channelID channelType)

def removeDenylist : Outcome FileDB := do
  let slotNum ← f.slotNumForChannel channelID channelType
  f.removeList slotNum (getDenylistKey channelID channelType) uids

def removeAllDenylist : Outcome FileDB := do
  let slotNum ← f.slotNumForChannel channelID channelType
  f.delete slotNum (getDenylistKey channelID channelType)

def addAllowlist : Outcome FileDB := do
  let slotNum ← f.slotNumForChannel channelID channelType
  f.addList slotNum (getAllowlistKey channelID channelType) uids

def getAllowlist : Outcome (List Bytes) := do
  let slotNum ← f.slotNumForChannel channelID channelType
  f.getList slotNum (getAllowlistKey channelID channelType)

def removeAllowlist : Outcome FileDB := do
  let slotNum ← f.slotNumForChannel channelID channelType
  f.removeList slotNum (getAllowlistKey channelID channelType) uids

def removeAllAllowlist : Outcome FileDB := do
  let slotNum ← f.slotNumForChannel channelID channelType
  f.delete slotNum (getAllowlistKey channelID channelType)

end Lists

theorem dash_not_mem_decimal (n : Nat) : dash ∉ Bytes.decimal n := by
  intro hm
  have hb := (Bytes.mem_decimal hm).1
  exact absurd hb (by decide)

theorem formatKey_injective {pre id id' : Bytes} {ty ty' : UInt8}
    (h : formatKey pre id ty = formatKey pre id' ty') : id = id' ∧ ty = ty' := by
  obtain ⟨hid,hty⟩ := Bytes.last_separator (dash_not_mem_decimal _) (dash_not_mem_decimal _)
    (List.append_cancel_left h)
  exact ⟨hid,UInt8.toNat_inj.mp (Bytes.decimal_injective hty)⟩

variable {f : FileDB} {slot : Nat} {key value : Bytes}

def entry (f : FileDB) (slot : Nat) (key : Bytes) : Option Bytes := Assoc.get key (f.buckets slot)

def put (f : FileDB) (slot : Nat) (key value : Bytes) : FileDB :=
  f.store slot (Assoc.put key value (f.buckets slot))

theorem entry_put_self (f : FileDB) (slot : Nat) (key value : Bytes) :
    (f.put slot key value).entry slot key = some value := by
  simp [entry, put, store]

theorem entry_put_ne {slot' : Nat} {key' : Bytes} (h : slot' ≠ slot ∨ key' ≠ key) :
    (f.put slot key value).entry slot' key' = f.entry slot' key' := by
  simp only [entry, put, store]
  by_cases hs : slot' = slot
  · subst hs
    rw [Function.update_self, Assoc.get_put_ne (h.resolve_left fun hn => hn rfl)]
  · rw [Function.update_of_ne hs]

def drop (f : FileDB) (slot : Nat) (key : Bytes) : FileDB :=
  f.store slot (Assoc.erase key (f.buckets slot))

theorem entry_drop_self (f : FileDB) (slot : Nat) (key : Bytes) :
    (f.drop slot key).entry slot key = none := by
  simp [entry, drop, store]

theorem entry_drop_ne {slot' : Nat} {key' : Bytes} (h : key' ≠ key) :
    (f.drop slot key).entry slot' key' = f.entry slot' key' := by
  simp only [entry, drop, store]
  by_cases hs : slot' = slot
  · subst hs
    rw [Function.update_self, Assoc.get_erase_ne h]
  · rw [Function.update_of_ne hs]

end FileDB

section Slots

variable {slotCount : Nat}

def slotOf (slotCount : Nat) (v : Bytes) : Nat :=
  (Crc32.checksumIEEE v).toNat % (slotCount % 2 ^ 32)

theorem getSlotNum_ok (h : slotCount % 2 ^ 32 ≠ 0) (v : Bytes) :
    getSlotNum slotCount v = .ok (slotOf slotCount v) := by
  rw [getSlotNum, if_neg h]
  rfl

theorem slotOf_lt (h : slotCount % 2 ^ 32 ≠ 0) (v : Bytes) : slotOf slotCount v < slotCount := by
  have hlt : slotOf slotCount v < slotCount % 2 ^ 32 := Nat.mod_lt _ (Nat.pos_of_ne_zero h)
  have hle := Nat.mod_le slotCount (2 ^ 32)
  omega

end Slots
end LiMaoIM.Db

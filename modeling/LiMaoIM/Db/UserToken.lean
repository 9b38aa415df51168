import LiMaoIM.Foundation.Json
import LiMaoIM.Db.FileDB

namespace LiMaoIM.Db

open Outcome

def toJSON (m : List (List Char × List Char)) : Bytes := Json.encodeObject m

def readJSONByByte (body : Bytes) : Outcome (List (Bytes × Bytes)) :=
  match Json.parseObject body with
  | some m => .ok m
  | none => .error "invalid JSON"

def atoi (s : Bytes) : Int :=
  let digits := if s.head? = some 0x2D ∨ s.head? = some 0x2B then s.tail else s
  if digits = [] ∨ ¬ digits.all (fun b => 48 ≤ b.toNat ∧ b.toNat ≤ 57) then 0
  else
    let n : Int := digits.foldl (fun n b => 10 * n + (b.toNat - 48)) 0
    if s.head? = some 0x2D then max (-n) (-2 ^ 63) else min n (2 ^ 63 - 1)

namespace FileDB

def userTokenPrefix : Bytes := Bytes.ofString "userToken:"

def getUserTokenKey (uid : Bytes) (deviceFlag : UInt8) : Bytes :=
  formatKey userTokenPrefix uid deviceFlag

def tokenJSON (deviceLevel : UInt8) (token : List Char) : Bytes :=
  toJSON [("device_level".toList,Nat.toDigits 10 deviceLevel.toNat),("token".toList,token)]

def updateUserToken (f : FileDB) (uid : Bytes) (deviceFlag deviceLevel : UInt8)
    (token : List Char) : Outcome FileDB := do
  let slotNum ← f.slotNum uid
  f.set slotNum (getUserTokenKey uid deviceFlag) (tokenJSON deviceLevel token)

def getUserToken (f : FileDB) (uid : Bytes) (deviceFlag : UInt8) : Outcome (Bytes × UInt8) := do
  let slotNum ← f.slotNum uid
  let value ← f.get slotNum (getUserTokenKey uid deviceFlag)
  if (value.getD []).length = 0 then pure ([],0)
  else do
    let resultMap ← readJSONByByte (value.getD [])
    let token := (Assoc.get (Bytes.ofString "token") resultMap).getD []
    let level := atoi ((Assoc.get (Bytes.ofString "device_level") resultMap).getD [])
    pure (token,UInt8.ofInt level)

def tokenEntry (f : FileDB) (uid : Bytes) (deviceFlag : UInt8) : Option Bytes :=
  f.entry (slotOf f.slotCount uid) (getUserTokenKey uid deviceFlag)

theorem tokenEntry_put (f : FileDB) (uid uid' : Bytes) (flag flag' : UInt8) (value : Bytes) :
    (f.put (slotOf f.slotCount uid) (getUserTokenKey uid flag) value).tokenEntry uid' flag' =
      if uid' = uid ∧ flag' = flag then some value else f.tokenEntry uid' flag' := by
  split
  · rename_i h
    obtain ⟨rfl,rfl⟩ := h
    exact entry_put_self _ _ _ _
  · rename_i h
    exact entry_put_ne (Or.inr fun he => h (formatKey_injective he))

section Tokens

variable {f : FileDB} (hn : f.slotCount % 2 ^ 32 ≠ 0) {uid : Bytes} {flag : UInt8}
include hn

theorem updateUserToken_eq (deviceLevel : UInt8) (token : List Char) :
    f.updateUserToken uid flag deviceLevel token =
      .ok (f.put (slotOf f.slotCount uid) (getUserTokenKey uid flag)
        (tokenJSON deviceLevel token)) := by
  rw [updateUserToken, slotNum, getSlotNum_ok hn, ok_bind, set, getSlotBucket,
    if_pos (slotOf_lt hn _)]
  rfl

theorem getUserToken_none (h : f.tokenEntry uid flag = none) :
    f.getUserToken uid flag = .ok ([],0) := by
  rw [getUserToken, slotNum, getSlotNum_ok hn, ok_bind, get, getSlotBucket,
    if_pos (slotOf_lt hn _), ok_bind]
  have hget : Assoc.get (getUserTokenKey uid flag) (f.buckets (slotOf f.slotCount uid)) = none := h
  rw [hget]
  rfl

theorem getUserToken_some {deviceLevel : UInt8} {token : List Char}
    (h : f.tokenEntry uid flag = some (tokenJSON deviceLevel token)) :
    ∃ level, f.getUserToken uid flag = .ok (Json.utf8 token,level) := by
  have hget : Assoc.get (getUserTokenKey uid flag) (f.buckets (slotOf f.slotCount uid)) =
      some (tokenJSON deviceLevel token) := h
  have hread : readJSONByByte (tokenJSON deviceLevel token) = .ok
      (Json.putAll [("device_level".toList,Nat.toDigits 10 deviceLevel.toNat),
        ("token".toList,token)] []) := by
    rw [readJSONByByte, tokenJSON, toJSON, Json.parseObject_encodeObject (by simp)]
  have htoken : Assoc.get (Bytes.ofString "token")
      (Json.putAll [("device_level".toList,Nat.toDigits 10 deviceLevel.toNat),
        ("token".toList,token)] []) = some (Json.utf8 token) := Assoc.get_put_self
  refine ⟨UInt8.ofInt (atoi ((Assoc.get (Bytes.ofString "device_level")
    (Json.putAll [("device_level".toList,Nat.toDigits 10 deviceLevel.toNat),
      ("token".toList,token)] [])).getD [])),?_⟩
  rw [getUserToken, slotNum, getSlotNum_ok hn, ok_bind, get, getSlotBucket,
    if_pos (slotOf_lt hn _), ok_bind, hget]
  have hlen : ¬ (tokenJSON deviceLevel token).length = 0 := by
    simp [tokenJSON, toJSON, Json.encodeObject]
  simp only [Outcome.pure_eq, ok_bind, Option.getD_some, if_neg hlen, hread, htoken]

end Tokens

theorem getUserToken_panic {f : FileDB} (hn : f.slotCount % 2 ^ 32 = 0) (uid : Bytes)
    (flag : UInt8) : (f.getUserToken uid flag).Panics := by
  rw [getUserToken, slotNum, getSlotNum, if_pos hn]
  exact ⟨_,rfl⟩

end FileDB
end LiMaoIM.Db

import LiMaoIM.Foundation.Assoc
import LiMaoIM.Proto.Packets

namespace LiMaoIM.Lim

open Proto

structure Client where
  conn : Int64
  uid : Bytes
  deviceFlag : DeviceFlag
  deviceLevel : UInt8
  aesKey : Bytes
  aesIV : Bytes
deriving DecidableEq

def Client.getID (c : Client) : Int64 := c.conn

structure ClientManager where
  userClientMap : List (Bytes × List Int64)
  clientMap : List (Int64 × Client)

namespace ClientManager

def empty : ClientManager := ⟨[],[]⟩

def add (m : ClientManager) (client : Client) : ClientManager :=
  ⟨match Assoc.get client.uid m.userClientMap with
    | none => Assoc.put client.uid [client.getID] m.userClientMap
    | some userList => Assoc.put client.uid (userList ++ [client.getID]) m.userClientMap,
    Assoc.put client.getID client m.clientMap⟩

def get (m : ClientManager) (id : Int64) : Option Client := Assoc.get id m.clientMap

def remove (m : ClientManager) (id : Int64) : ClientManager :=
  match Assoc.get id m.clientMap with
  | none => m
  | some client =>
      ⟨match Assoc.get client.uid m.userClientMap with
        | none => m.userClientMap
        | some userList => Assoc.put client.uid (userList.erase client.getID) m.userClientMap,
        Assoc.erase id m.clientMap⟩

def getClientsWithUID (m : ClientManager) (uid : Bytes) : List Client :=
  ((Assoc.get uid m.userClientMap).getD []).filterMap fun id => Assoc.get id m.clientMap

def getOnlineUIDs (m : ClientManager) (uids : List Bytes) : List Bytes :=
  uids.filter fun uid => (Assoc.get uid m.userClientMap).isSome

def getClientWith (m : ClientManager) (uid : Bytes) (deviceFlag : DeviceFlag) : Option Client :=
  (m.getClientsWithUID uid).find? fun client => client.deviceFlag = deviceFlag

variable {m : ClientManager} {client x : Client} {id : Int64}

theorem get_add (h : (m.add client).get id = some x) : x = client ∨ m.get id = some x := by
  by_cases hid : id = client.getID
  · subst hid
    left
    simpa [add, get] using h.symm
  · right
    rwa [get, add, Assoc.get_put_ne hid] at h

theorem get_remove {removed : Int64} (h : (m.remove removed).get id = some x) :
    m.get id = some x := by
  rw [get, remove] at h
  split at h
  · exact h
  · by_cases hid : id = removed
    · subst hid
      simp at h
    · rwa [Assoc.get_erase_ne hid] at h

end ClientManager
end LiMaoIM.Lim

import LiMaoIM.Foundation.Base64
import LiMaoIM.Foundation.Exec
import LiMaoIM.Foundation.Md5
import LiMaoIM.Db.UserToken
import LiMaoIM.Lim.ClientManager
import LiMaoIM.Lim.Packet

namespace LiMaoIM.Lim

open Outcome Proto

structure Options where
  mode : String
  isCluster : Bool
  nodeID : Int32
  getNode : Bytes → Option Int32

def testMode : String := "test"

structure Crypto where
  scalarBaseMult : Bytes → Bytes
  scalarMult : Bytes → Bytes → Bytes

structure TaskInput where
  now : Int64
  privateKey : Bytes
  randomString : Bytes

structure UpdateTokenReq where
  uid : List Char
  token : List Char
  deviceFlag : DeviceFlag
  deviceLevel : UInt8

inductive Task where
  | connect (conn : Int64) (packet : ConnectPacket)
  | send (client : Client) (packet : SendPacket)

inductive TraceEvent where
  | tokenStored (uid : Bytes) (deviceFlag : DeviceFlag) (token : Bytes)
  | clientAdded (client : Client) (packet : ConnectPacket)
  | handleSend (client : Client) (packet : SendPacket)

structure ConnState where
  status : ConnStatus
  version : UInt8

structure Server where
  db : Db.FileDB
  conns : Int64 → ConnState
  clientManager : ClientManager
  messagePool : List Task
  outbound : List (Int64 × Bytes)
  crashed : Bool
  trace : List TraceEvent

inductive ServerEvent where
  | updateToken (req : UpdateTokenReq)
  | packet (conn : Int64) (data : Bytes)
  | task (index : Nat) (input : TaskInput)
  | close (conn : Int64)

def reasonError : ReasonCode := 0

def reasonSuccess : ReasonCode := 1

def reasonAuthFail : ReasonCode := 2

def reasonUserNotOnNode : ReasonCode := 6

def deviceLevelMaster : UInt8 := 1

def Server.initial (slotCount : Nat) : Server :=
  ⟨Db.newFileDB slotCount,fun _ => ⟨.noAuth,0⟩,.empty,[],[],false,[]⟩

def UpdateTokenReq.check (u : UpdateTokenReq) : Outcome Unit :=
  if u.uid = [] then .error "uid不能为空！"
  else if u.token = [] then .error "token不能为空！"
  else .ok ()

structure SessionKeys where
  aesKey : Bytes
  aesIV : Bytes
  serverKey : Bytes

def checkToken (opts : Options) (db : Db.FileDB) (p : ConnectPacket) :
    Outcome (ReasonCode ⊕ UInt8) :=
  if opts.mode = testMode then .ok (.inr deviceLevelMaster)
  else
    match db.getUserToken p.uid p.deviceFlag with
    | .error _ => .ok (.inl reasonError)
    | .panic e => .panic e
    | .ok (token,deviceLevel) =>
        if token = p.token then .ok (.inr deviceLevel) else .ok (.inl reasonAuthFail)

def exchangeKeys (crypto : Crypto) (input : TaskInput) (p : ConnectPacket) :
    Outcome (Option SessionKeys) :=
  if 2 < p.version then
    match Base64.decodeString p.clientKey with
    | none => .ok none
    | some clientKeyBytes =>
        if Base64.decodedLen p.clientKey.length < 32 then
          .panic "runtime error: slice bounds out of range"
        else
          let clientPublicKey := (clientKeyBytes ++ List.replicate 32 0).take 32
          let shareKey := crypto.scalarMult input.privateKey clientPublicKey
          .ok (some
            { aesKey := (Md5.hexString (Md5.sum (Base64.encodeToString shareKey))).take 16
              aesIV := input.randomString
              serverKey := Base64.encodeToString (crypto.scalarBaseMult input.privateKey) })
  else .ok (some ⟨[],[],[]⟩)

namespace Server

def write (c : Int64) (frame : Frame) (version : UInt8) (s : Server) : Server :=
  { s with outbound := s.outbound ++ [(c,encodePacket frame version)] }

def writePacket (c : Int64) (frame : Frame) (s : Server) : Server :=
  s.write c frame (s.conns c).version

def writeConnack (c : Int64) (timeDiff : Int64) (code : ReasonCode) (s : Server) : Server :=
  s.writePacket c (.connack ⟨{},[],[],timeDiff,code⟩)

def setVersion (c : Int64) (version : UInt8) (s : Server) : Server :=
  { s with conns := Function.update s.conns c { s.conns c with version := version } }

def setStatus (c : Int64) (status : ConnStatus) (s : Server) : Server :=
  { s with conns := Function.update s.conns c { s.conns c with status := status } }

def kickOldClient (p : ConnectPacket) (s : Server) : Server :=
  match s.clientManager.getClientWith p.uid p.deviceFlag with
  | none => s
  | some oldClient =>
      write oldClient.conn (.disconnect ⟨{},0,Bytes.ofString "Account login on other devices"⟩)
        p.version { s with clientManager := s.clientManager.remove oldClient.getID }

def addClient (client : Client) (p : ConnectPacket) (s : Server) : Server :=
  { s with
    clientManager := s.clientManager.add client
    trace := .clientAdded client p :: s.trace }

def register (input : TaskInput) (c : Int64) (p : ConnectPacket) (deviceLevel : UInt8)
    (keys : SessionKeys) (s : Server) : Server :=
  let client : Client := ⟨c,p.uid,p.deviceFlag,deviceLevel,keys.aesKey,keys.aesIV⟩
  (((s.kickOldClient p).setStatus c .authed).addClient client p).writePacket c
    (.connack ⟨{},keys.serverKey,keys.aesIV,input.now - p.clientTimestamp,reasonSuccess⟩)

def finishConnect (crypto : Crypto) (input : TaskInput) (c : Int64) (p : ConnectPacket)
    (deviceLevel : UInt8) : Exec Server Unit := fun s =>
  match exchangeKeys crypto input p with
  | .ok (some keys) => (.ok (),s.register input c p deviceLevel keys)
  | .ok none => (.ok (),s.writeConnack c 0 reasonAuthFail)
  | .error e => (.error e,s)
  | .panic e => (.panic e,s)

def handleConnect (opts : Options) (crypto : Crypto) (input : TaskInput) (c : Int64)
    (p : ConnectPacket) : Exec Server Unit := fun s =>
  if opts.isCluster ∧ opts.getNode p.uid = none then (.ok (),s)
  else if opts.isCluster ∧ opts.getNode p.uid ≠ some opts.nodeID then
    (.ok (),s.writeConnack c 0 reasonUserNotOnNode)
  else
    let s := s.setVersion c p.version
    match checkToken opts s.db p with
    | .ok (.inr deviceLevel) => finishConnect crypto input c p deviceLevel s
    | .ok (.inl code) => (.ok (),s.writeConnack c 0 code)
    | .error e => (.error e,s)
    | .panic e => (.panic e,s)

def handleDisconnect (c : Int64) (s : Server) : Server :=
  match s.clientManager.get c with
  | none => s
  | some _ => { s with clientManager := s.clientManager.remove c }

def submit (task : Task) (s : Server) : Server := { s with messagePool := s.messagePool ++ [task] }

def handlePacket (c : Int64) (s : Server) : Frame → Server
  | .connect p => s.submit (.connect c p)
  | .ping _ =>
      match s.clientManager.get c with
      | none => s
      | some client => s.writePacket client.conn (.pong none)
  | .send p =>
      match s.clientManager.get c with
      | none => s
      | some client => s.submit (.send client p)
  | _ => s

def onPacket (c : Int64) (data : Bytes) (s : Server) : Server :=
  let r := onPacketLoop packetDecodeMap (s.conns c).status (s.conns c).version data
    (data.length + 1) 0 []
  match r.state with
  | .done => (r.packets.filterMap id).foldl (handlePacket c) s
  | .closed => s
  | _ => { s with crashed := true }

def updateToken (req : UpdateTokenReq) (s : Server) : Server :=
  match req.check with
  | .ok () =>
      match s.db.updateUserToken (Json.utf8 req.uid) req.deviceFlag req.deviceLevel req.token with
      | .ok db =>
          let s := { s with
            db := db
            trace := .tokenStored (Json.utf8 req.uid) req.deviceFlag (Json.utf8 req.token) ::
              s.trace }
          match s.clientManager.getClientWith (Json.utf8 req.uid) req.deviceFlag with
          | none => s
          | some oldClient =>
              s.writePacket oldClient.conn
                (.disconnect ⟨{},0,Bytes.ofString "账号在其他设备上登录"⟩)
      | _ => s
  | _ => s

def runTask (opts : Options) (crypto : Crypto) (input : TaskInput) (index : Nat) (s : Server) :
    Server :=
  match s.messagePool[index]? with
  | none => s
  | some (.connect c p) =>
      (handleConnect opts crypto input c p
        { s with messagePool := s.messagePool.eraseIdx index }).2
  | some (.send client p) =>
      { s with
        messagePool := s.messagePool.eraseIdx index
        trace := .handleSend client p :: s.trace }

def step (opts : Options) (crypto : Crypto) (s : Server) (e : ServerEvent) : Server :=
  if s.crashed then s
  else
    match e with
    | .updateToken req => s.updateToken req
    | .packet c data => s.onPacket c data
    | .task index input => s.runTask opts crypto input index
    | .close c => s.handleDisconnect c

end Server
end LiMaoIM.Lim

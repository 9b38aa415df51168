import LiMaoIM.Foundation.BufWriter
import LiMaoIM.Lim.Connect
import LiMaoIM.Lim.VerityString
import LiMaoIM.Util.AesRoundTrip
import LiMaoIM.Sdk.Wait

namespace LiMaoIM.Sdk

open Outcome Proto Lim

structure Options where
  protoVersion : UInt8
  uid : Bytes
  token : Bytes

structure SendOptions where
  noPersist : Bool := false
  syncOnce : Bool := false
  flush : Bool := true
  redDot : Bool := true

def app : DeviceFlag := 0

structure Client where
  opts : Options
  hasOnRecv : Bool
  sending : List SendPacket
  clientIDGen : UInt64
  clientPrivKey : Bytes
  aesKey : Bytes
  salt : Bytes
  wait : Wait Nat
  connected : Bool
  closed : Bool
  rw : BufWriter
  written : List Frame
  retryPingCount : Nat
  sendTotalMsgBytes : Int64
  recvMsgCount : Int64
  sendFailMsgCount : Int64

def Client.new (opts : Options) (hasOnRecv : Bool) : Client :=
  ⟨opts,hasOnRecv,[],0,[],[],[],.new,false,true,.new,[],0,0,0,0⟩

def onConn (x : Bool → Exec BufWriter Unit) : Exec Client Unit := fun c =>
  ((x c.closed c.rw).1,{ c with rw := (x c.closed c.rw).2 })

def flush : Exec Client Unit := onConn BufWriter.flush

def sendPacket (packet : Frame) : Exec Client Unit := do
  let c ← Exec.get
  let data := encodePacket packet c.opts.protoVersion
  Exec.modify fun c =>
    { c with sendTotalMsgBytes := c.sendTotalMsgBytes + Int64.ofNat data.length }
  onConn fun closed => BufWriter.write closed data
  Exec.modify fun c => { c with written := c.written ++ [packet] }

inductive Kind where
  | sendMessage (opts : SendOptions)
  | sendMessageSync

def Kind.framer : Kind → Framer
  | .sendMessage opts =>
      { ({ noPersist := opts.noPersist, syncOnce := opts.syncOnce, redDot := opts.redDot } : Framer)
        with redDot := true }
  | .sendMessageSync => { redDot := true }

structure Channel where
  channelID : Bytes
  channelType : UInt8

def buildPacket (kind : Kind) (channel : Channel) (payload clientMsgNo : Bytes) :
    Exec Client SendPacket := do
  let c ← Exec.get
  let encPayload ← Exec.lift (Util.aesEncryptPkcs7Base64 Aes.cbc payload c.aesKey c.salt)
  let clientSeq ← Exec.state fun c =>
    (c.clientIDGen + 1,{ c with clientIDGen := c.clientIDGen + 1 })
  let packet : SendPacket :=
    ⟨kind.framer,{},[],clientSeq,clientMsgNo,channel.channelID,channel.channelType,encPayload⟩
  let actMsgKey ← Exec.lift
    (Util.aesEncryptPkcs7Base64 Aes.cbc (sendVerityString packet) c.aesKey c.salt)
  pure { packet with msgKey := md5 actMsgKey }

def connectPacket (crypto : Crypto) (opts : Options) (privateKey : Bytes) (now : Int64) :
    ConnectPacket where
  version := opts.protoVersion
  clientKey := Base64.encodeToString (crypto.scalarBaseMult privateKey)
  deviceID := []
  deviceFlag := app
  clientTimestamp := now
  uid := opts.uid
  token := opts.token

def dial (crypto : Crypto) (privateKey : Bytes) (now : Int64) : Exec Client Unit := do
  let c ← Exec.get
  Exec.modify fun c =>
    { c with closed := false, rw := .new, written := [], clientPrivKey := privateKey }
  sendPacket (.connect (connectPacket crypto c.opts privateKey now))
  flush

def sendAll : List SendPacket → Exec Client Unit
  | [] => pure ()
  | packet :: packets => do
      let _ ← Exec.attempt (sendPacket (.send packet))
      sendAll packets

def shareKeys (crypto : Crypto) (serverKey : Bytes) : Exec Client Unit := do
  match Base64.decodeString serverKey with
  | none => Exec.lift (.error Util.corruptInput)
  | some serverKeyBytes =>
      if Base64.decodedLen serverKey.length < 32 then
        Exec.lift (.panic Util.sliceBoundsOutOfRange)
      else do
        let c ← Exec.get
        let serverPubKey := (serverKeyBytes ++ List.replicate 32 0).take 32
        let shareKey := crypto.scalarMult c.clientPrivKey serverPubKey
        Exec.modify fun c =>
          { c with
            aesKey := (md5 (Base64.encodeToString shareKey)).take 16
            connected := true }

def handleConnack (crypto : Crypto) (frame : Frame) : Exec Client Unit :=
  match frame with
  | .connack connack =>
      if connack.reasonCode ≠ reasonSuccess then Exec.lift (.error "连接失败！")
      else do
        let c ← Exec.get
        sendAll c.sending
        Exec.modify fun c => { c with salt := connack.salt }
        shareKeys crypto connack.serverKey
  | _ => Exec.lift (.error "返回包类型有误！不是连接回执包！")

def handleClose : Exec Client Unit := Exec.modify fun c =>
  if c.connected then { c with connected := false, closed := true } else c

def ping : Exec Client Unit := do
  let _ ← Exec.attempt (sendPacket (.ping none))

def loopPing : Exec Client Unit := do
  let c ← Exec.get
  if 3 ≤ c.retryPingCount then Exec.modify fun c => { c with closed := true }
  else do
    ping
    Exec.modify fun c => { c with retryPingCount := c.retryPingCount + 1 }

inductive CallResult where
  | sent
  | failed (e : String)
  | acked (sendack : SendackPacket)
  | disconnected
  | timeout

inductive Stage where
  | built
  | listed
  | waiting
  | returned (result : CallResult)

structure Call where
  kind : Kind
  packet : SendPacket
  payload : Bytes
  stage : Stage
  resultChan : Option (Option SendackPacket)

structure Session where
  client : Client
  calls : List Call
  received : List RecvPacket
  disconnected : Bool

def transmit (call : Call) : Exec Client Unit :=
  match call.kind with
  | .sendMessage opts => do
      sendPacket (.send call.packet)
      if opts.flush then flush else pure ()
  | .sendMessageSync => sendPacket (.send call.packet)

namespace Session

def new (opts : Options) (hasOnRecv : Bool) : Session := ⟨.new opts hasOnRecv,[],[],false⟩

def settle {α : Type} (s : Session) (x : Exec Client α) : Outcome Session :=
  match x s.client with
  | (.ok _,client) => .ok { s with client := client }
  | (.error _,client) => .ok { s with client := client }
  | (.panic e,_) => .panic e

def setStage (i : Nat) (stage : Stage) (s : Session) : Session :=
  { s with calls := s.calls.modify i fun call => { call with stage := stage } }

def fill (x : Option SendackPacket) (i : Nat) (s : Session) : Session :=
  { s with calls := s.calls.modify i fun call => { call with resultChan := some x } }

def trigger (id : UInt64) (x : Option SendackPacket) (s : Session) : Session :=
  match s.client.wait.trigger id with
  | (none,wait) => { s with client := { s.client with wait := wait } }
  | (some i,wait) => fill x i { s with client := { s.client with wait := wait } }

def start (s : Session) (kind : Kind) (channel : Channel) (payload clientMsgNo : Bytes) :
    Outcome Session :=
  match buildPacket kind channel payload clientMsgNo s.client with
  | (.ok packet,client) =>
      .ok { s with client := client, calls := s.calls ++ [⟨kind,packet,payload,.built,none⟩] }
  | (.error _,client) => .ok { s with client := client }
  | (.panic e,_) => .panic e

def enlist (s : Session) (i : Nat) (call : Call) : Outcome Session :=
  match call.kind with
  | .sendMessage _ =>
      .ok (setStage i .listed { s with
        client := { s.client with sending := s.client.sending ++ [call.packet] } })
  | .sendMessageSync => do
      let wait ← s.client.wait.register call.packet.clientSeq i
      pure (setStage i .listed { s with client := { s.client with wait := wait } })

def write (s : Session) (i : Nat) (call : Call) : Outcome Session :=
  match transmit call s.client,call.kind with
  | (.ok _,client), .sendMessage _ => .ok (setStage i (.returned .sent) { s with client := client })
  | (.ok _,client), .sendMessageSync => .ok (setStage i .waiting { s with client := client })
  | (.error e,client), .sendMessage _ =>
      .ok (setStage i (.returned (.failed e)) { s with client := client })
  | (.error e,client), .sendMessageSync =>
      .ok (trigger call.packet.clientSeq none
        (setStage i (.returned (.failed e)) { s with client := client }))
  | (.panic e,_), _ => .panic e

inductive Cause where
  | result
  | disconnected
  | timeout

def nilSendack : String :=
  "interface conversion: interface {} is nil, not *lmproto.SendackPacket"

def wake (s : Session) (i : Nat) (call : Call) : Cause → Outcome Session
  | .result =>
      match call.resultChan with
      | none => .ok s
      | some none => .panic nilSendack
      | some (some sendack) => .ok (s.setStage i (.returned (.acked sendack)))
  | .disconnected =>
      if s.disconnected then .ok (s.setStage i (.returned .disconnected)) else .ok s
  | .timeout => .ok (s.setStage i (.returned .timeout))

def countFailure (packet : SendackPacket) (s : Session) : Session :=
  if packet.reasonCode ≠ reasonSuccess then
    { s with client := { s.client with sendFailMsgCount := s.client.sendFailMsgCount + 1 } }
  else s

def wakeCaller (packet : SendackPacket) (s : Session) : Session :=
  if s.client.wait.isRegistered packet.clientSeq then s.trigger packet.clientSeq (some packet)
  else s

def handleSendackPacket (s : Session) (packet : SendackPacket) : Session :=
  let s := wakeCaller packet (countFailure packet s)
  { s with
    client := { s.client with
      sending := s.client.sending.eraseP fun p => p.clientSeq = packet.clientSeq } }

def ackRecv (packet : RecvPacket) : Exec Client Unit :=
  sendPacket (.recvack ⟨packet.framer,packet.messageID,packet.messageSeq⟩)

def handleRecvPacket (s : Session) (packet : RecvPacket) : Outcome Session :=
  let s := { s with client := { s.client with recvMsgCount := s.client.recvMsgCount + 1 } }
  if s.client.hasOnRecv then
    match Util.aesDecryptPkcs7Base64 Aes.cbc packet.payload s.client.aesKey s.client.salt with
    | .error e => .panic e
    | .panic e => .panic e
    | .ok decodePayload =>
        let packet := { packet with payload := decodePayload }
        { s with received := s.received ++ [packet] }.settle (ackRecv packet)
  else s.settle (ackRecv packet)

def handlePacket (s : Session) (frame : Frame) : Outcome Session :=
  let s := { s with client := { s.client with retryPingCount := 0 } }
  match frame with
  | .sendack packet => .ok (s.handleSendackPacket packet)
  | .recv packet => s.handleRecvPacket packet
  | _ => .ok s

def disconnect (s : Session) : Outcome Session :=
  if s.disconnected then .panic "close of closed channel"
  else { s with disconnected := true }.settle handleClose

inductive Event where
  | dial (privateKey : Bytes) (now : Int64)
  | connack (frame : Frame)
  | start (kind : Kind) (channel : Channel) (payload clientMsgNo : Bytes)
  | enlist (i : Nat)
  | write (i : Nat)
  | wake (i : Nat) (cause : Cause)
  | receive (frame : Frame)
  | heartbeat
  | flush
  | disconnect
  | lost

def step (crypto : Crypto) (s : Session) : Event → Outcome Session
  | .dial privateKey now => s.settle (dial crypto privateKey now)
  | .connack frame => s.settle (handleConnack crypto frame)
  | .start kind channel payload clientMsgNo => s.start kind channel payload clientMsgNo
  | .enlist i =>
      match s.calls[i]? with
      | some call => match call.stage with
        | .built => s.enlist i call
        | _ => .ok s
      | none => .ok s
  | .write i =>
      match s.calls[i]? with
      | some call => match call.stage with
        | .listed => s.write i call
        | _ => .ok s
      | none => .ok s
  | .wake i cause =>
      match s.calls[i]? with
      | some call => match call.stage with
        | .waiting => s.wake i call cause
        | _ => .ok s
      | none => .ok s
  | .receive frame => s.handlePacket frame
  | .heartbeat => s.settle loopPing
  | .flush => s.settle flush
  | .disconnect => s.disconnect
  | .lost => s.settle handleClose

end Session

end LiMaoIM.Sdk

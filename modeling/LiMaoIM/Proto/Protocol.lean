import LiMaoIM.Proto.Packets

namespace LiMaoIM.Proto

open ByteReader

def maxRemaingLength : UInt32 := 1024 * 1024

abbrev PacketDecodeFunc := Framer → Bytes → UInt8 → Outcome Frame

def decodeFrame {α : Type} (c : α → Frame) (decode : Framer → UInt8 → ByteReader α) :
    PacketDecodeFunc := fun frame data version => do
  let p ← decode frame version data
  pure (c p.1)

def packetDecodeMap : PacketType → Option PacketDecodeFunc
  | .connect => some (decodeFrame .connect decodeConnect)
  | .connack => some (decodeFrame .connack decodeConnack)
  | .send => some (decodeFrame .send decodeSend)
  | .sendack => some (decodeFrame .sendack decodeSendack)
  | .recv => some (decodeFrame .recv decodeRecv)
  | .recvack => some (decodeFrame .recvack decodeRecvack)
  | .disconnect => some (decodeFrame .disconnect decodeDisConnect)
  | _ => none

def packetEncode : Frame → UInt8 → Bytes
  | .connect p, v => encodeConnect p v
  | .connack p, v => encodeConnack p v
  | .send p, v => encodeSend p v
  | .sendack p, v => encodeSendack p v
  | .recv p, v => encodeRecv p v
  | .recvack p, v => encodeRecvack p v
  | .disconnect p, v => encodeDisConnect p v
  | .ping _, _ => []
  | .pong _, _ => []

def PacketType.isPingPong (t : PacketType) : Bool := t = .ping ∨ t = .pong

def encodeVariableLoop : Nat → Nat → Bytes
  | 0, _ => []
  | fuel + 1, size =>
      if size = 0 then []
      else
        let digit := UInt8.ofNat (size % 0x80)
        (if 0 < size / 0x80 then digit ||| 0x80 else digit) ::
          encodeVariableLoop fuel (size / 0x80)

def encodeVariable (size : Nat) : Bytes := encodeVariableLoop 5 size

def multipliers : List Nat := [0,7,14,21]

def decodeLengthLoop : List Nat → Bytes → Nat → Nat → Outcome (Nat × Nat)
  | [], _, rLength, offset => .ok (rLength,offset + 1)
  | _ :: _, [], _, _ => .panic "runtime error: index out of range"
  | multiplier :: ms, digit :: data, rLength, offset =>
      let rLength := rLength ||| ((digit &&& 127).toNat <<< multiplier)
      if digit &&& 128 = 0 then .ok (rLength,offset + 1)
      else decodeLengthLoop ms data rLength (offset + 1)

def decodeLength (data : Bytes) : Outcome (Nat × Nat) := decodeLengthLoop multipliers data 0 0

def encodeFramer (f : Frame) (remainingLength : Nat) : Bytes :=
  if f.getPacketType.isPingPong then [f.getPacketType.toUInt8 <<< 4]
  else toFixHeaderUint8 f.getPacketType f.framer :: encodeVariable remainingLength

def encodePacket (frame : Frame) (version : UInt8) : Bytes :=
  if frame.getPacketType.isPingPong then encodeFramer frame 0
  else
    encodeFramer frame ((packetEncode frame version).length % 2 ^ 32) ++
      packetEncode frame version

def decodeFramer (data : Bytes) : Outcome (Framer × Nat) :=
  match data with
  | [] => .panic "runtime error: index out of range"
  | typeAndFlags :: data =>
      let p := framerFromUint8 typeAndFlags
      if p.packetType.isPingPong then .ok (p,0)
      else do
        let (remainingLength,remainingLengthLength) ← decodeLength data
        pure ({ p with remainingLength := UInt32.ofNat remainingLength },remainingLengthLength)

def decodeBody (decodeMap : PacketType → Option PacketDecodeFunc) (framer : Framer) (body : Bytes)
    (version : UInt8) : Outcome Frame :=
  match decodeMap framer.packetType with
  | none => .error ("不支持对[" ++ framer.packetType.string ++ "]包的解码！")
  | some decodeFunc => (decodeFunc framer body version).mapError
      (fun e => "解码包[" ++ framer.packetType.string ++ "]失败！: " ++ e)

def decodePacketWith (decodeMap : PacketType → Option PacketDecodeFunc) (data : Bytes)
    (version : UInt8) : Outcome (Option Frame × Nat) := do
  let (framer,remainingLengthLength) ← decodeFramer data
  if framer.packetType = .ping then pure (some (.ping none),1)
  else if framer.packetType = .pong then pure (some (.pong none),1)
  else if maxRemaingLength < framer.remainingLength then
    .error ("消息超出最大限制[" ++ toString maxRemaingLength.toNat ++ "]！")
  else
    let msgLen := framer.remainingLength.toNat + 1 + remainingLengthLength
    if data.length < msgLen then pure (none,0)
    else
      let body := (data.take msgLen).drop (1 + remainingLengthLength)
      let frame ← decodeBody decodeMap framer body version
      pure (some frame,1 + remainingLengthLength + framer.remainingLength.toNat)

def decodePacket (data : Bytes) (version : UInt8) : Outcome (Option Frame × Nat) :=
  decodePacketWith packetDecodeMap data version

def readFull (n : Nat) : ByteReader Bytes := fun bs =>
  if n ≤ bs.length then .ok (bs.take n,bs.drop n)
  else if bs = [] then .error "EOF"
  else .error "unexpected EOF"

def decodeLengthWithConnLoop : List Nat → UInt8 → Nat → Bytes → Nat × Bytes
  | [], _, rLength, conn => (rLength,conn)
  | multiplier :: ms, b, rLength, conn =>
      let digit := conn.headD b
      let rLength := rLength ||| ((digit &&& 127).toNat <<< multiplier)
      if digit &&& 128 = 0 then (rLength,conn.tail)
      else decodeLengthWithConnLoop ms digit rLength conn.tail

def decodeLengthWithConn : ByteReader Nat := fun conn =>
  .ok (decodeLengthWithConnLoop multipliers 0 0 conn)

def decodeFramerWithConn : ByteReader Framer := do
  let b ← readFull 1
  let p := framerFromUint8 (b.headD 0)
  if p.packetType.isPingPong then pure p
  else do
    let remainingLength ← decodeLengthWithConn
    pure { p with remainingLength := UInt32.ofNat remainingLength }

def decodePacketWithConn (version : UInt8) : ByteReader Frame := do
  let framer ← decodeFramerWithConn
  if framer.packetType = .ping then pure (.ping none)
  else if framer.packetType = .pong then pure (.pong none)
  else if maxRemaingLength < framer.remainingLength then
    lift (.panic ("消息超出最大限制[" ++ toString maxRemaingLength.toNat ++ "]！"))
  else do
    let body ← readFull framer.remainingLength.toNat
    lift (decodeBody packetDecodeMap framer body version)

end LiMaoIM.Proto

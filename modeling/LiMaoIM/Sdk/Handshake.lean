import LiMaoIM.Foundation.Run
import LiMaoIM.Lim.Authentication
import LiMaoIM.Proto.RoundTrip
import LiMaoIM.Sdk.Wire

namespace LiMaoIM.Sdk

open Outcome Proto Lim

structure Agrees (crypto : Crypto) : Prop where
  commutes : ∀ a b, a.length = 32 → b.length = 32 →
    crypto.scalarMult a (crypto.scalarBaseMult b) = crypto.scalarMult b (crypto.scalarBaseMult a)
  length : ∀ a, a.length = 32 → (crypto.scalarBaseMult a).length = 32

def publicKey (crypto : Crypto) (a : Bytes) : Bytes :=
  Base64.encodeToString (crypto.scalarBaseMult a)

def sessionKey (crypto : Crypto) (a b : Bytes) : Bytes :=
  (md5 (Base64.encodeToString (crypto.scalarMult a (crypto.scalarBaseMult b)))).take 16

section Keys

variable {crypto : Crypto} (hc : Agrees crypto) {a : Bytes} (ha : a.length = 32)

include hc ha

theorem length_publicKey : (publicKey crypto a).length = 44 := by
  rw [publicKey,Base64.length_encodeToString,hc.length a ha]

theorem decodedLen_publicKey : ¬ Base64.decodedLen (publicKey crypto a).length < 32 := by
  rw [length_publicKey hc ha]
  decide

theorem take_publicKey :
    (crypto.scalarBaseMult a ++ List.replicate 32 0).take 32 = crypto.scalarBaseMult a :=
  List.take_left' (hc.length a ha)

theorem exchangeKeys_agrees {input : TaskInput} (hinput : input.privateKey.length = 32)
    {p : ConnectPacket} {keys : SessionKeys} (hversion : 2 < p.version)
    (hkey : p.clientKey = publicKey crypto a)
    (h : exchangeKeys crypto input p = .ok (some keys)) :
    keys = ⟨sessionKey crypto a input.privateKey,input.randomString,
      publicKey crypto input.privateKey⟩ := by
  have hlen := decodedLen_publicKey hc ha
  rw [exchangeKeys,if_pos hversion,hkey] at h
  rw [publicKey] at h hlen
  rw [Base64.decodeString_encodeToString] at h
  simp only at h
  rw [if_neg hlen,take_publicKey hc ha,hc.commutes input.privateKey a hinput ha] at h
  exact (Option.some.inj (Outcome.ok.inj h)).symm

theorem handleConnack_agrees {connack : ConnackPacket}
    (hsuccess : connack.reasonCode = reasonSuccess)
    (hkey : connack.serverKey = publicKey crypto a) (c : Client) :
    ∃ c', handleConnack crypto (.connack connack) c = (.ok (),c') ∧ c'.connected = true ∧
      c'.salt = connack.salt ∧ c'.aesKey = sessionKey crypto c.clientPrivKey a := by
  obtain ⟨c₁,hall,-⟩ := sendAll_spec c.sending c
  have hoff : OffWire Client.clientPrivKey := ⟨fun _ _ => rfl,fun _ _ => rfl,fun _ _ => rfl⟩
  have hprivate : c₁.clientPrivKey = c.clientPrivKey := by
    have hview := hoff.leaves_sendAll c.sending c
    rwa [hall] at hview
  have hrun : handleConnack crypto (.connack connack) c =
      shareKeys crypto connack.serverKey { c₁ with salt := connack.salt } := by
    rw [handleConnack,if_neg (not_not.mpr hsuccess),Exec.get_bind,Exec.bind_of_ok hall]
    rfl
  have hlen := decodedLen_publicKey hc ha
  rw [hrun,shareKeys,hkey]
  rw [publicKey] at hlen ⊢
  rw [Base64.decodeString_encodeToString]
  simp only
  rw [if_neg hlen,take_publicKey hc ha,Exec.get_bind]
  refine ⟨_,rfl,rfl,rfl,?_⟩
  rw [sessionKey,← hprivate]

end Keys

theorem length_writeString (str : Bytes) : (Encoder.writeString str).length = 2 + str.length := by
  rw [Encoder.writeString,Encoder.writeBinary]
  split
  · rename_i hempty
    rw [hempty]
    exact Bytes.length_putUint 2 0
  · rw [List.length_append]
    exact congrArg (· + str.length) (Bytes.length_putUint 2 _)

theorem connack_withinLimits {v : UInt8} (hv : 2 < v) {p : ConnackPacket}
    (hkey : p.serverKey.length = 44) (hsalt : p.salt.length = 16) :
    Frame.WithinLimits v (.connack p) := by
  constructor
  · rw [Frame.carriedStrings,if_pos hv]
    intro s hs
    rcases List.mem_cons.mp hs with rfl | hs
    · omega
    · obtain rfl := List.mem_singleton.mp hs
      omega
  · have hlen : (packetEncode (.connack p) v).length = 73 := by
      rw [packetEncode,encodeConnack,if_pos hv,if_pos hv]
      simp only [List.length_append,length_writeString,hkey,hsalt]
      rw [Encoder.writeInt64,Bytes.length_putUint,Encoder.writeUint8]
      rfl
    rw [hlen]
    decide

structure Derives (crypto : Crypto) (s : Server) (client : Lim.Client) (p : ConnectPacket) :
    Prop where
  answered : ∃ data, (client.conn,data) ∈ s.outbound ∧ ∀ (c : Client) (rest : Bytes),
    c.clientPrivKey.length = 32 → p.clientKey = publicKey crypto c.clientPrivKey →
    ∃ connack c', decodePacketWithConn p.version (data ++ rest) = .ok (.connack connack,rest) ∧
      handleConnack crypto (.connack connack) c = (.ok (),c') ∧ c'.connected = true ∧
      c'.aesKey = client.aesKey ∧ c'.salt = client.aesIV

theorem Derives.mono {crypto : Crypto} {s s' : Server} {client : Lim.Client} {p : ConnectPacket}
    (h : Derives crypto s client p) (ho : s.outbound ⊆ s'.outbound) :
    Derives crypto s' client p := by
  obtain ⟨data,hmem,hrest⟩ := h.answered
  exact ⟨data,ho hmem,hrest⟩

structure Quiet (s s' : Server) : Prop where
  outbound : s.outbound ⊆ s'.outbound
  added : ∀ client p, .clientAdded client p ∈ s'.trace → .clientAdded client p ∈ s.trace

variable {s s' s'' : Server} {crypto : Crypto}

theorem Quiet.refl (s : Server) : Quiet s s := ⟨List.Subset.refl _,fun _ _ h => h⟩

theorem Quiet.trans (h : Quiet s s') (h' : Quiet s' s'') : Quiet s s'' :=
  ⟨fun _ hx => h'.outbound (h.outbound hx),
    fun client p hp => h.added client p (h'.added client p hp)⟩

theorem quiet_of (houtbound : s'.outbound = s.outbound) (htrace : s'.trace = s.trace) :
    Quiet s s' := by
  refine ⟨?_,fun client p hp => ?_⟩
  · rw [houtbound]
    exact List.Subset.refl _
  · rwa [htrace] at hp

theorem quiet_write (c : Int64) (frame : Frame) (version : UInt8) (s : Server) :
    Quiet s (s.write c frame version) := ⟨List.subset_append_left _ _,fun _ _ h => h⟩

theorem quiet_writePacket (c : Int64) (frame : Frame) (s : Server) :
    Quiet s (s.writePacket c frame) := quiet_write c frame _ s

theorem quiet_kickOldClient (p : ConnectPacket) (s : Server) : Quiet s (s.kickOldClient p) := by
  rw [Server.kickOldClient]
  split
  · exact .refl s
  · rename_i oldClient _
    have hremoved : Quiet s { s with clientManager := s.clientManager.remove oldClient.getID } :=
      quiet_of rfl rfl
    exact hremoved.trans (quiet_write _ _ _ _)

theorem conns_kickOldClient (p : ConnectPacket) (s : Server) :
    (s.kickOldClient p).conns = s.conns := by
  rw [Server.kickOldClient]
  split
  · rfl
  · rfl

theorem quiet_handlePacket (c : Int64) (frame : Frame) (s : Server) :
    Quiet s (s.handlePacket c frame) := by
  cases frame with
  | connect p => exact quiet_of rfl rfl
  | ping f =>
    rw [Server.handlePacket]
    split
    · exact .refl s
    · exact quiet_writePacket _ _ s
  | send p =>
    rw [Server.handlePacket]
    split
    · exact .refl s
    · exact quiet_of rfl rfl
  | _ => exact .refl s

theorem quiet_handlePackets (c : Int64) (frames : List Frame) (s : Server) :
    Quiet s (frames.foldl (Server.handlePacket c) s) := by
  induction frames generalizing s with
  | nil => exact .refl s
  | cons frame frames ih => exact (quiet_handlePacket c frame s).trans (ih _)

theorem quiet_onPacket (c : Int64) (data : Bytes) (s : Server) : Quiet s (s.onPacket c data) := by
  rw [Server.onPacket]
  split
  · exact quiet_handlePackets c _ s
  · exact .refl s
  · exact quiet_of rfl rfl

theorem quiet_handleDisconnect (c : Int64) (s : Server) : Quiet s (s.handleDisconnect c) := by
  rw [Server.handleDisconnect]
  split
  · exact .refl s
  · exact quiet_of rfl rfl

theorem quiet_tokenStored (s : Server) (uid token : Bytes) (flag : DeviceFlag) (db : Db.FileDB) :
    Quiet s { s with db := db, trace := .tokenStored uid flag token :: s.trace } := by
  refine ⟨List.Subset.refl _,fun client p hp => ?_⟩
  rcases List.mem_cons.mp hp with heq | hp
  · cases heq
  · exact hp

theorem quiet_updateToken (req : UpdateTokenReq) (s : Server) : Quiet s (s.updateToken req) := by
  rw [Server.updateToken]
  split
  · split
    · simp only
      split
      · exact quiet_tokenStored s _ _ _ _
      · exact (quiet_tokenStored s _ _ _ _).trans (quiet_writePacket _ _ _)
    · exact .refl s
  · exact .refl s

def Agreed (crypto : Crypto) (s : Server) : Prop :=
  ∀ client p, .clientAdded client p ∈ s.trace → 2 < p.version → Derives crypto s client p

theorem Agreed.quiet (h : Agreed crypto s) (hq : Quiet s s') : Agreed crypto s' :=
  fun client p hp hversion => (h client p (hq.added client p hp) hversion).mono hq.outbound

theorem register_derives (hc : Agrees crypto) {input : TaskInput}
    (hprivate : input.privateKey.length = 32) (hrandom : input.randomString.length = 16)
    {c : Int64} {p : ConnectPacket} (hversion : 2 < p.version) (deviceLevel : UInt8)
    {keys : SessionKeys} (hkeys : exchangeKeys crypto input p = .ok (some keys)) (s : Server)
    (hconn : (s.conns c).version = p.version) :
    Derives crypto (s.register input c p deviceLevel keys)
      ⟨c,p.uid,p.deviceFlag,deviceLevel,keys.aesKey,keys.aesIV⟩ p := by
  let connack : ConnackPacket :=
    ⟨{},keys.serverKey,keys.aesIV,input.now - p.clientTimestamp,reasonSuccess⟩
  have hwritten : (c,encodePacket (.connack connack) p.version) ∈
      (s.register input c p deviceLevel keys).outbound := by
    have hver : ((((s.kickOldClient p).setStatus c .authed).addClient
        ⟨c,p.uid,p.deviceFlag,deviceLevel,keys.aesKey,keys.aesIV⟩ p).conns c).version =
          p.version := by
      show (Function.update (s.kickOldClient p).conns c _ c).version = p.version
      rw [Function.update_self,conns_kickOldClient]
      exact hconn
    rw [Server.register,Server.writePacket,hver]
    exact List.mem_append_right _ (List.mem_singleton_self _)
  refine ⟨_,hwritten,fun client rest hlen hkey => ?_⟩
  obtain rfl := exchangeKeys_agrees hc hlen hprivate hversion hkey hkeys
  have hlimits : Frame.WithinLimits p.version (.connack connack) :=
    connack_withinLimits hversion (length_publicKey hc hprivate) hrandom
  have hread := reads_decodePacketWithConn p.version (.connack connack) hlimits rest
  rw [Frame.decodedForm,Frame.carry,if_pos hversion,if_pos hversion] at hread
  let arrived : ConnackPacket := { connack with framer := { connack.framer with
    packetType := .connack
    remainingLength := UInt32.ofNat (packetEncode (.connack connack) p.version).length } }
  have hsuccess : arrived.reasonCode = reasonSuccess := rfl
  obtain ⟨c',hrun,hconnected,hsalt,haes⟩ := handleConnack_agrees hc hprivate hsuccess rfl client
  exact ⟨arrived,c',hread,hrun,hconnected,haes,hsalt⟩

theorem outbound_register (input : TaskInput) (c : Int64) (p : ConnectPacket)
    (deviceLevel : UInt8) (keys : SessionKeys) (s : Server) :
    s.outbound ⊆ (s.register input c p deviceLevel keys).outbound :=
  fun _ hx => List.mem_append_left _ ((quiet_kickOldClient p s).outbound hx)

theorem Agreed.register (h : Agreed crypto s) (hc : Agrees crypto) {input : TaskInput}
    (hprivate : input.privateKey.length = 32) (hrandom : input.randomString.length = 16)
    {c : Int64} {p : ConnectPacket} (deviceLevel : UInt8) {keys : SessionKeys}
    (hkeys : exchangeKeys crypto input p = .ok (some keys))
    (hconn : (s.conns c).version = p.version) :
    Agreed crypto (s.register input c p deviceLevel keys) := by
  intro client q hq hversion
  rcases List.mem_cons.mp hq with heq | hq
  · obtain ⟨rfl,rfl⟩ := TraceEvent.clientAdded.inj heq
    exact register_derives hc hprivate hrandom hversion deviceLevel hkeys s hconn
  · have hold := (quiet_kickOldClient p s).added client q hq
    exact (h client q hold hversion).mono (outbound_register input c p deviceLevel keys s)

theorem Agreed.handleConnect (h : Agreed crypto s) (hc : Agrees crypto) (opts : Lim.Options)
    {input : TaskInput} (hprivate : input.privateKey.length = 32)
    (hrandom : input.randomString.length = 16) (c : Int64) (p : ConnectPacket) :
    Agreed crypto (Server.handleConnect opts crypto input c p s).2 := by
  have hversioned : Agreed crypto (s.setVersion c p.version) := h.quiet (quiet_of rfl rfl)
  have hconn : ((s.setVersion c p.version).conns c).version = p.version := by
    show (Function.update s.conns c _ c).version = p.version
    rw [Function.update_self]
  rw [Server.handleConnect]
  split
  · exact h
  · split
    · exact h.quiet (quiet_writePacket _ _ _)
    · simp only
      split
      · rename_i deviceLevel _
        rw [Server.finishConnect]
        split
        · rename_i keys hkeys
          exact hversioned.register hc hprivate hrandom deviceLevel hkeys hconn
        · exact hversioned.quiet (quiet_writePacket _ _ _)
        · exact hversioned
        · exact hversioned
      · exact hversioned.quiet (quiet_writePacket _ _ _)
      · exact hversioned
      · exact hversioned

theorem Agreed.runTask (h : Agreed crypto s) (hc : Agrees crypto) (opts : Lim.Options)
    {input : TaskInput} (hprivate : input.privateKey.length = 32)
    (hrandom : input.randomString.length = 16) (index : Nat) :
    Agreed crypto (s.runTask opts crypto input index) := by
  have herased : Agreed crypto { s with messagePool := s.messagePool.eraseIdx index } :=
    h.quiet (quiet_of rfl rfl)
  rw [Server.runTask]
  split
  · exact h
  · exact herased.handleConnect hc opts hprivate hrandom _ _
  · refine h.quiet ⟨List.Subset.refl _,fun client p hp => ?_⟩
    rcases List.mem_cons.mp hp with heq | hp
    · cases heq
    · exact hp

theorem Agreed.step (h : Agreed crypto s) (hc : Agrees crypto) (opts : Lim.Options)
    {e : ServerEvent} (he : ∀ index input, e = .task index input →
      input.privateKey.length = 32 ∧ input.randomString.length = 16) :
    Agreed crypto (s.step opts crypto e) := by
  by_cases hcrashed : s.crashed = true
  · rw [Server.step.eq_def,if_pos hcrashed]
    exact h
  · rw [Server.step.eq_def,if_neg hcrashed]
    cases e with
    | updateToken req => exact h.quiet (quiet_updateToken req s)
    | packet c data => exact h.quiet (quiet_onPacket c data s)
    | task index input =>
      obtain ⟨hprivate,hrandom⟩ := he index input rfl
      exact h.runTask hc opts hprivate hrandom index
    | close c => exact h.quiet (quiet_handleDisconnect c s)

theorem session_keys_agree (hc : Agrees crypto) (opts : Lim.Options) (slotCount : Nat)
    (events : List ServerEvent) (hinputs : ∀ e ∈ events, ∀ index input, e = .task index input →
      input.privateKey.length = 32 ∧ input.randomString.length = 16)
    (hrun : Run.run (serverStep opts crypto) (.initial slotCount) events = .ok s) :
    ∀ client p, .clientAdded client p ∈ s.trace → 2 < p.version → Derives crypto s client p := by
  have hinitial : Agreed crypto (.initial slotCount) :=
    fun _ _ hp => absurd hp List.not_mem_nil
  refine Run.run_all_keeps (Agreed crypto) (fun t e t' ht he hstep => ?_) hinitial hinputs hrun
  obtain rfl := Outcome.ok.inj hstep
  exact ht.step hc opts he

theorem deviceCrypto_agrees : Agrees deviceCrypto := by
  refine ⟨fun _ _ _ _ => rfl,fun a _ => ?_⟩
  rw [deviceCrypto]
  simp only
  split
  · rfl
  · rfl

def deviceLogin : List ServerEvent :=
  [.packet 1 (encodePacket (.connect
      (connectPacket deviceCrypto ⟨4,Bytes.ofString "u",[]⟩ devicePrivateKey 0)) 4),
    .task 0 ⟨0,serverPrivateKey,Bytes.ofString "0123456789abcdef"⟩]

def deviceClient : Lim.Client :=
  ⟨1,Bytes.ofString "u",app,deviceLevelMaster,
    sessionKey deviceCrypto devicePrivateKey serverPrivateKey,Bytes.ofString "0123456789abcdef"⟩

theorem deviceLogin_agrees : ∃ s p,
    Run.run (serverStep ⟨testMode,false,0,fun _ => none⟩ deviceCrypto) (.initial 256) deviceLogin =
        .ok s ∧
      .clientAdded deviceClient p ∈ s.trace ∧
      (2 < p.version → Derives deviceCrypto s deviceClient p) := by
  have hinputs : ∀ e ∈ deviceLogin, ∀ index input, e = .task index input →
      input.privateKey.length = 32 ∧ input.randomString.length = 16 := by
    intro e he index input heq
    subst heq
    rcases List.mem_cons.mp he with he | he
    · cases he
    · obtain ⟨-,rfl⟩ := ServerEvent.task.inj (List.mem_singleton.mp he)
      decide
  have hadded : (deviceLogin.foldl
      (Server.step ⟨testMode,false,0,fun _ => none⟩ deviceCrypto) (.initial 256)).trace.any
        (TraceEvent.addedAs deviceClient) := by
    decide +kernel
  obtain ⟨p,hp⟩ := any_addedAs.mp hadded
  exact ⟨_,p,rfl,hp,session_keys_agree deviceCrypto_agrees _ 256 deviceLogin hinputs rfl _ p hp⟩

end LiMaoIM.Sdk

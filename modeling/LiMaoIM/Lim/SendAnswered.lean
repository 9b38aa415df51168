import LiMaoIM.Proto.RoundTrip
import LiMaoIM.Lim.HandleSend

namespace LiMaoIM.Lim

open Outcome Proto

-- the store and the data source return values or errors
structure Storage (σ : Type) where
  getChannel : Bytes → UInt8 → σ → Except String (Option ChannelInfo) × σ
  getSubscribers : Bytes → UInt8 → σ → Except String (List Bytes) × σ
  getDenylist : Bytes → UInt8 → σ → Except String (List Bytes) × σ
  getAllowlist : Bytes → UInt8 → σ → Except String (List Bytes) × σ
  getNextMessageSeq : Bytes → UInt8 → σ → Except String UInt32 × σ
  appendMessage : Db.Message → σ → Except String Unit × σ
  appendMessageOfNotifyQueue : Db.Message → σ → Except String Unit × σ
  getUserNextMessageSeq : Bytes → σ → Except String UInt32 × σ
  appendMessageOfUser : Db.Message → σ → Except String Unit × σ

structure Datasource (σ : Type) where
  getSubscribers : Bytes → UInt8 → σ → Except String (List Bytes) × σ
  getBlacklist : Bytes → UInt8 → σ → Except String (List Bytes) × σ
  getWhitelist : Bytes → UInt8 → σ → Except String (List Bytes) × σ
  getSystemUIDs : σ → Except String (List Bytes) × σ

structure Standalone (σ : Type) where
  store : σ
  opts : ChannelOptions
  webhookOn : Bool
  systemUIDs : List Bytes
  loaded : Bool
  caches : Cache → List (Bytes × Channel)
  deliveryMsgPool : List Delivery

namespace Standalone

variable {σ α : Type}

def call (f : σ → Except String α × σ) : Exec (Standalone σ) α := fun s =>
  match f s.store with
  | (.ok a,st) => (.ok a,{ s with store := st })
  | (.error e,st) => (.error e,{ s with store := st })

def cached (k : Cache) (channelID : Bytes) (channelType : UInt8) (s : Standalone σ) :
    Option Channel := Assoc.get (channelKey channelID channelType) (s.caches k)

def cache (k : Cache) (channelID : Bytes) (channelType : UInt8) (c : Channel) :
    Exec (Standalone σ) Channel := do
  Exec.modify fun s =>
    { s with
      caches := Function.update s.caches k
        (Assoc.put (channelKey channelID channelType) c (s.caches k)) }
  pure c

variable (storage : Storage σ) (datasource : Option (Datasource σ))

def loadIfNeed : Exec (Standalone σ) Unit :=
  match datasource with
  | none => pure ()
  | some d => do
      let s ← Exec.get
      if s.loaded then pure ()
      else do
        let systemUIDs ← call d.getSystemUIDs
        Exec.modify fun s =>
          { s with loaded := true, systemUIDs := storeAll s.systemUIDs systemUIDs }

def initSubscribers (c : Channel) : Exec (Standalone σ) Channel := do
  let subscribers ← match datasource with
    | some d =>
        if c.info.channelType ≠ channelTypePerson then
          call (d.getSubscribers c.info.channelID c.info.channelType)
        else call (storage.getSubscribers c.info.channelID c.info.channelType)
    | none => call (storage.getSubscribers c.info.channelID c.info.channelType)
  pure { c with subscriberMap := storeAll c.subscriberMap subscribers }

def initBlacklist (c : Channel) : Exec (Standalone σ) Channel := do
  let blacklists ← match datasource with
    | some d => call (d.getBlacklist c.info.channelID c.info.channelType)
    | none => call (storage.getDenylist c.info.channelID c.info.channelType)
  pure { c with blacklist := storeAll c.blacklist blacklists }

def initWhitelist (c : Channel) : Exec (Standalone σ) Channel := do
  let whitelists ← match datasource with
    | some d => call (d.getWhitelist c.info.channelID c.info.channelType)
    | none => call (storage.getAllowlist c.info.channelID c.info.channelType)
  pure { c with whitelist := storeAll c.whitelist whitelists }

def loadData (c : Channel) : Exec (Standalone σ) Channel :=
  if c.info.channelType = channelTypePerson ∧ isFakeChannel c.info.channelID then pure c
  else do
    loadIfNeed datasource
    let c ← initSubscribers storage datasource c
    let c ← initBlacklist storage datasource c
    initWhitelist storage datasource c

def getTmpChannel (channelID : Bytes) (channelType : UInt8) :
    Exec (Standalone σ) (Option Channel) := do
  let s ← Exec.get
  pure (s.cached .tmpChannelMap channelID channelType)

def getPersonChannel (channelID : Bytes) (channelType : UInt8) :
    Exec (Standalone σ) (Option Channel) := do
  let s ← Exec.get
  match s.cached .personChannelMap channelID channelType with
  | some c => pure (some c)
  | none => do
      let c ← loadData storage datasource (newChannel (newChannelInfo channelID channelType))
      let c := if isFakeChannel channelID then
        (channelID.splitOn atSign).foldl Channel.addSubscriber c else c
      let c ← cache .personChannelMap channelID channelType c
      pure (some c)

def getChannel (channelID : Bytes) (channelType : UInt8) : Exec (Standalone σ) (Option Channel) :=
  if isTmpChannel channelID then getTmpChannel channelID channelType
  else if channelType = channelTypePerson then
    getPersonChannel storage datasource channelID channelType
  else do
    let s ← Exec.get
    match s.cached .channelMap channelID channelType with
    | some c => pure (some c)
    | none => do
        let info ← call (storage.getChannel channelID channelType)
        if info.isSome ∨ s.opts.createIfChannelNotExist then do
          let c ← loadData storage datasource
            (newChannel (info.getD (newChannelInfo channelID channelType)))
          let c ← cache .channelMap channelID channelType c
          pure (some c)
        else pure none

def notifyIfNeed (m : Db.Message) : Exec (Standalone σ) Unit := do
  let s ← Exec.get
  if s.webhookOn then call (storage.appendMessageOfNotifyQueue m) else pure ()

def storeToUserQueue (m : Message) (subscriber : Bytes) : Exec (Standalone σ) UInt32 := do
  let seq ← call (storage.getUserNextMessageSeq subscriber)
  call (storage.appendMessageOfUser (queuedMessage m subscriber seq))
  pure seq

def storeMessageToUserQueueIfNeed (m : Message) :
    List Bytes → List (Bytes × UInt32) → Exec (Standalone σ) (List (Bytes × UInt32))
  | [], subscriberSeqMap => pure subscriberSeqMap
  | subscriber :: subscribers, subscriberSeqMap =>
      if m.queued then do
        let seq ← storeToUserQueue storage m subscriber
        storeMessageToUserQueueIfNeed m subscribers (Assoc.put subscriber seq subscriberSeqMap)
      else storeMessageToUserQueueIfNeed m subscribers subscriberSeqMap

def handleLocalSubscribersMessage (m : Message) (subscribers : List Bytes) :
    Exec (Standalone σ) Unit := do
  let subscriberSeqMap ← storeMessageToUserQueueIfNeed storage m subscribers []
  Exec.modify fun s =>
    { s with deliveryMsgPool := s.deliveryMsgPool ++ [⟨m,subscriberSeqMap,subscribers⟩] }

def services : SendServices (Standalone σ) where
  getChannel := getChannel storage datasource
  testMode s := s.opts.testMode
  systemUIDs s := s.systemUIDs
  getNextMessageSeq id ty := call (storage.getNextMessageSeq id ty)
  appendMessage m := call (storage.appendMessage m)
  notifyIfNeed := notifyIfNeed storage
  putMessage c m :=
    Exec.ignoreError () (handleLocalSubscribersMessage storage m (c.recipients m.subscribers))

section Returning

open Exec

theorem call_returns (f : σ → Except String α × σ) : Returns (call f) := by
  intro s e he
  rw [call] at he
  rcases hf : f s.store with ⟨r,st⟩
  rw [hf] at he
  cases r with
  | ok a => cases he
  | error e' => cases he

theorem cache_succeeds (k : Cache) (id : Bytes) (ty : UInt8) (c : Channel) :
    Succeeds (cache k id ty c : Exec (Standalone σ) Channel) :=
  (Succeeds.modify _).bind fun _ => Succeeds.pure c

theorem loadIfNeed_returns : Returns (loadIfNeed datasource) := by
  cases datasource with
  | none => exact (Succeeds.pure ()).returns
  | some d =>
    refine Succeeds.get.returns.bind fun s => ?_
    split
    · exact (Succeeds.pure ()).returns
    · exact (call_returns d.getSystemUIDs).bind fun _ => (Succeeds.modify _).returns

theorem initSubscribers_returns (c : Channel) : Returns (initSubscribers storage datasource c) := by
  cases datasource with
  | none => exact (call_returns _).bind fun _ => (Succeeds.pure _).returns
  | some d =>
    simp only [initSubscribers]
    split
    · exact (call_returns _).bind fun _ => (Succeeds.pure _).returns
    · exact (call_returns _).bind fun _ => (Succeeds.pure _).returns

theorem initBlacklist_returns (c : Channel) : Returns (initBlacklist storage datasource c) := by
  cases datasource with
  | none => exact (call_returns _).bind fun _ => (Succeeds.pure _).returns
  | some d => exact (call_returns _).bind fun _ => (Succeeds.pure _).returns

theorem initWhitelist_returns (c : Channel) : Returns (initWhitelist storage datasource c) := by
  cases datasource with
  | none => exact (call_returns _).bind fun _ => (Succeeds.pure _).returns
  | some d => exact (call_returns _).bind fun _ => (Succeeds.pure _).returns

theorem loadData_returns (c : Channel) : Returns (loadData storage datasource c) := by
  rw [loadData]
  split
  · exact (Succeeds.pure c).returns
  · exact (loadIfNeed_returns datasource).bind fun _ =>
      (initSubscribers_returns storage datasource c).bind fun c =>
        (initBlacklist_returns storage datasource c).bind fun c =>
          initWhitelist_returns storage datasource c

theorem getPersonChannel_returns (id : Bytes) (ty : UInt8) :
    Returns (getPersonChannel storage datasource id ty) := by
  refine Succeeds.get.returns.bind fun s => ?_
  split
  · exact (Succeeds.pure _).returns
  · exact (loadData_returns storage datasource _).bind fun c =>
      ((cache_succeeds _ _ _ _).bind fun _ => Succeeds.pure _).returns

theorem getChannel_returns (id : Bytes) (ty : UInt8) :
    Returns (getChannel storage datasource id ty) := by
  rw [getChannel]
  split
  · exact (Succeeds.get.bind fun s => Succeeds.pure _).returns
  · split
    · exact getPersonChannel_returns storage datasource id ty
    · refine Succeeds.get.returns.bind fun s => ?_
      split
      · exact (Succeeds.pure _).returns
      · refine (call_returns _).bind fun info => ?_
        split
        · exact (loadData_returns storage datasource _).bind fun c =>
            ((cache_succeeds _ _ _ _).bind fun _ => Succeeds.pure _).returns
        · exact (Succeeds.pure _).returns

theorem storeMessageToUserQueueIfNeed_returns (m : Message) (subscribers : List Bytes)
    (seqs : List (Bytes × UInt32)) :
    Returns (storeMessageToUserQueueIfNeed storage m subscribers seqs) := by
  induction subscribers generalizing seqs with
  | nil => exact (Succeeds.pure seqs).returns
  | cons subscriber subscribers ih =>
    rw [storeMessageToUserQueueIfNeed]
    split
    · have hstored : Returns (storeToUserQueue storage m subscriber) :=
        (call_returns _).bind fun _ => (call_returns _).bind fun _ => (Succeeds.pure _).returns
      exact hstored.bind fun seq => ih _
    · exact ih seqs

theorem services_returns : (services storage datasource).Returns where
  getChannel := getChannel_returns storage datasource
  getNextMessageSeq _ _ := call_returns _
  appendMessage _ := call_returns _
  notifyIfNeed m := by
    refine Succeeds.get.returns.bind fun s => ?_
    split
    · exact call_returns _
    · exact (Succeeds.pure ()).returns
  putMessage c m := by
    have hput : Returns (handleLocalSubscribersMessage storage m (c.recipients m.subscribers)) :=
      (storeMessageToUserQueueIfNeed_returns storage m _ []).bind fun _ =>
        (Succeeds.modify _).returns
    exact (hput.ignoreError ()).returns

end Returning
end Standalone

section Answering

variable {σ : Type}

def Answered (svc : SendServices σ) (mode : Aes.BlockMode) (c : Client) (version : UInt8)
    (p : SendPacket) (messageID : Int64) (input : SendInput) (h : Handling σ) : Prop :=
  ∃ ack h', handleSend svc mode c version p messageID input h = (.ok (),h') ∧
    h'.outbound = h.outbound ++ [(c.conn,encodePacket (.sendack ack) version)] ∧
      ack.clientSeq = p.clientSeq ∧ ack.clientMsgNo = p.clientMsgNo

def exceptMsgKey (mode : Aes.BlockMode) (c : Client) (p : SendPacket) : Bytes :=
  md5 (Base64.encodeToString (mode.encrypt c.aesKey c.aesIV
    (Util.pkcs7Padding (sendVerityString p) Aes.blockSize)))

def Answerable (mode : Aes.BlockMode) (c : Client) (version : UInt8) (p : SendPacket) : Prop :=
  2 < version → p.msgKey = exceptMsgKey mode c p →
    ∀ crypted, Base64.decodeString p.payload = some crypted →
      Util.Decrypts mode c.aesKey c.aesIV crypted

variable {svc : SendServices σ} {mode : Aes.BlockMode} {c : Client} {version : UInt8}
  {p : SendPacket} {messageID : Int64} {input : SendInput} {h : Handling σ}

theorem answered_of_write {messageSeq : UInt32} {reasonCode : ReasonCode}
    (hrun : handleSend svc mode c version p messageID input h =
      writeSendack c version p messageID messageSeq reasonCode h) :
    Answered svc mode c version p messageID input h :=
  ⟨_,_,hrun,rfl,rfl,rfl⟩

theorem answered_of_local (hs : svc.Returns) {payload : Bytes}
    (hrun : handleSend svc mode c version p messageID input h =
      handleLocalSend svc c version { p with payload := payload } input h) :
    Answered svc mode c version p messageID input h := by
  obtain ⟨r,s,hsend⟩ := hs.handleSendPacketWithFrom c.uid c.deviceFlag { p with payload := payload }
    input h.services
  have hservices : onServices (svc.handleSendPacketWithFrom c.uid c.deviceFlag
      { p with payload := payload } input) h = (.ok r,{ h with services := s }) := by
    rw [onServices, hsend]
  rw [handleLocalSend, Exec.bind_of_ok hservices] at hrun
  exact ⟨_,_,hrun,rfl,rfl,rfl⟩

theorem not_answered_of_panic {e : String}
    (hrun : handleSend svc mode c version p messageID input h = (.panic e,h)) :
    ¬ Answered svc mode c version p messageID input h := by
  rintro ⟨ack,h',hok,-⟩
  rw [hrun] at hok
  cases hok

theorem handleSend_old (svc : SendServices σ) (mode : Aes.BlockMode) (c : Client) (p : SendPacket)
    (messageID : Int64) (input : SendInput) (hold : ¬ 2 < version) :
    handleSend svc mode c version p messageID input =
      handleLocalSend svc c version { p with payload := p.payload } input := by
  rw [handleSend, if_neg hold]

theorem handleSend_refused (svc : SendServices σ) (messageID : Int64) (input : SendInput)
    (hkey : c.aesKey.length = Aes.blockSize) (hiv : c.aesIV.length = Aes.blockSize)
    (hnew : 2 < version) (hne : p.msgKey ≠ exceptMsgKey mode c p) :
    handleSend svc mode c version p messageID input =
      writeSendack c version p messageID 0 reasonMsgKeyError := by
  rw [exceptMsgKey] at hne
  rw [handleSend, if_pos hnew, Util.aesEncryptPkcs7Base64_ok hkey hiv]
  simp only
  rw [if_pos hne]

theorem handleSend_accepted (svc : SendServices σ) (messageID : Int64) (input : SendInput)
    (hkey : c.aesKey.length = Aes.blockSize) (hiv : c.aesIV.length = Aes.blockSize)
    (hnew : 2 < version) (heq : p.msgKey = exceptMsgKey mode c p) :
    handleSend svc mode c version p messageID input =
      match Util.aesDecryptPkcs7Base64 mode p.payload c.aesKey c.aesIV with
      | .panic e => Exec.lift (.panic e)
      | .error _ => writeSendack c version p messageID 0 reasonPayloadDecodeError
      | .ok payload => handleLocalSend svc c version { p with payload := payload } input := by
  rw [exceptMsgKey] at heq
  rw [handleSend, if_pos hnew, Util.aesEncryptPkcs7Base64_ok hkey hiv]
  exact if_neg (not_not.mpr heq)

theorem answered_iff (hs : svc.Returns) (hkey : c.aesKey.length = Aes.blockSize)
    (hiv : c.aesIV.length = Aes.blockSize) (version : UInt8) (p : SendPacket) (messageID : Int64)
    (input : SendInput) (h : Handling σ) :
    Answered svc mode c version p messageID input h ↔ Answerable mode c version p := by
  rcases Decidable.em (2 < version) with hnew | hold
  · rcases eq_or_ne p.msgKey (exceptMsgKey mode c p) with heq | hne
    · have hrun := handleSend_accepted svc messageID input hkey hiv hnew heq
      rw [Util.aesDecryptPkcs7Base64] at hrun
      cases hdecode : Base64.decodeString p.payload with
      | none =>
        rw [hdecode] at hrun
        refine iff_of_true (answered_of_write (congrFun hrun h)) fun _ _ crypted hcrypted => ?_
        cases hdecode.symm.trans hcrypted
      | some crypted =>
        rw [hdecode] at hrun
        rcases Util.aesDecrypt_returns mode hkey hiv crypted with
          ⟨⟨payload,hok⟩,hdecrypts⟩ | ⟨⟨e,hpanic⟩,hdecrypts⟩
        · simp only [hok] at hrun
          refine iff_of_true (answered_of_local hs (congrFun hrun h)) fun _ _ other hother => ?_
          obtain rfl := Option.some.inj (hdecode.symm.trans hother)
          exact hdecrypts
        · simp only [hpanic] at hrun
          refine iff_of_false (not_answered_of_panic (congrFun hrun h)) fun hanswerable => ?_
          exact hdecrypts (hanswerable hnew heq crypted hdecode)
    · have hrun := handleSend_refused svc messageID input hkey hiv hnew hne
      exact iff_of_true (answered_of_write (congrFun hrun h)) fun _ heq => absurd heq hne
  · have hrun := handleSend_old svc mode c p messageID input hold
    exact iff_of_true (answered_of_local hs (congrFun hrun h)) fun hnew => absurd hnew hold

theorem every_send_answered_iff (storage : Storage σ) (datasource : Option (Datasource σ))
    (mode : Aes.BlockMode) (c : Client) (hkey : c.aesKey.length = Aes.blockSize)
    (hiv : c.aesIV.length = Aes.blockSize) (version : UInt8) (p : SendPacket) (messageID : Int64)
    (input : SendInput) (h : Handling (Standalone σ)) :
    Answered (Standalone.services storage datasource) mode c version p messageID input h ↔
      Answerable mode c version p :=
  answered_iff (Standalone.services_returns storage datasource) hkey hiv version p messageID input h

end Answering

def closedStorage : Storage Unit where
  getChannel _ _ s := (.error "database not open",s)
  getSubscribers _ _ s := (.error "database not open",s)
  getDenylist _ _ s := (.error "database not open",s)
  getAllowlist _ _ s := (.error "database not open",s)
  getNextMessageSeq _ _ s := (.error "database not open",s)
  appendMessage _ s := (.error "database not open",s)
  appendMessageOfNotifyQueue _ s := (.error "database not open",s)
  getUserNextMessageSeq _ s := (.error "database not open",s)
  appendMessageOfUser _ s := (.error "database not open",s)

def keyedClient : Client := ⟨1,[0x75],0,0,List.replicate 16 0x41,List.replicate 16 0x42⟩

def unsignedSend : SendPacket where
  msgKey := []
  clientSeq := 1
  clientMsgNo := []
  channelID := [0x67]
  channelType := 2
  payload := []

def signedSend : SendPacket :=
  { unsignedSend with msgKey := exceptMsgKey Aes.cbc keyedClient unsignedSend }

def idle : Handling (Standalone Unit) := ⟨⟨(),⟨false,false⟩,false,[],false,fun _ => [],[]⟩,[]⟩

theorem unsigned_send_answered :
    Answered (Standalone.services closedStorage none) Aes.cbc keyedClient 4 unsignedSend 7 ⟨8,0,[]⟩
      idle := by
  refine (every_send_answered_iff closedStorage none Aes.cbc keyedClient rfl rfl 4 unsignedSend 7
    ⟨8,0,[]⟩ idle).mpr fun _ hkey => ?_
  have hlen := congrArg List.length hkey
  rw [exceptMsgKey, length_md5] at hlen
  cases hlen

theorem withinLimits_signedSend : (Frame.send signedSend).WithinLimits 4 := by
  have hlen : signedSend.msgKey.length = 32 := length_md5 _
  have hencoded : packetEncode (.send signedSend) 4 =
      [0] ++ (Encoder.writeString signedSend.msgKey ++ [0,0,0,1,0,0,0,1,0x67,2]) := rfl
  constructor
  · intro s hs
    have hcases : s = signedSend.msgKey ∨ s = [] ∨ s = [0x67] := by
      simpa [Frame.carriedStrings, signedSend, unsignedSend] using hs
    rcases hcases with rfl | rfl | rfl
    · omega
    · decide
    · decide
  · have hstring : (Encoder.writeString signedSend.msgKey).length = 34 := by
      rw [Encoder.writeString, Encoder.writeBinary, hlen, if_neg (by decide), List.length_append,
        Encoder.writeInt16, Bytes.length_putUint, hlen]
    have hbody : (packetEncode (.send signedSend) 4).length = 45 := by
      rw [hencoded, List.length_append, List.length_append, hstring]
      rfl
    rw [hbody]
    decide

theorem decodePacket_signedSend : ∃ n p,
    decodePacket (encodePacket (.send signedSend) 4) 4 = .ok (some (.send p),n) ∧
      p.msgKey = signedSend.msgKey ∧ p.payload = [] ∧
        sendVerityString p = sendVerityString unsignedSend := by
  have hdecode := decodePacket_encodePacket 4 (.send signedSend) [] withinLimits_signedSend
  rw [List.append_nil] at hdecode
  exact ⟨_,_,hdecode,rfl,rfl,rfl⟩

theorem empty_payload_unanswered : ∃ data n p, decodePacket data 4 = .ok (some (.send p),n) ∧
    ¬ Answered (Standalone.services closedStorage none) Aes.cbc keyedClient 4 p 7 ⟨8,0,[]⟩
      idle := by
  obtain ⟨n,p,hdecode,hmsgKey,hpayload,hverity⟩ := decodePacket_signedSend
  refine ⟨_,n,p,hdecode,fun hanswered => ?_⟩
  have hanswerable := (answered_iff (Standalone.services_returns closedStorage none) rfl rfl 4 p 7
    ⟨8,0,[]⟩ idle).mp hanswered
  have hkey : p.msgKey = exceptMsgKey Aes.cbc keyedClient p := by
    rw [hmsgKey, exceptMsgKey, hverity]
    exact exceptMsgKey.eq_def Aes.cbc keyedClient unsignedSend
  have hdecoded : Base64.decodeString p.payload = some [] := by
    rw [hpayload]
    rfl
  exact (hanswerable (by decide) hkey [] hdecoded).1 rfl

end LiMaoIM.Lim

import LiMaoIM.Foundation.Run
import LiMaoIM.Lim.Connect

namespace LiMaoIM.Lim

open Outcome Proto

def latestToken (uid : Bytes) (deviceFlag : DeviceFlag) : List TraceEvent → Option Bytes
  | [] => none
  | .tokenStored u d token :: rest =>
      if uid = u ∧ deviceFlag = d then some token else latestToken uid deviceFlag rest
  | _ :: rest => latestToken uid deviceFlag rest

def Authenticated : List TraceEvent → Prop
  | [] => True
  | .tokenStored _ _ _ :: rest => Authenticated rest
  | .clientAdded client p :: rest =>
      latestToken client.uid client.deviceFlag rest = some p.token ∧ Authenticated rest
  | .handleSend client _ :: rest => (∃ p, .clientAdded client p ∈ rest) ∧ Authenticated rest

def AuthSound (s : Server) : Prop := Authenticated s.trace

def TraceEvent.addedAs (client : Client) : TraceEvent → Bool
  | .clientAdded x _ => x = client
  | _ => false

theorem any_addedAs {client : Client} {trace : List TraceEvent} :
    trace.any (TraceEvent.addedAs client) ↔ ∃ p, .clientAdded client p ∈ trace := by
  rw [List.any_eq_true]
  constructor
  · rintro ⟨e,he,hadded⟩
    cases e with
    | clientAdded x p =>
      obtain rfl : x = client := by simpa [TraceEvent.addedAs] using hadded
      exact ⟨p,he⟩
    | tokenStored uid flag token => cases hadded
    | handleSend x p => cases hadded
  · rintro ⟨p,hp⟩
    exact ⟨_,hp,by simp [TraceEvent.addedAs]⟩

instance decidableAuthenticated : ∀ trace, Decidable (Authenticated trace)
  | [] => isTrue trivial
  | .tokenStored _ _ _ :: rest => decidableAuthenticated rest
  | .clientAdded client p :: rest =>
      have := decidableAuthenticated rest
      inferInstanceAs (Decidable (latestToken client.uid client.deviceFlag rest = some p.token ∧
        Authenticated rest))
  | .handleSend client _ :: rest =>
      have := decidableAuthenticated rest
      decidable_of_iff (rest.any (TraceEvent.addedAs client) ∧ Authenticated rest)
        (and_congr_left' any_addedAs)

instance (s : Server) : Decidable (AuthSound s) := decidableAuthenticated s.trace

def KeyAccepted (p : ConnectPacket) : Prop :=
  2 < p.version →
    (Base64.decodeString p.clientKey).isSome ∧ 32 ≤ Base64.decodedLen p.clientKey.length

def EmptyTokenBypass (s : Server) (p : ConnectPacket) : Prop :=
  p.token = [] ∧ latestToken p.uid p.deviceFlag s.trace = none ∧ KeyAccepted p ∧
    s.db.slotCount % 2 ^ 32 ≠ 0

def NoBypass (s : Server) : ServerEvent → Prop
  | .task index _ => s.crashed = false →
      ∀ c p, s.messagePool[index]? = some (.connect c p) → ¬ EmptyTokenBypass s p
  | _ => True

instance (p : ConnectPacket) : Decidable (KeyAccepted p) :=
  inferInstanceAs (Decidable (_ → _ ∧ _))

instance (s : Server) (p : ConnectPacket) : Decidable (EmptyTokenBypass s p) :=
  inferInstanceAs (Decidable (_ ∧ _ ∧ _ ∧ _))

instance (s : Server) : ∀ e, Decidable (NoBypass s e)
  | .updateToken _ => isTrue trivial
  | .packet _ _ => isTrue trivial
  | .close _ => isTrue trivial
  | .task index _ =>
      match h : s.messagePool[index]? with
      | some (.connect _ p) =>
          decidable_of_iff (s.crashed = false → ¬ EmptyTokenBypass s p) (by simp [NoBypass, h])
      | some (.send _ _) => isTrue (by simp [NoBypass, h])
      | none => isTrue (by simp [NoBypass, h])

section HandleConnect

variable {opts : Options} (hmode : opts.mode ≠ testMode) (hcluster : opts.isCluster = false)
  (crypto : Crypto) (input : TaskInput) (c : Int64) (p : ConnectPacket) (s : Server)

def Admitted (s : Server) (p : ConnectPacket) : Prop :=
  (∃ level, s.db.getUserToken p.uid p.deviceFlag = .ok (p.token,level)) ∧ KeyAccepted p

structure SameAccess (s s' : Server) : Prop where
  db : s'.db = s.db
  messagePool : s'.messagePool = s.messagePool
  trace : s'.trace = s.trace
  clients : ∀ id x, s'.clientManager.get id = some x → s.clientManager.get id = some x

structure Granted (p : ConnectPacket) (client : Client) (s s' : Server) : Prop where
  uid : client.uid = p.uid
  deviceFlag : client.deviceFlag = p.deviceFlag
  db : s'.db = s.db
  messagePool : s'.messagePool = s.messagePool
  trace : s'.trace = .clientAdded client p :: s.trace
  clients : ∀ id x, s'.clientManager.get id = some x → x = client ∨ s.clientManager.get id = some x

theorem sameAccess_refl : SameAccess s s := ⟨rfl,rfl,rfl,fun _ _ h => h⟩

theorem kickOldClient_access : SameAccess s (s.kickOldClient p) := by
  rw [Server.kickOldClient]
  split
  · exact sameAccess_refl s
  · exact ⟨rfl,rfl,rfl,fun id x h => ClientManager.get_remove h⟩

theorem register_granted (deviceLevel : UInt8) (keys : SessionKeys) :
    Granted p ⟨c,p.uid,p.deviceFlag,deviceLevel,keys.aesKey,keys.aesIV⟩ s
      (s.register input c p deviceLevel keys) := by
  have hkick := kickOldClient_access p s
  refine ⟨rfl,rfl,hkick.db,hkick.messagePool,congrArg _ hkick.trace,?_⟩
  intro id x hx
  rcases ClientManager.get_add hx with rfl | hx
  · exact Or.inl rfl
  · exact Or.inr (hkick.clients id x hx)

theorem exchangeKeys_accepted (h : KeyAccepted p) :
    ∃ keys, exchangeKeys crypto input p = .ok (some keys) := by
  rw [exchangeKeys]
  split
  · rename_i hv
    obtain ⟨hsome,hlen⟩ := h hv
    obtain ⟨key,hkey⟩ := Option.isSome_iff_exists.mp hsome
    simp only [hkey, if_neg (Nat.not_lt.mpr hlen)]
    exact ⟨_,rfl⟩
  · exact ⟨_,rfl⟩

theorem exchangeKeys_refused (h : ¬ KeyAccepted p) :
    exchangeKeys crypto input p = .ok none ∨ (exchangeKeys crypto input p).Panics := by
  rw [KeyAccepted, Classical.not_imp] at h
  obtain ⟨hv,hkey⟩ := h
  rw [exchangeKeys, if_pos hv]
  cases hd : Base64.decodeString p.clientKey with
  | none => exact Or.inl rfl
  | some key =>
    have hlen : Base64.decodedLen p.clientKey.length < 32 := by
      rw [hd] at hkey
      simpa using hkey
    simp only [if_pos hlen]
    exact Or.inr ⟨_,rfl⟩

theorem finishConnect_refused (h : ¬ KeyAccepted p) (deviceLevel : UInt8) :
    SameAccess s (Server.finishConnect crypto input c p deviceLevel s).2 := by
  rw [Server.finishConnect]
  rcases exchangeKeys_refused crypto input p h with hk | ⟨e,hk⟩
  · rw [hk]
    exact ⟨rfl,rfl,rfl,fun id x hx => hx⟩
  · rw [hk]
    exact sameAccess_refl s

include hcluster

theorem handleConnect_standalone :
    Server.handleConnect opts crypto input c p s =
      match checkToken opts s.db p with
      | .ok (.inr deviceLevel) =>
          Server.finishConnect crypto input c p deviceLevel (s.setVersion c p.version)
      | .ok (.inl code) => (.ok (),(s.setVersion c p.version).writeConnack c 0 code)
      | .error e => (.error e,s.setVersion c p.version)
      | .panic e => (.panic e,s.setVersion c p.version) := by
  rw [Server.handleConnect, if_neg (by simp [hcluster]), if_neg (by simp [hcluster])]
  rfl

include hmode

theorem handleConnect_granted (h : Admitted s p) :
    ∃ client, Granted p client s (Server.handleConnect opts crypto input c p s).2 := by
  obtain ⟨⟨level,hlevel⟩,hkey⟩ := h
  obtain ⟨keys,hkeys⟩ := exchangeKeys_accepted crypto input p hkey
  have htoken : checkToken opts s.db p = .ok (.inr level) := by
    rw [checkToken, if_neg hmode, hlevel]
    exact if_pos rfl
  have hgrant := register_granted input c p (s.setVersion c p.version) level keys
  rw [handleConnect_standalone hcluster, htoken]
  simp only [Server.finishConnect, hkeys]
  exact ⟨_,hgrant.uid,hgrant.deviceFlag,hgrant.db,hgrant.messagePool,hgrant.trace,hgrant.clients⟩

theorem handleConnect_refused (h : ¬ Admitted s p) :
    SameAccess s (Server.handleConnect opts crypto input c p s).2 := by
  have hversion : SameAccess s (s.setVersion c p.version) := ⟨rfl,rfl,rfl,fun id x hx => hx⟩
  rw [handleConnect_standalone hcluster, checkToken, if_neg hmode]
  cases hget : s.db.getUserToken p.uid p.deviceFlag with
  | error e => exact ⟨rfl,rfl,rfl,fun id x hx => hx⟩
  | panic e => exact hversion
  | ok r =>
    obtain ⟨token,level⟩ := r
    by_cases ht : token = p.token
    · subst ht
      have hkey : ¬ KeyAccepted p := fun hk => h ⟨⟨level,hget⟩,hk⟩
      have hfin := finishConnect_refused crypto input c p (s.setVersion c p.version) hkey level
      simp only [if_true]
      exact ⟨hfin.db,hfin.messagePool,hfin.trace,hfin.clients⟩
    · simp only [if_neg ht]
      exact ⟨rfl,rfl,rfl,fun id x hx => hx⟩

end HandleConnect

inductive StoredToken : Option Bytes → Option Bytes → Prop
  | absent : StoredToken none none
  | stored (level : UInt8) (token : List Char) :
      StoredToken (some (Db.FileDB.tokenJSON level token)) (some (Json.utf8 token))

structure AuthInv (s : Server) : Prop where
  sound : AuthSound s
  tokens : ∀ uid flag, StoredToken (s.db.tokenEntry uid flag) (latestToken uid flag s.trace)
  clients : ∀ id x, s.clientManager.get id = some x → ∃ p, .clientAdded x p ∈ s.trace
  pending : ∀ x p, .send x p ∈ s.messagePool → ∃ q, .clientAdded x q ∈ s.trace

theorem authInv_initial (slotCount : Nat) : AuthInv (.initial slotCount) := by
  refine ⟨trivial,fun uid flag => .absent,?_,?_⟩
  · exact fun id x hx => absurd hx (by simp [Server.initial, ClientManager.empty,
      ClientManager.get, Assoc.get])
  · exact fun x p hp => absurd hp List.not_mem_nil

namespace AuthInv

variable {s s' : Server}

theorem same (h : AuthInv s) (ha : SameAccess s s') : AuthInv s' := by
  refine ⟨?_,?_,?_,?_⟩
  · rw [AuthSound, ha.trace]
    exact h.sound
  · rw [ha.db, ha.trace]
    exact h.tokens
  · intro id x hx
    rw [ha.trace]
    exact h.clients id x (ha.clients id x hx)
  · rw [ha.messagePool, ha.trace]
    exact h.pending

theorem eraseTask (h : AuthInv s) (index : Nat) :
    AuthInv { s with messagePool := s.messagePool.eraseIdx index } :=
  ⟨h.sound,h.tokens,h.clients,fun x p hp => h.pending x p (List.mem_of_mem_eraseIdx hp)⟩

theorem tokenStored (h : AuthInv s) (uid : Bytes) (flag level : UInt8) (token : List Char) :
    AuthInv { s with
      db := s.db.put (Db.slotOf s.db.slotCount uid) (Db.FileDB.getUserTokenKey uid flag)
        (Db.FileDB.tokenJSON level token)
      trace := .tokenStored uid flag (Json.utf8 token) :: s.trace } := by
  refine ⟨h.sound,?_,?_,?_⟩
  · intro uid' flag'
    rw [Db.FileDB.tokenEntry_put, latestToken]
    split
    · exact .stored level token
    · exact h.tokens uid' flag'
  · intro id x hx
    obtain ⟨p,hp⟩ := h.clients id x hx
    exact ⟨p,List.mem_cons_of_mem _ hp⟩
  · intro x p hp
    obtain ⟨q,hq⟩ := h.pending x p hp
    exact ⟨q,List.mem_cons_of_mem _ hq⟩

theorem updateToken (h : AuthInv s) (req : UpdateTokenReq) : AuthInv (s.updateToken req) := by
  rw [Server.updateToken]
  split
  · by_cases hn : s.db.slotCount % 2 ^ 32 = 0
    · have hpanic : s.db.updateUserToken (Json.utf8 req.uid) req.deviceFlag req.deviceLevel
          req.token = .panic "runtime error: integer divide by zero" := by
        rw [Db.FileDB.updateUserToken, Db.FileDB.slotNum, Db.getSlotNum, if_pos hn]
        rfl
      rw [hpanic]
      exact h
    · rw [Db.FileDB.updateUserToken_eq hn]
      have hstored := h.tokenStored (Json.utf8 req.uid) req.deviceFlag req.deviceLevel req.token
      simp only
      split
      · exact hstored
      · exact hstored.same ⟨rfl,rfl,rfl,fun id x hx => hx⟩
  · exact h

theorem submit (h : AuthInv s) {task : Task}
    (ht : ∀ x p, task = .send x p → ∃ q, .clientAdded x q ∈ s.trace) : AuthInv (s.submit task) := by
  refine ⟨h.sound,h.tokens,h.clients,?_⟩
  intro x p hp
  rcases List.mem_append.mp hp with hp | hp
  · exact h.pending x p hp
  · exact ht x p (List.mem_singleton.mp hp).symm

theorem handlePacket (h : AuthInv s) (c : Int64) (frame : Frame) :
    AuthInv (s.handlePacket c frame) := by
  cases frame with
  | connect p => exact h.submit fun x q hx => by cases hx
  | ping f =>
    rw [Server.handlePacket]
    split
    · exact h
    · exact h.same ⟨rfl,rfl,rfl,fun id x hx => hx⟩
  | send p =>
    rw [Server.handlePacket]
    split
    · exact h
    · rename_i client hclient
      apply h.submit
      rintro x q ⟨⟩
      exact h.clients c client hclient
  | connack p => exact h
  | sendack p => exact h
  | recv p => exact h
  | recvack p => exact h
  | pong f => exact h
  | disconnect p => exact h

theorem handlePackets (h : AuthInv s) (c : Int64) (frames : List Frame) :
    AuthInv (frames.foldl (Server.handlePacket c) s) := by
  induction frames generalizing s with
  | nil => exact h
  | cons frame frames ih => exact ih (h.handlePacket c frame)

theorem onPacket (h : AuthInv s) (c : Int64) (data : Bytes) : AuthInv (s.onPacket c data) := by
  rw [Server.onPacket]
  split
  · exact h.handlePackets c _
  · exact h
  · exact h.same ⟨rfl,rfl,rfl,fun id x hx => hx⟩

theorem handleDisconnect (h : AuthInv s) (c : Int64) : AuthInv (s.handleDisconnect c) := by
  rw [Server.handleDisconnect]
  split
  · exact h
  · exact h.same ⟨rfl,rfl,rfl,fun id x hx => ClientManager.get_remove hx⟩

section Tasks

variable {opts : Options} (hmode : opts.mode ≠ testMode) (hcluster : opts.isCluster = false)
  (crypto : Crypto) (input : TaskInput)

theorem latestToken_of_admitted (h : AuthInv s) {p : ConnectPacket} (ha : Admitted s p)
    (hb : ¬ EmptyTokenBypass s p) : latestToken p.uid p.deviceFlag s.trace = some p.token := by
  obtain ⟨⟨level,hget⟩,hkey⟩ := ha
  have hn : s.db.slotCount % 2 ^ 32 ≠ 0 := by
    intro hn
    obtain ⟨e,he⟩ := Db.FileDB.getUserToken_panic hn p.uid p.deviceFlag
    rw [hget] at he
    cases he
  generalize hentry : s.db.tokenEntry p.uid p.deviceFlag = entry
  generalize hlatest : latestToken p.uid p.deviceFlag s.trace = latest
  have hstored := h.tokens p.uid p.deviceFlag
  rw [hentry, hlatest] at hstored
  cases hstored with
  | absent =>
    rw [Db.FileDB.getUserToken_none hn hentry] at hget
    obtain ⟨htoken,-⟩ := Prod.mk.inj (Outcome.ok.inj hget)
    exact absurd ⟨htoken.symm,hlatest,hkey,hn⟩ hb
  | stored storedLevel token =>
    obtain ⟨level',hread⟩ := Db.FileDB.getUserToken_some hn hentry
    rw [hget] at hread
    obtain ⟨htoken,-⟩ := Prod.mk.inj (Outcome.ok.inj hread)
    rw [htoken]

theorem granted (h : AuthInv s) {p : ConnectPacket} {client : Client}
    (hg : Granted p client s s') (ht : latestToken p.uid p.deviceFlag s.trace = some p.token) :
    AuthInv s' := by
  refine ⟨?_,?_,?_,?_⟩
  · rw [AuthSound, hg.trace, Authenticated, hg.uid, hg.deviceFlag]
    exact ⟨ht,h.sound⟩
  · intro uid flag
    rw [hg.db, hg.trace]
    exact h.tokens uid flag
  · intro id x hx
    rw [hg.trace]
    rcases hg.clients id x hx with rfl | hx
    · exact ⟨p,List.mem_cons_self⟩
    · obtain ⟨q,hq⟩ := h.clients id x hx
      exact ⟨q,List.mem_cons_of_mem _ hq⟩
  · intro x q hq
    rw [hg.messagePool] at hq
    rw [hg.trace]
    obtain ⟨r,hr⟩ := h.pending x q hq
    exact ⟨r,List.mem_cons_of_mem _ hr⟩

theorem handleSend (h : AuthInv s) {client : Client}
    (hc : ∃ q, .clientAdded client q ∈ s.trace) (p : SendPacket) :
    AuthInv { s with trace := .handleSend client p :: s.trace } := by
  refine ⟨⟨hc,h.sound⟩,h.tokens,?_,?_⟩
  · intro id x hx
    obtain ⟨q,hq⟩ := h.clients id x hx
    exact ⟨q,List.mem_cons_of_mem _ hq⟩
  · intro x q hq
    obtain ⟨r,hr⟩ := h.pending x q hq
    exact ⟨r,List.mem_cons_of_mem _ hr⟩

include hmode hcluster

theorem handleConnect (h : AuthInv s) (c : Int64) {p : ConnectPacket}
    (hb : ¬ EmptyTokenBypass s p) : AuthInv (Server.handleConnect opts crypto input c p s).2 := by
  by_cases ha : Admitted s p
  · obtain ⟨client,hg⟩ := handleConnect_granted hmode hcluster crypto input c p s ha
    exact h.granted hg (h.latestToken_of_admitted ha hb)
  · exact h.same (handleConnect_refused hmode hcluster crypto input c p s ha)

theorem runTask (h : AuthInv s) (index : Nat)
    (hb : ∀ c p, s.messagePool[index]? = some (.connect c p) → ¬ EmptyTokenBypass s p) :
    AuthInv (s.runTask opts crypto input index) := by
  rw [Server.runTask]
  split
  · exact h
  · rename_i c p hp
    exact (h.eraseTask index).handleConnect hmode hcluster crypto input c (hb c p hp)
  · rename_i client p hp
    exact (h.eraseTask index).handleSend (h.pending client p (List.mem_of_getElem? hp)) p

theorem step (h : AuthInv s) (e : ServerEvent) (hb : NoBypass s e) :
    AuthInv (s.step opts crypto e) := by
  unfold Server.step
  split
  · exact h
  · rename_i hcrash
    cases e with
    | updateToken req => exact h.updateToken req
    | packet c data => exact h.onPacket c data
    | task index input =>
      exact h.runTask hmode hcluster crypto input index (hb (Bool.eq_false_iff.mpr hcrash))
    | close c => exact h.handleDisconnect c

end Tasks

end AuthInv

section Runs

variable {opts : Options} (hmode : opts.mode ≠ testMode) (hcluster : opts.isCluster = false)
  (crypto : Crypto)

def serverStep (opts : Options) (crypto : Crypto) (s : Server) (e : ServerEvent) :
    Outcome Server :=
  .ok (s.step opts crypto e)

theorem EmptyTokenBypass.admitted {s : Server} {p : ConnectPacket} (h : AuthInv s)
    (hb : EmptyTokenBypass s p) : Admitted s p := by
  obtain ⟨htoken,hlatest,hkey,hn⟩ := hb
  generalize hentry : s.db.tokenEntry p.uid p.deviceFlag = entry
  have hstored := h.tokens p.uid p.deviceFlag
  rw [hentry, hlatest] at hstored
  cases hstored
  rw [Admitted, htoken]
  exact ⟨⟨0,Db.FileDB.getUserToken_none hn hentry⟩,hkey⟩

include hmode hcluster

theorem step_unsound {s : Server} {e : ServerEvent} (h : AuthInv s) (hb : ¬ NoBypass s e) :
    ¬ AuthSound (s.step opts crypto e) := by
  cases e with
  | updateToken req => exact absurd trivial hb
  | packet c data => exact absurd trivial hb
  | close c => exact absurd trivial hb
  | task index input =>
    simp only [NoBypass, not_forall, not_not] at hb
    obtain ⟨hcrash,c,p,htask,hbypass⟩ := hb
    obtain ⟨client,hg⟩ := handleConnect_granted hmode hcluster crypto input c p
      { s with messagePool := s.messagePool.eraseIdx index } (hbypass.admitted (h.eraseTask index))
    rw [Server.step, if_neg (by simp [hcrash])]
    simp only [Server.runTask, htask]
    rw [AuthSound, hg.trace, Authenticated, hg.uid, hg.deviceFlag]
    rintro ⟨hlatest,-⟩
    rw [hbypass.2.1] at hlatest
    cases hlatest

theorem authentication_sound_iff (slotCount : Nat) (events : List ServerEvent) :
    Run.Always (serverStep opts crypto) AuthSound (.initial slotCount) events ↔
      Run.Meets (serverStep opts crypto) NoBypass (.initial slotCount) events := by
  apply Run.always_iff_meets (fun s (hs : AuthInv s) => hs.sound)
  · intro s e hs hb
    exact ⟨_,rfl,hs.step hmode hcluster crypto e hb⟩
  · intro s e s' hs hb hstep
    cases hstep
    exact step_unsound hmode hcluster crypto hs hb
  · exact authInv_initial slotCount

end Runs

def standalone : Options := ⟨"debug",false,0,fun _ => none⟩

def noCrypto : Crypto := ⟨id,fun _ key => key⟩

def zeroInput : TaskInput := ⟨0,[],[]⟩

def connectWith (token : Bytes) : ConnectPacket :=
  { version := 2, clientKey := [], deviceID := [], deviceFlag := 0, clientTimestamp := 0,
    uid := Bytes.ofString "u", token := token }

def arrives (c : Int64) (frame : Frame) : ServerEvent := .packet c (encodePacket frame 2)

def registeredLogin : List ServerEvent :=
  [.updateToken ⟨"u".toList,"secret".toList,0,1⟩,
    arrives 1 (.connect (connectWith (Bytes.ofString "guess"))),
    arrives 2 (.connect (connectWith (Bytes.ofString "secret"))),
    .task 1 zeroInput,.task 0 zeroInput,
    arrives 2 (.send
      { msgKey := [], clientSeq := 1, clientMsgNo := [], channelID := Bytes.ofString "v",
        channelType := 1, payload := [] }),
    .task 0 zeroInput]

theorem registeredLogin_sound :
    Run.Always (serverStep standalone noCrypto) AuthSound (.initial 256) registeredLogin :=
  (authentication_sound_iff (by decide) rfl noCrypto 256 registeredLogin).mpr (by decide +kernel)

def anonymousLogin : List ServerEvent :=
  [arrives 1 (.connect (connectWith [])),.task 0 zeroInput]

theorem anonymousLogin_unsound :
    ¬ Run.Always (serverStep standalone noCrypto) AuthSound (.initial 256) anonymousLogin := by
  decide +kernel

end LiMaoIM.Lim

import LiMaoIM.Foundation.Run
import LiMaoIM.Lim.ConversationOrder

namespace LiMaoIM.Lim

open Db (Conversation)
open Outcome

structure Storable (max : Nat) (cs : List Conversation) : Prop where
  distinct : (cs.map conversationKey).Nodup
  bound : cs.length ≤ max
  reread : ∀ c ∈ cs, c.reread = c

structure SavedConversations (opts : ConversationOptions) where
  conversations : List Conversation
  storable : Storable opts.conversationOfUserMaxCount conversations

-- the caches hold pointers: a conversation is changed and saved through its object
structure UserObjects (opts : ConversationOptions) where
  cache : Lru opts.conversationOfUserMaxCount Bytes Nat
  objects : Nat → Conversation
  next : Nat
  stored : List Conversation
  processed : Bool

namespace UserObjects

variable {opts : ConversationOptions}

def initial (saved : SavedConversations opts) : UserObjects opts :=
  ⟨.empty,fun _ => ⟨[],[],0,0,0,0,[],0,0⟩,0,saved.conversations,false⟩

def values (u : UserObjects opts) : List Conversation := u.cache.values.map u.objects

def alloc (c : Conversation) (u : UserObjects opts) : UserObjects opts :=
  { u with objects := Function.update u.objects u.next c, next := u.next + 1 }

def addLoaded (u : UserObjects opts) (c : Conversation) : UserObjects opts :=
  { u.alloc c with cache := u.cache.add (conversationKey c) u.next }

def loadIfEmpty (u : UserObjects opts) : UserObjects opts :=
  if u.cache.len = 0 then u.stored.foldl addLoaded u else u

def lookup (m : Message) (subscriber : Bytes) (now : Int64) (u : UserObjects opts) :
    UserObjects opts × Nat × Bool :=
  let u := { u.loadIfEmpty with processed := true }
  let cache := (u.cache.get (m.key subscriber)).2
  match cache.get (m.key subscriber) with
  | (none,cache) =>
      ({ u.alloc (createConversation m subscriber now) with cache := cache },u.next,true)
  | (some conversation,cache) =>
      let (c,modify) := updateConversation m subscriber now (u.objects conversation)
      ({ u with cache := cache, objects := Function.update u.objects conversation c },
        conversation,modify)

def add (k : Bytes) (conversation : Nat) (u : UserObjects opts) : UserObjects opts :=
  { u with cache := u.cache.add k conversation }

def readCache (u : UserObjects opts) : List Nat × UserObjects opts :=
  let (conversations,cache) := u.cache.readAll
  (conversations,{ u with cache := cache })

def store (conversations : List Nat) (u : UserObjects opts) : UserObjects opts :=
  { u with stored := (conversations.map u.objects).map Conversation.reread }

def Saved (u : UserObjects opts) : Prop :=
  (u.stored.map unversioned).Perm (u.values.map unversioned)

instance (u : UserObjects opts) : Decidable u.Saved :=
  inferInstanceAs (Decidable ((u.stored.map unversioned).Perm (u.values.map unversioned)))

end UserObjects

inductive CalcPhase where
  | idle
  | next (m : Message) (subscribers : List Bytes)
  | needSave (m : Message) (subscriber : Bytes) (conversation : Nat) (rest : List Bytes)
  | add (m : Message) (subscriber : Bytes) (conversation : Nat) (rest : List Bytes)

inductive SavePhase where
  | top
  | select
  | flush (uids : List Bytes)
  | read (uid : Bytes) (conversations : List Nat) (rest : List Bytes)
  | stored (uid : Bytes) (rest : List Bytes)

def CalcPhase.adding : CalcPhase → Option (Message × Bytes × Nat)
  | .add m subscriber conversation _ => some (m,subscriber,conversation)
  | _ => none

def SavePhase.reading : SavePhase → Option Bytes
  | .flush (uid :: _) => some uid
  | _ => none

structure SavingManager (opts : ConversationOptions) where
  users : Bytes → UserObjects opts
  needSaveConversationMap : List Bytes
  needSync : Bool
  noSaveCount : Nat
  calcLoop : CalcPhase
  saveLoop : SavePhase

inductive SavingEvent where
  | message (m : Message) (subscribers : List Bytes)
  | calculate (now : Int64)
  | rendezvous
  | add
  | tick
  | save (uids : List Bytes)

namespace SavingManager

variable {opts : ConversationOptions}

def initial (saved : Bytes → SavedConversations opts) : SavingManager opts :=
  ⟨fun uid => .initial (saved uid),[],false,0,.idle,.top⟩

def setUser (uid : Bytes) (u : UserObjects opts) (s : SavingManager opts) : SavingManager opts :=
  { s with users := Function.update s.users uid u }

def notEnabled : String := "the step is not enabled"

def queued (m : Message) (subscribers : List Bytes) : Bool :=
  !subscribers.isEmpty && !(m.recvPacket.framer.syncOnce || m.recvPacket.framer.noPersist)

def receiveNeedSave (uid : Bytes) (s : SavingManager opts) : SavingManager opts :=
  if uid ∈ s.needSaveConversationMap then s
  else
    { s with
      needSaveConversationMap := uid :: s.needSaveConversationMap
      noSaveCount := s.noSaveCount + 1 }

def calculate (m : Message) (subscriber : Bytes) (rest : List Bytes) (now : Int64)
    (s : SavingManager opts) : SavingManager opts :=
  let (u,conversation,modify) := (s.users subscriber).lookup m subscriber now
  { s.setUser subscriber u with
    calcLoop := if modify then .needSave m subscriber conversation rest
      else .add m subscriber conversation rest }

def saveloop (conversationSyncOnce : Nat) (uids : List Bytes) (s : SavingManager opts) :
    Outcome (SavingManager opts) :=
  match s.saveLoop with
  | .top =>
      if s.needSync ∨ conversationSyncOnce ≤ s.noSaveCount then
        -- the map is ranged over in any order
        if uids.Perm s.needSaveConversationMap then
          .ok { s with needSync := true, noSaveCount := 0, saveLoop := .flush uids }
        else .error notEnabled
      else .ok { s with saveLoop := .select }
  | .select => .error notEnabled
  | .flush [] => .ok { s with needSync := false, saveLoop := .select }
  | .flush (uid :: rest) =>
      let (conversations,u) := (s.users uid).readCache
      .ok { s.setUser uid u with saveLoop := .read uid conversations rest }
  | .read uid conversations rest =>
      .ok { s.setUser uid ((s.users uid).store conversations) with saveLoop := .stored uid rest }
  | .stored uid rest =>
      .ok { s with
        needSaveConversationMap := s.needSaveConversationMap.erase uid
        saveLoop := .flush rest }

def step (conversationSyncOnce : Nat) (s : SavingManager opts) :
    SavingEvent → Outcome (SavingManager opts)
  | .message m subscribers =>
      match s.calcLoop with
      | .idle =>
          .ok (if queued m subscribers then { s with calcLoop := .next m subscribers } else s)
      | _ => .error notEnabled
  | .calculate now =>
      match s.calcLoop with
      | .next _ [] => .ok { s with calcLoop := .idle }
      | .next m (subscriber :: rest) => .ok (s.calculate m subscriber rest now)
      | _ => .error notEnabled
  | .rendezvous =>
      match s.calcLoop, s.saveLoop with
      | .needSave m subscriber conversation rest, .select =>
          .ok { s.receiveNeedSave subscriber with
            calcLoop := .add m subscriber conversation rest
            saveLoop := .top }
      | _, _ => .error notEnabled
  | .add =>
      match s.calcLoop with
      | .add m subscriber conversation rest =>
          .ok { s.setUser subscriber ((s.users subscriber).add (m.key subscriber) conversation) with
            calcLoop := .next m rest }
      | _ => .error notEnabled
  | .tick =>
      match s.saveLoop with
      | .select =>
          .ok { s with needSync := s.needSync || decide (0 < s.noSaveCount), saveLoop := .top }
      | _ => .error notEnabled
  | .save uids => s.saveloop conversationSyncOnce uids

def CleanUsersSaved (s : SavingManager opts) : Prop :=
  match s.calcLoop with
  | .idle => ∀ uid, (s.users uid).processed = true → uid ∉ s.needSaveConversationMap →
      (s.users uid).Saved
  | _ => True

def Readable (m : Message) (subscribers : List Bytes) : Prop :=
  ∀ subscriber ∈ subscribers,
    (createConversation m subscriber 0).reread = createConversation m subscriber 0

def InOrder (s : SavingManager opts) : SavingEvent → Prop
  | .message m subscribers => Readable m subscribers
  | .save _ => ∀ uid ∈ s.saveLoop.reading, ∀ x ∈ s.calcLoop.adding, uid = x.2.1 →
      (s.users uid).cache.peek (x.1.key uid) = some x.2.2
  | _ => True

instance (s : SavingManager opts) : ∀ e, Decidable (InOrder s e)
  | .message m subscribers => inferInstanceAs (Decidable (∀ subscriber ∈ subscribers,
      (createConversation m subscriber 0).reread = createConversation m subscriber 0))
  | .save _ => inferInstanceAs (Decidable (∀ uid ∈ s.saveLoop.reading, ∀ x ∈ s.calcLoop.adding,
      uid = x.2.1 → (s.users uid).cache.peek (x.1.key uid) = some x.2.2))
  | .calculate _ => isTrue trivial
  | .rendezvous => isTrue trivial
  | .add => isTrue trivial
  | .tick => isTrue trivial

end SavingManager

theorem reread_eq_iff {c : Conversation} : c.reread = c ↔
    Utf8.toValid c.uid = c.uid ∧ Utf8.toValid c.channelID = c.channelID ∧
      Utf8.toValid c.lastClientMsgNo = c.lastClientMsgNo := by
  constructor
  · intro h
    exact ⟨congrArg Conversation.uid h,congrArg Conversation.channelID h,
      congrArg Conversation.lastClientMsgNo h⟩
  · rintro ⟨huid,hchannel,hno⟩
    rw [Conversation.reread, huid, hchannel, hno]

theorem reread_create {m : Message} {subscriber : Bytes}
    (h : (createConversation m subscriber 0).reread = createConversation m subscriber 0)
    (now : Int64) :
    (createConversation m subscriber now).reread = createConversation m subscriber now := by
  obtain ⟨huid,hchannel,hno⟩ := reread_eq_iff.mp h
  exact reread_eq_iff.mpr ⟨huid,hchannel,hno⟩

theorem reread_update {m : Message} {subscriber : Bytes} {c : Conversation}
    (h : (createConversation m subscriber 0).reread = createConversation m subscriber 0)
    (hc : c.reread = c) (now : Int64) :
    (updateConversation m subscriber now c).1.reread =
      (updateConversation m subscriber now c).1 := by
  obtain ⟨huid,hchannel,hno⟩ := reread_eq_iff.mp hc
  obtain ⟨-,-,hno'⟩ := reread_eq_iff.mp h
  rw [reread_eq_iff]
  simp only [updateConversation]
  split
  · split
    · exact ⟨huid,hchannel,hno'⟩
    · exact ⟨huid,hchannel,hno⟩
  · split
    · exact ⟨huid,hchannel,hno'⟩
    · exact ⟨huid,hchannel,hno⟩

theorem unversioned_update {m : Message} {subscriber : Bytes} {now : Int64} {c : Conversation}
    (h : (updateConversation m subscriber now c).2 = false) :
    unversioned (updateConversation m subscriber now c).1 = unversioned c := by
  simp only [updateConversation] at h ⊢
  split at h
  · split at h
    · cases h
    · cases h
  · rename_i hread
    rw [if_neg hread]
    split at h
    · cases h
    · rename_i hseq
      rw [if_neg hseq]
      rfl

namespace UserObjects

variable {opts : ConversationOptions} {u : UserObjects opts} {k : Bytes} {h : Nat}
  {c : Conversation}

structure Sound (u : UserObjects opts) : Prop where
  key : ∀ k h, u.cache.peek k = some h → conversationKey (u.objects h) = k
  reread : ∀ k h, u.cache.peek k = some h → (u.objects h).reread = u.objects h
  allocated : ∀ k h, u.cache.peek k = some h → h < u.next

theorem Sound.inj (hu : Sound u) {k k' : Bytes} (hk : u.cache.peek k = some h)
    (hk' : u.cache.peek k' = some h) : k = k' :=
  (hu.key k h hk).symm.trans (hu.key k' h hk')

theorem objects_alloc (hu : Sound u) (hk : u.cache.peek k = some h) (c : Conversation) :
    (u.alloc c).objects h = u.objects h :=
  Function.update_of_ne (Nat.ne_of_lt (hu.allocated k h hk)) ..

theorem values_alloc (hu : Sound u) (c : Conversation) : (u.alloc c).values = u.values := by
  refine List.map_congr_left fun h hh => ?_
  obtain ⟨k,hk⟩ := Lru.mem_values.mp hh
  exact objects_alloc hu hk c

theorem Sound.alloc (hu : Sound u) (c : Conversation) : Sound (u.alloc c) := by
  refine ⟨fun k h hk => ?_,fun k h hk => ?_,fun k h hk => ?_⟩
  · rw [objects_alloc hu hk]
    exact hu.key k h hk
  · rw [objects_alloc hu hk]
    exact hu.reread k h hk
  · exact Nat.lt_succ_of_lt (hu.allocated k h hk)

structure New (u : UserObjects opts) (k : Bytes) (h : Nat) : Prop where
  absent : u.cache.peek k = none
  key : conversationKey (u.objects h) = k
  reread : (u.objects h).reread = u.objects h
  allocated : h < u.next

theorem New.unlisted (hn : New u k h) (hu : Sound u) (k' : Bytes) : u.cache.peek k' ≠ some h := by
  intro hk'
  rw [← hu.key k' h hk', hn.key, hn.absent] at hk'
  cases hk'

theorem Sound.add_new (hu : Sound u) (hn : New u k h) : Sound (u.add k h) := by
  refine ⟨fun k' h' hk => ?_,fun k' h' hk => ?_,fun k' h' hk => ?_⟩
  · rcases Lru.peek_of_add hk with ⟨rfl,rfl⟩ | hold
    · exact hn.key
    · exact hu.key k' h' hold
  · rcases Lru.peek_of_add hk with ⟨rfl,rfl⟩ | hold
    · exact hn.reread
    · exact hu.reread k' h' hold
  · rcases Lru.peek_of_add hk with ⟨rfl,rfl⟩ | hold
    · exact hn.allocated
    · exact hu.allocated k' h' hold

theorem Sound.add_known (hu : Sound u) (hk : u.cache.peek k = some h) : Sound (u.add k h) := by
  have hold : ∀ k' h', (u.add k h).cache.peek k' = some h' → u.cache.peek k' = some h' := by
    intro k' h' hk'
    rcases Lru.peek_of_add hk' with ⟨rfl,rfl⟩ | hold
    · exact hk
    · exact hold
  exact ⟨fun k' h' hk' => hu.key k' h' (hold k' h' hk'),
    fun k' h' hk' => hu.reread k' h' (hold k' h' hk'),
    fun k' h' hk' => hu.allocated k' h' (hold k' h' hk')⟩

theorem New.alloc (hk : u.cache.peek (conversationKey c) = none) (hc : c.reread = c) :
    New (u.alloc c) (conversationKey c) u.next := by
  have hself : (u.alloc c).objects u.next = c := Function.update_self ..
  refine ⟨hk,?_,?_,Nat.lt_succ_self _⟩
  · rw [hself]
  · rw [hself, hc]

theorem values_addLoaded (hu : Sound u) (hk : u.cache.peek (conversationKey c) = none)
    (hroom : u.cache.len < opts.conversationOfUserMaxCount) :
    (u.addLoaded c).values = u.values ++ [c] := by
  have hself : (u.alloc c).objects u.next = c := Function.update_self ..
  have hcache : (u.addLoaded c).cache.values = u.cache.values ++ [u.next] :=
    Lru.values_add_new hk hroom u.next
  have hold : u.cache.values.map (u.alloc c).objects = u.values := values_alloc hu c
  rw [values, hcache, List.map_append]
  change u.cache.values.map (u.alloc c).objects ++ [(u.alloc c).objects u.next] = _
  rw [hold, hself]

theorem stored_foldl (cs : List Conversation) (u : UserObjects opts) :
    (cs.foldl addLoaded u).stored = u.stored := by
  induction cs generalizing u with
  | nil => rfl
  | cons c cs ih => exact ih (u.addLoaded c)

theorem foldl_addLoaded {cs : List Conversation} (hu : Sound u)
    (hdistinct : (cs.map conversationKey).Nodup)
    (habsent : ∀ c ∈ cs, u.cache.peek (conversationKey c) = none)
    (hroom : u.cache.len + cs.length ≤ opts.conversationOfUserMaxCount)
    (hreread : ∀ c ∈ cs, c.reread = c) :
    Sound (cs.foldl addLoaded u) ∧ (cs.foldl addLoaded u).values = u.values ++ cs := by
  induction cs generalizing u with
  | nil => exact ⟨hu,(List.append_nil _).symm⟩
  | cons c cs ih =>
    rw [List.length_cons] at hroom
    have hk := habsent c List.mem_cons_self
    have hlt : u.cache.len < opts.conversationOfUserMaxCount := by omega
    have hadded : Sound (u.addLoaded c) :=
      (hu.alloc c).add_new (.alloc hk (hreread c List.mem_cons_self))
    have hlen : (u.addLoaded c).cache.len ≤ u.cache.len + 1 := Lru.len_add_le _ _ _
    obtain ⟨hnew,hrest⟩ := List.nodup_cons.mp hdistinct
    have habsent' : ∀ d ∈ cs, (u.addLoaded c).cache.peek (conversationKey d) = none := by
      intro d hd
      have hne : conversationKey d ≠ conversationKey c := by
        intro heq
        exact hnew (heq ▸ List.mem_map_of_mem hd)
      have hpeek : (u.addLoaded c).cache.peek (conversationKey d) =
          if conversationKey d = conversationKey c then some u.next
          else u.cache.peek (conversationKey d) := Lru.peek_add_room (Or.inr hlt) ..
      rw [hpeek, if_neg hne]
      exact habsent d (List.mem_cons_of_mem _ hd)
    obtain ⟨hs,hv⟩ := ih hadded hrest habsent' (by omega)
      (fun d hd => hreread d (List.mem_cons_of_mem _ hd))
    refine ⟨hs,?_⟩
    rw [List.foldl_cons, hv, values_addLoaded hu hk hlt, List.append_assoc]
    rfl

theorem loadIfEmpty_of_len (h : u.cache.len ≠ 0) : u.loadIfEmpty = u := by
  rw [loadIfEmpty, if_neg h]

theorem loadIfEmpty_fresh (hu : Sound u) (hlen : u.cache.len = 0)
    (hs : Storable opts.conversationOfUserMaxCount u.stored) :
    Sound u.loadIfEmpty ∧ u.loadIfEmpty.values = u.stored ∧ u.loadIfEmpty.stored = u.stored := by
  have hroom : u.cache.len + u.stored.length ≤ opts.conversationOfUserMaxCount := by
    rw [hlen, Nat.zero_add]
    exact hs.bound
  obtain ⟨hsound,hvalues⟩ := foldl_addLoaded hu hs.distinct
    (fun c _ => Lru.peek_of_len hlen (conversationKey c)) hroom hs.reread
  have hempty : u.values = [] := by
    rw [values, Lru.values, Lru.len_eq_zero.mp hlen]
    rfl
  rw [loadIfEmpty, if_pos hlen]
  refine ⟨hsound,?_,stored_foldl u.stored u⟩
  rw [hvalues, hempty, List.nil_append]

theorem Saved.of_perm {u' : UserObjects opts} (hs : Saved u) (hstored : u'.stored = u.stored)
    (hvalues : u'.values.Perm u.values) : Saved u' := by
  rw [Saved, hstored]
  exact List.Perm.trans hs (hvalues.map unversioned).symm

structure Ready (u : UserObjects opts) : Prop where
  loaded : u.processed = true → u.cache.len ≠ 0
  empty : u.processed = false → u.cache.len = 0
  storable : u.processed = false → Storable opts.conversationOfUserMaxCount u.stored

structure Loaded (u u₁ : UserObjects opts) : Prop where
  sound : Sound u₁
  processed : u₁.processed = true
  stored : u₁.stored = u.stored
  cache : u.processed = true → u₁.cache.values.Perm u.cache.values
  saved : (u.processed = true → Saved u) → Saved u₁

theorem Ready.load (hr : Ready u) (hu : Sound u) :
    Loaded u { u.loadIfEmpty with processed := true } := by
  cases hp : u.processed with
  | true =>
    rw [loadIfEmpty_of_len (hr.loaded hp)]
    exact ⟨⟨hu.key,hu.reread,hu.allocated⟩,rfl,rfl,fun _ => .refl _,fun hs => hs hp⟩
  | false =>
    obtain ⟨hsound,hvalues,hstored⟩ := loadIfEmpty_fresh hu (hr.empty hp) (hr.storable hp)
    refine ⟨⟨hsound.key,hsound.reread,hsound.allocated⟩,rfl,hstored,fun htrue => ?_,fun _ => ?_⟩
    · rw [hp] at htrue
      cases htrue
    · have hsame : u.loadIfEmpty.stored = u.loadIfEmpty.values := hstored.trans hvalues.symm
      change (u.loadIfEmpty.stored.map unversioned).Perm (u.loadIfEmpty.values.map unversioned)
      rw [hsame]

theorem Loaded.of_cache {u₁ : UserObjects opts} (hl : Loaded u u₁)
    {cache : Lru opts.conversationOfUserMaxCount Bytes Nat}
    (hpeek : ∀ k, cache.peek k = u₁.cache.peek k) (hperm : cache.values.Perm u₁.cache.values) :
    Loaded u { u₁ with cache := cache } := by
  refine ⟨⟨fun k h hk => ?_,fun k h hk => ?_,fun k h hk => ?_⟩,hl.processed,hl.stored,fun hp => ?_,
    fun hs => ?_⟩
  · exact hl.sound.key k h ((hpeek k).symm.trans hk)
  · exact hl.sound.reread k h ((hpeek k).symm.trans hk)
  · exact hl.sound.allocated k h ((hpeek k).symm.trans hk)
  · exact hperm.trans (hl.cache hp)
  · exact (hl.saved hs).of_perm rfl (hperm.map _)

structure LookedUp (k : Bytes) (u u' : UserObjects opts) (h : Nat) (modify : Bool) : Prop where
  sound : Sound u'
  processed : u'.processed = true
  stored : u'.stored = u.stored
  cache : u.processed = true → u'.cache.values.Perm u.cache.values
  saved : modify = false → (u.processed = true → Saved u) → Saved u'
  found : u'.cache.peek k = some h ∨ modify = true ∧ New u' k h

theorem Loaded.create {u₁ : UserObjects opts} (hl : Loaded u u₁)
    (hk : u₁.cache.peek (conversationKey c) = none) (hc : c.reread = c) :
    LookedUp (conversationKey c) u (u₁.alloc c) u₁.next true := by
  refine ⟨hl.sound.alloc c,hl.processed,hl.stored,hl.cache,fun hm => ?_,Or.inr ⟨rfl,.alloc hk hc⟩⟩
  cases hm

theorem Sound.set (hu : Sound u) (hk : u.cache.peek k = some h) (hkey : conversationKey c = k)
    (hc : c.reread = c) : Sound { u with objects := Function.update u.objects h c } := by
  refine ⟨fun k' h' hk' => ?_,fun k' h' hk' => ?_,hu.allocated⟩
  · rcases eq_or_ne h' h with rfl | hne
    · simp only [Function.update_self, hkey]
      exact hu.inj hk hk'
    · simp only [Function.update_of_ne hne]
      exact hu.key k' h' hk'
  · rcases eq_or_ne h' h with rfl | hne
    · simp only [Function.update_self, hc]
    · simp only [Function.update_of_ne hne]
      exact hu.reread k' h' hk'

theorem Saved.set (hs : Saved u) (hc : unversioned c = unversioned (u.objects h)) :
    Saved { u with objects := Function.update u.objects h c } := by
  have hsame : (u.cache.values.map (Function.update u.objects h c)).map unversioned =
      (u.cache.values.map u.objects).map unversioned := by
    rw [List.map_map, List.map_map]
    refine List.map_congr_left fun x _ => ?_
    rcases eq_or_ne x h with rfl | hne
    · simp only [Function.comp_apply, Function.update_self, hc]
    · simp only [Function.comp_apply, Function.update_of_ne hne]
  change (u.stored.map unversioned).Perm
    ((u.cache.values.map (Function.update u.objects h c)).map unversioned)
  rw [hsame]
  exact hs

theorem Loaded.update {u₁ : UserObjects opts} (hl : Loaded u u₁) {m : Message} {subscriber : Bytes}
    (hm : (createConversation m subscriber 0).reread = createConversation m subscriber 0)
    (hk : u₁.cache.peek k = some h) (now : Int64) :
    LookedUp k u
      { u₁ with
        objects := Function.update u₁.objects h
          (updateConversation m subscriber now (u₁.objects h)).1 }
      h (updateConversation m subscriber now (u₁.objects h)).2 := by
  have hkey : conversationKey (updateConversation m subscriber now (u₁.objects h)).1 = k :=
    (conversationKey_update m subscriber now _).trans (hl.sound.key k h hk)
  have hreread := reread_update hm (hl.sound.reread k h hk) now
  exact ⟨hl.sound.set hk hkey hreread,hl.processed,hl.stored,hl.cache,
    fun hsame hs => (hl.saved hs).set (unversioned_update hsame),Or.inl hk⟩

theorem Ready.lookup (hr : Ready u) (hu : Sound u) {m : Message} {subscriber : Bytes}
    (hm : (createConversation m subscriber 0).reread = createConversation m subscriber 0)
    (now : Int64) :
    LookedUp (m.key subscriber) u (u.lookup m subscriber now).1 (u.lookup m subscriber now).2.1
      (u.lookup m subscriber now).2.2 := by
  have hl := hr.load hu
  have hl₁ := hl.of_cache (fun k => Lru.peek_get (m.key subscriber) k _) (Lru.values_get _ _)
  have hl₂ := hl₁.of_cache (fun k => Lru.peek_get (m.key subscriber) k _) (Lru.values_get _ _)
  rw [UserObjects.lookup]
  simp only
  cases hget : (u.loadIfEmpty.cache.get (m.key subscriber)).2.get (m.key subscriber) with
  | mk found cache =>
    simp only [hget] at hl₂
    obtain ⟨hfound,hpeek⟩ := Lru.get_result hget
    cases found with
    | none =>
      exact hl₂.create (c := createConversation m subscriber now) hpeek (reread_create hm now)
    | some h => exact hl₂.update hm hpeek now

theorem Saved.store (hu : Sound u) {conversations : List Nat}
    (hperm : conversations.Perm u.cache.values) : Saved (u.store conversations) := by
  have hsame : (conversations.map u.objects).map Conversation.reread =
      conversations.map u.objects := by
    rw [List.map_map]
    refine List.map_congr_left fun h hh => ?_
    obtain ⟨k,hk⟩ := Lru.mem_values.mp (hperm.mem_iff.mp hh)
    exact hu.reread k h hk
  change (((conversations.map u.objects).map Conversation.reread).map unversioned).Perm
    ((u.cache.values.map u.objects).map unversioned)
  rw [hsame]
  exact (hperm.map _).map _

theorem readCache_eq (u : UserObjects opts) : u.readCache = (u.cache.values,u) := by
  rw [readCache, Lru.readAll_eq]

def toUser (needSave : Bool) (u : UserObjects opts) : UserConversations opts :=
  ⟨u.cache.map u.objects,needSave,u.stored⟩

theorem toUser_addLoaded (hu : ∀ k h, u.cache.peek k = some h → h < u.next)
    (c : Conversation) : (u.addLoaded c).cache.map (u.addLoaded c).objects =
      (u.cache.map u.objects).add (conversationKey c) c := by
  have hself : (u.addLoaded c).objects u.next = c := Function.update_self ..
  have hadd := Lru.add_map (u.addLoaded c).objects (conversationKey c) u.next u.cache
  rw [hself] at hadd
  have hold : u.cache.map (u.addLoaded c).objects = u.cache.map u.objects := by
    refine Lru.map_congr fun h hh => ?_
    obtain ⟨k,hk⟩ := Lru.mem_values.mp hh
    exact Function.update_of_ne (Nat.ne_of_lt (hu k h hk)) ..
  rw [← hold, hadd]
  rfl

theorem toUser_foldl (cs : List Conversation) (hu : ∀ k h, u.cache.peek k = some h → h < u.next) :
    (cs.foldl addLoaded u).cache.map (cs.foldl addLoaded u).objects =
      UserConversations.addAll cs (u.cache.map u.objects) := by
  induction cs generalizing u with
  | nil => rfl
  | cons c cs ih =>
    have hadded : ∀ k h, (u.addLoaded c).cache.peek k = some h → h < (u.addLoaded c).next := by
      intro k h hk
      rcases Lru.peek_of_add hk with ⟨-,rfl⟩ | hold
      · exact Nat.lt_succ_self _
      · exact Nat.lt_succ_of_lt (hu k h hold)
    rw [List.foldl_cons, ih hadded, toUser_addLoaded hu, UserConversations.addAll,
      UserConversations.addAll, List.foldl_cons]

theorem toUser_loadIfEmpty (needSave : Bool) (hu : Sound u) :
    u.loadIfEmpty.toUser needSave = (u.toUser needSave).loadIfEmpty := by
  have hlen : (u.toUser needSave).cache.len = u.cache.len := Lru.len_map _ _
  rw [loadIfEmpty, UserConversations.loadIfEmpty, hlen]
  split
  · rw [toUser, toUser_foldl u.stored hu.allocated, stored_foldl]
    rfl
  · rfl

-- a message calculated without interruption does what the sequential calConversation does
theorem calConversation_alone (hu : Sound u) (hr : Ready u) (m : Message) (subscriber : Bytes)
    (now : Int64) (needSave : Bool) :
    ((u.lookup m subscriber now).1.add (m.key subscriber) (u.lookup m subscriber now).2.1).toUser
        (needSave || (u.lookup m subscriber now).2.2) =
      (u.toUser needSave).calConversation m subscriber now := by
  have hl := hr.load hu
  have hl₁ := hl.of_cache (fun k => Lru.peek_get (m.key subscriber) k _) (Lru.values_get _ _)
  have hl₂ := hl₁.of_cache (fun k => Lru.peek_get (m.key subscriber) k _) (Lru.values_get _ _)
  have hload : (u.toUser needSave).loadIfEmpty =
      ⟨u.loadIfEmpty.cache.map u.loadIfEmpty.objects,needSave,u.loadIfEmpty.stored⟩ :=
    (toUser_loadIfEmpty needSave hu).symm
  rw [UserObjects.lookup, UserConversations.calConversation]
  simp only [hload, Lru.get_map]
  cases hget : (u.loadIfEmpty.cache.get (m.key subscriber)).2.get (m.key subscriber) with
  | mk found cache =>
    simp only [hget] at hl₂
    obtain ⟨hfound,hpeek⟩ := Lru.get_result hget
    cases found with
    | none =>
      have hnew : ∀ k' x, cache.peek k' = some x → k' ≠ m.key subscriber → x ≠ u.loadIfEmpty.next :=
        fun k' x hx _ => Nat.ne_of_lt (hl₂.sound.allocated k' x hx)
      have hadd := Lru.add_map_update (f := u.loadIfEmpty.objects) hnew
        (createConversation m subscriber now)
      rw [← hfound]
      simp only [Option.map_none, toUser, UserObjects.add, alloc, hadd, Bool.or_true]
    | some h =>
      have hother : ∀ k' x, cache.peek k' = some x → k' ≠ m.key subscriber → x ≠ h := by
        rintro k' x hx hne rfl
        exact hne (hl₂.sound.inj hx hpeek)
      have hadd := Lru.add_map_update (f := u.loadIfEmpty.objects) hother
        (updateConversation m subscriber now (u.loadIfEmpty.objects h)).1
      rw [← hfound]
      simp only [Option.map_some, toUser, UserObjects.add, hadd]

theorem flushConversations_alone (u : UserObjects opts) :
    (u.store u.readCache.1).toUser false = (u.toUser true).flushConversations := by
  rw [UserConversations.flush_of_save rfl, readCache_eq]
  have hvalues : (u.toUser true).cache.values = u.cache.values.map u.objects := Lru.values_map _ _
  rw [hvalues]
  rfl

end UserObjects
end LiMaoIM.Lim

import LiMaoIM.Db.Restored

namespace LiMaoIM.Db

open Outcome Proto Proto.Encoder Proto.Decoder ByteReader

structure Recovery where
  store : Store
  reader : Bytes

def readBytes (n : Nat) : ByteReader Bytes := fun bs =>
  if bs = [] then .error "EOF"
  else .ok (bs.take n ++ List.replicate (n - bs.length) 0,bs.drop n)

def binaryRead (n : Nat) : ByteReader Nat := fun bs =>
  if bs = [] then .error "EOF"
  else if bs.length < n then .error "unexpected EOF"
  else .ok (Bytes.uint (bs.take n),bs.drop n)

def hexText (bs : Bytes) : String :=
  String.ofList (Bytes.chars (bs.flatMap fun b =>
    [Bytes.hexDigit (b.toNat / 16),Bytes.hexDigit (b.toNat % 16)]))

def magicError (what : String) (expected actual : Bytes) : String :=
  what ++ " 期望:" ++ hexText expected ++ " 实际:" ++ hexText actual

def readBaseDataHeader : ByteReader (UInt32 × Int32) := do
  let magicNumber ← readBytes backupSlotMagicNumber.length
  if magicNumber ≠ backupSlotMagicNumber then
    ByteReader.lift (.error (magicError "BackupSlotMagicNumber is error" backupSlotMagicNumber
      magicNumber))
  else do
    let slot ← uint32
    let keyN ← int32
    pure (slot,keyN)

def recoverPairs (slot : Nat) : Nat → FileDB → ByteReader FileDB
  | 0, db => pure db
  | n + 1, db => do
      let key ← binary
      let value ← binary
      let db ← ByteReader.lift (db.set slot key value)
      recoverPairs slot n db

namespace Recovery

variable {α : Type}

def read (r : ByteReader α) : Exec Recovery α := fun s =>
  match r s.reader with
  | .ok (a,rest) => (.ok a,{ s with reader := rest })
  | .error e => (.error e,s)
  | .panic e => (.panic e,s)

def onStore (x : Exec Store α) : Exec Recovery α := fun s =>
  ((x s.store).1,{ s with store := (x s.store).2 })

def recoverBaseData : List UInt32 → Exec Recovery Unit
  | [] => pure ()
  | _ :: vaildSlots => do
      let (slot,keyN) ← read readBaseDataHeader
      let s ← Exec.get
      let db ← read (recoverPairs slot.toNat keyN.toInt.toNat s.store.db)
      Exec.modify fun s => { s with store := { s.store with db := db } }
      recoverBaseData vaildSlots

def restoreMessage (data : Bytes) : Exec Recovery Bool := do
  let (message,_) ← Exec.lift (unmarshalMessage .zero data)
  let message := { message with appliIndex := 0 }
  let _ ← onStore (if Bytes.isBlank message.queueUID then Store.appendMessage message
    else Store.appendMessageOfUser message)
  pure false

def recoverMessage : Exec Recovery Bool := do
  match ← Exec.attempt (read (readBytes magicNumber.length)) with
  | .error e => if e = "EOF" then pure true else pure false
  | .ok startMagicNumber =>
      if startMagicNumber ≠ magicNumber then
        Exec.lift (.error (magicError "消息开始魔法数错误" magicNumber startMagicNumber))
      else
        match ← Exec.attempt (read (readBytes 1)) with
        | .error _ => pure false
        | .ok _ => do
            let dataLen ← read (binaryRead logDataLenSize)
            let _ ← read (binaryRead offsetSize)
            let _ ← read (binaryRead appliIndexSize)
            let data ← read (readBytes dataLen)
            let endMagic ← read (readBytes endMagicNumber.length)
            if endMagic ≠ endMagicNumber then
              Exec.lift (.error (magicError "消息结尾魔法数错误" endMagicNumber endMagic))
            else restoreMessage data

def recoverMessagesLoop : Nat → Exec Recovery Unit
  | 0 => Exec.lift (.panic "recoverMessages does not terminate")
  | fuel + 1 => do
      let finished ← recoverMessage
      if finished = true then pure () else recoverMessagesLoop fuel

def recoverMessages : Exec Recovery Unit := fun s => recoverMessagesLoop (s.reader.length + 1) s

def recoverSlotBackup : Exec Recovery Unit := do
  let magicNumber ← read (readBytes backupMagicNumber.length)
  if magicNumber ≠ backupMagicNumber then
    Exec.lift (.error (magicError "BackupMagicNumber is error" backupMagicNumber magicNumber))
  else do
    let slots ← read binary
    if getVaildSlots slots = [] then pure ()
    else do
      recoverBaseData (getVaildSlots slots)
      recoverMessages

end Recovery

def Store.recoverSlotBackup (reader : Bytes) (st : Store) : Outcome Unit × Store :=
  ((Recovery.recoverSlotBackup ⟨st,reader⟩).1,(Recovery.recoverSlotBackup ⟨st,reader⟩).2.store)

theorem reads_readBytes {b : Bytes} {n : Nat} (hn : 0 < n) (hl : b.length = n) :
    Reads (readBytes n) b b := by
  intro rest
  subst hl
  have hne : b ++ rest ≠ [] := by
    intro h
    rw [List.append_eq_nil_iff] at h
    rw [h.1] at hn
    exact absurd hn (Nat.lt_irrefl _)
  have hfull : b.length - (b ++ rest).length = 0 := by
    rw [List.length_append]
    omega
  rw [readBytes, if_neg hne, List.take_left, List.drop_left, hfull, List.replicate_zero,
    List.append_nil]

theorem reads_binaryRead {w n : Nat} (hw : 0 < w) (hn : n < 256 ^ w) :
    Reads (binaryRead w) (Bytes.putUint w n) n := by
  intro rest
  have hlen := Bytes.length_putUint w n
  have hne : Bytes.putUint w n ++ rest ≠ [] := by
    intro h
    rw [List.append_eq_nil_iff] at h
    rw [h.1] at hlen
    exact absurd hlen.symm (Nat.ne_of_gt hw)
  have hroom : ¬ (Bytes.putUint w n ++ rest).length < w := by
    rw [List.length_append, hlen]
    omega
  have htake : (Bytes.putUint w n ++ rest).take w = Bytes.putUint w n := List.take_left' hlen
  have hdrop : (Bytes.putUint w n ++ rest).drop w = rest := List.drop_left' hlen
  rw [binaryRead, if_neg hne, if_neg hroom, htake, hdrop, Bytes.uint_putUint_of_lt hn]

theorem reads_readBaseDataHeader (slot : UInt32) (keyN : Int32) :
    Reads readBaseDataHeader (backupSlotMagicNumber ++ writeUint32 slot ++ writeInt32 keyN)
      (slot,keyN) := by
  have htail : Reads (do let slot ← uint32; let keyN ← int32; pure (slot,keyN))
      (writeUint32 slot ++ writeInt32 keyN) (slot,keyN) :=
    (reads_uint32 slot).bind ((reads_int32 keyN).andThen (reads_pure _))
  rw [List.append_assoc]
  refine (reads_readBytes (n := backupSlotMagicNumber.length) (by decide) rfl).bind ?_
  rw [if_neg (by simp)]
  exact htail

def putPairs (slot : Nat) (pairs : List (Bytes × Bytes)) (db : FileDB) : FileDB :=
  pairs.foldl (fun db e => db.put slot e.1 e.2) db

theorem reads_recoverPairs {slot : Nat} {pairs : List (Bytes × Bytes)} {db : FileDB}
    (hslot : slot < db.slotCount)
    (hshort : ∀ e ∈ pairs, e.1.length < 2 ^ 15 ∧ e.2.length < 2 ^ 15) :
    Reads (recoverPairs slot pairs.length db)
      (pairs.flatMap fun e => writeBinary e.1 ++ writeBinary e.2) (putPairs slot pairs db) := by
  induction pairs generalizing db with
  | nil => exact reads_pure db
  | cons e pairs ih =>
    obtain ⟨hkey,hvalue⟩ := hshort e List.mem_cons_self
    have hset : db.set slot e.1 e.2 = .ok (db.put slot e.1 e.2) := by
      rw [FileDB.set, FileDB.getSlotBucket, if_pos hslot]
      rfl
    have hrest : Reads (recoverPairs slot pairs.length (db.put slot e.1 e.2)) _ _ :=
      ih hslot fun x hx => hshort x (List.mem_cons_of_mem _ hx)
    rw [List.flatMap_cons, List.append_assoc]
    refine (reads_binary e.1 hkey).bind ((reads_binary e.2 hvalue).bind ?_)
    have hlift := (reads_lift hset).bind (f := fun db => recoverPairs slot pairs.length db) hrest
    rwa [List.nil_append] at hlift

namespace Recovery

variable {α : Type} {st : Store} {rest : Bytes} {l : Log}

theorem read_of {r : ByteReader α} {bs : Bytes} {a : α} (h : Reads r bs a) (st : Store)
    (rest : Bytes) : read r ⟨st,bs ++ rest⟩ = (.ok a,⟨st,rest⟩) := by
  rw [read, h rest]

theorem recoverMessage_wrap (hl : l.data.length ≤ logMaxSize) (hpos : 0 < l.data.length)
    (st : Store) (rest : Bytes) :
    recoverMessage ⟨st,l.wrap ++ rest⟩ = restoreMessage l.data ⟨st,rest⟩ := by
  have hwrap : l.wrap ++ rest = magicNumber ++ (logVersion ++ (Bytes.putUint logDataLenSize
      l.data.length ++ (Bytes.putUint offsetSize l.offset.toUInt64.toNat ++ (Bytes.putUint
        appliIndexSize l.appliIndex.toNat ++ (l.data ++ (endMagicNumber ++ rest)))))) := by
    simp [Log.wrap, wrapLogData, writeInt64, offsetSize]
  have hlen : l.data.length < 256 ^ logDataLenSize := by
    rw [logDataLenSize]
    rw [logMaxSize] at hl
    omega
  rw [hwrap, recoverMessage,
    Exec.bind_of_ok (Exec.attempt_of_ok (read_of (reads_readBytes (by decide) rfl) st _))]
  simp only [ne_eq, not_true_eq_false, if_false]
  rw [Exec.bind_of_ok (Exec.attempt_of_ok (read_of (reads_readBytes (b := logVersion) (n := 1)
    (by decide) rfl) st _))]
  simp only
  rw [Exec.bind_of_ok (read_of (reads_binaryRead (by decide) hlen) st _),
    Exec.bind_of_ok (read_of (reads_binaryRead (w := offsetSize) (by decide)
      l.offset.toUInt64.toNat_lt) st _),
    Exec.bind_of_ok (read_of (reads_binaryRead (w := appliIndexSize) (by decide)
      l.appliIndex.toNat_lt) st _),
    Exec.bind_of_ok (read_of (reads_readBytes hpos rfl) st _),
    Exec.bind_of_ok (read_of (reads_readBytes (b := endMagicNumber) (by decide) rfl) st _),
    if_neg (by simp)]

theorem recoverMessage_end (st : Store) : recoverMessage ⟨st,[]⟩ = (.ok true,⟨st,[]⟩) := by
  rfl

theorem append_home (m : Message) (hn : st.db.slotCount % 2 ^ 32 ≠ 0) :
    (if Bytes.isBlank m.queueUID then Store.appendMessage m else Store.appendMessageOfUser m) st =
      Store.onTopic (m.home st.db.slotCount).1 (m.home st.db.slotCount).2 (Topic.appendLog m.toLog)
        st := by
  rw [Message.home]
  split
  · have hslot : st.db.slotNumForChannel m.channelID m.channelType =
        .ok (slotOf st.db.slotCount m.channelID) := getSlotNum_ok hn m.channelID
    rw [Store.appendMessage, Exec.get_bind, hslot, Exec.bind_of_ok (Exec.lift_apply _)]
    rfl
  · rename_i hblank
    have hslot : st.db.slotNum m.queueUID = .ok (slotOf st.db.slotCount m.queueUID) :=
      getSlotNum_ok hn m.queueUID
    rw [Store.appendMessageOfUser, if_neg hblank, Exec.get_bind, hslot,
      Exec.bind_of_ok (Exec.lift_apply _)]
    rfl

section Restoring

variable {held : Nat × Bytes → List Log}

theorem restoreMessage_home {m₀ : Message} {k : Nat × Bytes} (rest : Bytes)
    (hn : st.db.slotCount % 2 ^ 32 ≠ 0) (hfits : m₀.Fits)
    (hk : m₀.toLog.home st.db.slotCount = some k) (h : Holding st held) :
    ∃ st', restoreMessage m₀.toLog.data ⟨st,rest⟩ = (.ok false,⟨st',rest⟩) ∧ st'.db = st.db ∧
      Holding st' (Function.update held k (keep (held k) m₀.toLog.reset)) := by
  rw [Log.home] at hk
  split at hk
  · rename_i m r hm
    cases hk
    obtain ⟨-,-,happli⟩ := unmarshalMessage_eq_ok hm
    have hlog := unmarshalMessage_toLog hm
    have hsame : ({ m with appliIndex := 0 } : Message) = m := by rw [← happli]
    have h0 : 0 ≤ m₀.toLog.reset.offset.toInt := by
      rw [← hlog, m.toInt_offset]
      exact Int.natCast_nonneg _
    have hlen : m₀.toLog.reset.data.length ≤ logMaxSize := hfits
    obtain ⟨n,st',happ,hdb,hheld⟩ := h.append (m.home st.db.slotCount) hlen h0
    rw [← hlog, ← append_home m hn] at happ
    refine ⟨st',?_,hdb,hheld⟩
    rw [restoreMessage, Exec.bind_of_ok (by rw [Exec.lift_apply, hm])]
    simp only [hsame]
    rw [Exec.bind_of_ok (by rw [onStore, happ])]
    rfl
  · cases hk
  · cases hk

theorem restoreMessage_none {slotCount : Nat} (hk : l.home slotCount = none) (s : Recovery) (b : Bool) :
    (restoreMessage l.data s).1 ≠ .ok b := by
  rw [Log.home] at hk
  split at hk
  · cases hk
  · rename_i e he
    rw [restoreMessage, Exec.bind_of_error (by rw [Exec.lift_apply, he])]
    simp
  · rename_i e he
    rw [restoreMessage, Exec.bind_of_panic (by rw [Exec.lift_apply, he])]
    simp

end Restoring
end Recovery

theorem length_marshalMessage_pos (m : Message) : 0 < (marshalMessage m).length := by
  simp [marshalMessage, writeUint8]

def placedLogs (slotCount : Nat) (ls : List Log) (k : Nat × Bytes) : List Log :=
  (ls.filter fun l => l.home slotCount = some k).map Log.reset

namespace Recovery

variable {st : Store} {held : Nat × Bytes → List Log} {ls : List Log}

theorem recoverMessagesLoop_joined {fuel : Nat} (hf : ls.length < fuel)
    (hn : ls ≠ [] → st.db.slotCount % 2 ^ 32 ≠ 0)
    (hls : ∀ l ∈ ls, ∃ m : Message, l = m.toLog ∧ m.Fits)
    (hhome : ∀ l ∈ ls, l.home st.db.slotCount ≠ none) (h : Holding st held) :
    ∃ st', recoverMessagesLoop fuel ⟨st,joined ls⟩ = (.ok (),⟨st',[]⟩) ∧ st'.db = st.db ∧
      Holding st' fun k => (placedLogs st.db.slotCount ls k).foldl keep (held k) := by
  induction ls generalizing fuel st held with
  | nil =>
    obtain ⟨fuel,rfl⟩ : ∃ n, fuel = n + 1 := ⟨fuel - 1,by simp at hf; omega⟩
    refine ⟨st,?_,rfl,h⟩
    rw [recoverMessagesLoop, joined_nil, Exec.bind_of_ok (recoverMessage_end st), if_pos rfl]
    rfl
  | cons l ls ih =>
    obtain ⟨fuel,rfl⟩ : ∃ n, fuel = n + 1 := ⟨fuel - 1,by omega⟩
    obtain ⟨m,rfl,hfits⟩ := hls l List.mem_cons_self
    obtain ⟨k,hk⟩ := Option.ne_none_iff_exists'.mp (hhome _ List.mem_cons_self)
    obtain ⟨st₁,hone,hdb,hheld⟩ := restoreMessage_home (joined ls) (hn (by simp)) hfits hk h
    obtain ⟨st',hrun,hdb',hheld'⟩ := ih (by simpa using hf)
      (fun _ => by rw [hdb]; exact hn (by simp)) (fun x hx => hls x (List.mem_cons_of_mem _ hx))
      (fun x hx => by rw [hdb]; exact hhome x (List.mem_cons_of_mem _ hx)) hheld
    refine ⟨st',?_,hdb'.trans hdb,?_⟩
    · rw [recoverMessagesLoop, joined_cons, Exec.bind_of_ok ((recoverMessage_wrap (l := m.toLog) hfits
        (length_marshalMessage_pos m) st (joined ls)).trans hone), if_neg (by simp)]
      exact hrun
    · intro slot topic
      obtain ⟨parts,ho,hflat⟩ := hheld' slot topic
      refine ⟨parts,ho,hflat.trans ?_⟩
      rw [hdb]
      by_cases heq : k = (slot,topic)
      · subst heq
        simp [placedLogs, hk]
      · have hne : ¬ m.toLog.home st.db.slotCount = some (slot,topic) := by
          rw [hk, Option.some.injEq]
          exact heq
        simp only [Function.update_of_ne (Ne.symm heq)]
        simp [placedLogs, hne]

theorem recoverMessagesLoop_homes {fuel : Nat} (hf : ls.length < fuel)
    (hn : ls ≠ [] → st.db.slotCount % 2 ^ 32 ≠ 0)
    (hls : ∀ l ∈ ls, ∃ m : Message, l = m.toLog ∧ m.Fits) (h : Holding st held)
    (hok : (recoverMessagesLoop fuel ⟨st,joined ls⟩).1 = .ok ()) :
    ∀ l ∈ ls, l.home st.db.slotCount ≠ none := by
  induction ls generalizing fuel st held with
  | nil => simp
  | cons l ls ih =>
    obtain ⟨fuel,rfl⟩ : ∃ n, fuel = n + 1 := ⟨fuel - 1,by omega⟩
    obtain ⟨m,rfl,hfits⟩ := hls l List.mem_cons_self
    have hwrap := recoverMessage_wrap (l := m.toLog) hfits (length_marshalMessage_pos m) st (joined ls)
    rw [recoverMessagesLoop, joined_cons] at hok
    cases hk : m.toLog.home st.db.slotCount with
    | none =>
      have hstop := restoreMessage_none hk ⟨st,joined ls⟩
      rcases hrun : restoreMessage m.toLog.data ⟨st,joined ls⟩ with ⟨r,s⟩
      rw [hrun] at hstop hwrap
      cases r with
      | ok b => exact absurd rfl (hstop b)
      | error e =>
        rw [Exec.bind_of_error hwrap] at hok
        cases hok
      | panic e =>
        rw [Exec.bind_of_panic hwrap] at hok
        cases hok
    | some k =>
      obtain ⟨st₁,hone,hdb,hheld⟩ := restoreMessage_home (joined ls) (hn (by simp)) hfits hk h
      rw [Exec.bind_of_ok (hwrap.trans hone), if_neg (by simp)] at hok
      have hrest := ih (by simpa using hf) (fun _ => by rw [hdb]; exact hn (by simp))
        (fun x hx => hls x (List.mem_cons_of_mem _ hx)) hheld hok
      intro x hx
      rcases List.mem_cons.mp hx with rfl | hx
      · rw [hk]
        simp
      · rw [← hdb]
        exact hrest x hx

end Recovery

section BaseData

variable {slot : Nat} {pairs : List (Bytes × Bytes)} {db : FileDB}

@[simp] theorem slotCount_putPairs : (putPairs slot pairs db).slotCount = db.slotCount := by
  induction pairs generalizing db with
  | nil => rfl
  | cons e pairs ih => exact ih

theorem entry_putPairs (hn : (Assoc.keys pairs).Nodup) (slot' : Nat) (key : Bytes) :
    (putPairs slot pairs db).entry slot' key =
      if slot' = slot then (Assoc.get key pairs).or (db.entry slot' key) else db.entry slot' key := by
  induction pairs generalizing db with
  | nil => simp [putPairs, Assoc.get]
  | cons e pairs ih =>
    obtain ⟨k,v⟩ := e
    obtain ⟨hk,hn⟩ := List.nodup_cons.mp hn
    have hrest : (putPairs slot pairs (db.put slot k v)).entry slot' key = _ := ih hn
    rw [putPairs] at hrest ⊢
    rw [List.foldl_cons, hrest]
    by_cases hs : slot' = slot
    · subst hs
      rw [if_pos rfl, if_pos rfl, Assoc.get]
      by_cases hkey : k = key
      · subst hkey
        rw [if_pos rfl, Assoc.get_eq_none_iff.mpr hk, Option.none_or, FileDB.entry_put_self]
        rfl
      · rw [if_neg hkey, FileDB.entry_put_ne (Or.inr (Ne.symm hkey))]
    · rw [if_neg hs, if_neg hs, FileDB.entry_put_ne (Or.inl hs)]

def ShortPairs (bucket : List (Bytes × Bytes)) : Prop :=
  ∀ e ∈ bucket, e.1.length < 2 ^ 15 ∧ e.2.length < 2 ^ 15

structure Writable (st : Store) (slot : UInt32) : Prop where
  inRange : slot.toNat < st.db.slotCount
  short : ShortPairs (st.db.buckets slot.toNat)
  count : (st.db.buckets slot.toNat).length < 2 ^ 31

theorem forEach_perm (bucket : List (Bytes × Bytes)) : (forEach bucket).Perm bucket :=
  List.perm_insertionSort _ _

theorem keyN_toNat {n : Nat} (h : n < 2 ^ 31) : (Int32.ofNat n).toInt.toNat = n := by
  rw [Int32.toInt_ofNat_of_lt h, Int.toNat_natCast]

theorem recoverBaseData_backup {src : Store} (hn : ∀ slot, (Assoc.keys (src.db.buckets slot)).Nodup)
    {slots : List UInt32} (hw : ∀ slot ∈ slots, Writable src slot) :
    ∃ bytes, src.backupBaseData slots = .ok bytes ∧ ∀ (st : Store) (rest : Bytes),
      st.db.slotCount = src.db.slotCount → ∃ db,
        Recovery.recoverBaseData slots ⟨st,bytes ++ rest⟩ = (.ok (),⟨{ st with db := db },rest⟩) ∧
        db.slotCount = src.db.slotCount ∧ ∀ slot key, db.entry slot key =
          if slot ∈ slots.map UInt32.toNat then (src.db.entry slot key).or (st.db.entry slot key)
          else st.db.entry slot key := by
  induction slots with
  | nil => exact ⟨[],rfl,fun st rest hc => ⟨st.db,rfl,hc,fun _ _ => by simp⟩⟩
  | cons slot slots ih =>
    obtain ⟨bytes,hbytes,hrecover⟩ := ih fun s hs => hw s (List.mem_cons_of_mem _ hs)
    obtain ⟨hrange,hshort,hcount⟩ := hw slot List.mem_cons_self
    obtain ⟨bucket,hbucket⟩ : ∃ bucket, src.db.buckets slot.toNat = bucket := ⟨_,rfl⟩
    rw [hbucket] at hshort hcount
    have hget : src.db.getSlotBucket slot.toNat = .ok bucket := by
      rw [FileDB.getSlotBucket, if_pos hrange, hbucket]
    have hperm := forEach_perm bucket
    have hnodup : (Assoc.keys (forEach bucket)).Nodup := by
      rw [(Assoc.keys_perm hperm).nodup_iff]
      exact hbucket ▸ hn slot.toNat
    refine ⟨_,by rw [Store.backupBaseData, hget, ok_bind, hbytes, ok_bind, Outcome.pure_eq],?_⟩
    intro st rest hc
    have hpairs : Reads (recoverPairs slot.toNat (Int32.ofNat bucket.length).toInt.toNat st.db)
        ((forEach bucket).flatMap fun e => writeBinary e.1 ++ writeBinary e.2)
        (putPairs slot.toNat (forEach bucket) st.db) := by
      rw [keyN_toNat hcount, ← hperm.length_eq]
      exact reads_recoverPairs (hc ▸ hrange) fun e he => hshort e (hperm.mem_iff.mp he)
    obtain ⟨db,hrun,hcount',hentry⟩ := hrecover
      { st with db := putPairs slot.toNat (forEach bucket) st.db } rest (by rw [slotCount_putPairs, hc])
    refine ⟨db,?_,hcount',fun slot' key => ?_⟩
    · rw [List.append_assoc, List.append_assoc, Recovery.recoverBaseData,
        Exec.bind_of_ok (Recovery.read_of (reads_readBaseDataHeader slot _) st _)]
      simp only [Exec.get_bind]
      rw [Exec.bind_of_ok (Recovery.read_of hpairs st _), Exec.modify_bind]
      exact hrun
    · rw [hentry, entry_putPairs hnodup, Assoc.get_perm hnodup hperm key, List.map_cons]
      by_cases hs : slot' = slot.toNat
      · have hsrc : Assoc.get key bucket = src.db.entry slot' key := by
          rw [FileDB.entry, hs, hbucket]
        have hmem : slot' ∈ slot.toNat :: slots.map UInt32.toNat := hs ▸ List.mem_cons_self
        rw [if_pos hmem, if_pos hs, hsrc, ← Option.or_assoc, Option.or_self, ite_self]
      · have hmem : slot' ∈ slot.toNat :: slots.map UInt32.toNat ↔ slot' ∈ slots.map UInt32.toNat := by
          rw [List.mem_cons]
          exact or_iff_right hs
        simp only [if_neg hs, hmem]

end BaseData

def ShortEntries (st : Store) : Prop := ∀ slot, ShortPairs (st.db.buckets slot)

theorem recoverPairs_short {slot n : Nat} {db db' : FileDB} {bs rest : Bytes}
    (h : recoverPairs slot n db bs = .ok (db',rest))
    (hs : ∀ slot, ShortPairs (db.buckets slot)) : ∀ slot, ShortPairs (db'.buckets slot) := by
  induction n generalizing db bs with
  | zero =>
    cases h
    exact hs
  | succ n ih =>
    obtain ⟨key,_,hkey,h⟩ := ByteReader.bind_eq_ok.mp h
    obtain ⟨value,_,hvalue,h⟩ := ByteReader.bind_eq_ok.mp h
    obtain ⟨db₁,mid,hset,h⟩ := ByteReader.bind_eq_ok.mp h
    obtain ⟨db₂,hok,heq⟩ := Outcome.bind_eq_ok.mp hset
    cases heq
    refine ih h fun slot' e he => ?_
    rw [FileDB.set, FileDB.getSlotBucket] at hok
    split at hok
    · cases hok
      by_cases hslot : slot' = slot
      · subst hslot
        simp only [FileDB.store, Function.update_self] at he
        rcases Assoc.mem_put he with he | rfl
        · exact hs slot' e he
        · exact ⟨(binary_eq_ok hkey).2,(binary_eq_ok hvalue).2⟩
      · simp only [FileDB.store, Function.update_of_ne hslot] at he
        exact hs slot' e he
    · cases hok

namespace Recovery

variable {α : Type} {s : Recovery}

theorem ensures_read {r : ByteReader α} {I : Store → Prop} {Q : α → Prop} (hI : I s.store)
    (hQ : ∀ a rest, r s.reader = .ok (a,rest) → Q a) :
    (read r).Ensures s (fun s => I s.store) (fun a _ => Q a) := by
  constructor
  · rw [read]
    split <;> exact hI
  · intro a ha
    rw [read] at ha
    split at ha
    · rename_i rest hr
      cases ha
      exact hQ a rest hr
    · cases ha
    · cases ha

theorem ensures_reads (r : ByteReader α) {I : Store → Prop} (hI : I s.store) :
    (read r).Ensures s (fun s => I s.store) (fun _ _ => True) :=
  ensures_read (Q := fun _ => True) hI fun _ _ _ => trivial

theorem restoreMessage_short (data : Bytes) (h : ShortEntries s.store) :
    (restoreMessage data).Ensures s (fun s => ShortEntries s.store) (fun _ _ => True) := by
  refine Exec.Ensures.bind (Q := fun _ _ => True) (Exec.Ensures.lift h fun _ _ => trivial)
    fun p s' h' _ => ?_
  refine Exec.Ensures.bind (Q := fun _ _ => True) ⟨?_,fun _ _ => trivial⟩
    fun _ s₁ h₁ _ => Exec.Ensures.pure h₁ trivial
  intro slot
  simp only [onStore]
  split
  · rw [appendMessage_db]
    exact h' slot
  · rw [appendMessageOfUser_db]
    exact h' slot

theorem recoverMessage_short (h : ShortEntries s.store) :
    recoverMessage.Ensures s (fun s => ShortEntries s.store) (fun _ _ => True) := by
  refine Exec.Ensures.bind (Q := fun _ _ => True)
    ((ensures_reads _ h).attempt (fun _ _ _ _ => trivial) fun _ _ _ => trivial) ?_
  rintro (e | start) s₁ h₁ -
  · dsimp only
    split
    · exact Exec.Ensures.pure h₁ trivial
    · exact Exec.Ensures.pure h₁ trivial
  · dsimp only
    split
    · exact Exec.Ensures.lift h₁ fun _ _ => trivial
    · refine Exec.Ensures.bind (Q := fun _ _ => True)
        ((ensures_reads _ h₁).attempt (fun _ _ _ _ => trivial) fun _ _ _ => trivial) ?_
      rintro (e | version) s₂ h₂ -
      · exact Exec.Ensures.pure h₂ trivial
      · refine (ensures_reads _ h₂).bind fun dataLen s₃ h₃ _ => ?_
        refine (ensures_reads _ h₃).bind fun _ s₄ h₄ _ => ?_
        refine (ensures_reads _ h₄).bind fun _ s₅ h₅ _ => ?_
        refine (ensures_reads _ h₅).bind fun data s₆ h₆ _ => ?_
        refine (ensures_reads _ h₆).bind fun endMagic s₇ h₇ _ => ?_
        split
        · exact Exec.Ensures.lift h₇ fun _ _ => trivial
        · exact restoreMessage_short data h₇

theorem recoverMessagesLoop_short (fuel : Nat) (h : ShortEntries s.store) :
    (recoverMessagesLoop fuel).Ensures s (fun s => ShortEntries s.store) (fun _ _ => True) := by
  induction fuel generalizing s with
  | zero => exact Exec.Ensures.lift h fun _ _ => trivial
  | succ fuel ih =>
    refine (recoverMessage_short h).bind fun finished s₁ h₁ _ => ?_
    split
    · exact Exec.Ensures.pure h₁ trivial
    · exact ih h₁

theorem recoverBaseData_short (slots : List UInt32) (h : ShortEntries s.store) :
    (recoverBaseData slots).Ensures s (fun s => ShortEntries s.store) (fun _ _ => True) := by
  induction slots generalizing s with
  | nil => exact Exec.Ensures.pure h trivial
  | cons slot slots ih =>
    refine (ensures_reads _ h).bind fun header s₁ h₁ _ => ?_
    refine Exec.Ensures.get_bind ?_
    refine Exec.Ensures.bind (ensures_read (Q := fun db => ∀ slot, ShortPairs (db.buckets slot)) h₁
      fun db rest hr => recoverPairs_short hr h₁) fun db s₂ h₂ hdb => ?_
    exact Exec.Ensures.bind (Q := fun _ _ => True) ⟨hdb,fun _ _ => trivial⟩ fun _ s₃ h₃ _ => ih h₃

theorem recoverSlotBackup_short (h : ShortEntries s.store) :
    ShortEntries (recoverSlotBackup s).2.store := by
  have hall : recoverSlotBackup.Ensures s (fun s => ShortEntries s.store) (fun _ _ => True) := by
    refine (ensures_reads _ h).bind fun magic s₁ h₁ _ => ?_
    split
    · exact Exec.Ensures.lift h₁ fun _ _ => trivial
    · refine (ensures_reads _ h₁).bind fun slots s₂ h₂ _ => ?_
      split
      · exact Exec.Ensures.pure h₂ trivial
      · refine (recoverBaseData_short _ h₂).bind fun _ s₃ h₃ _ => ?_
        have hloop := recoverMessagesLoop_short (s₃.reader.length + 1) h₃
        exact ⟨hloop.keeps,hloop.post⟩
  exact hall.keeps

end Recovery
end LiMaoIM.Db

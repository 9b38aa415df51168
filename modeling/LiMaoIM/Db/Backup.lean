import LiMaoIM.Foundation.Padded
import LiMaoIM.Db.MessageCodec
import LiMaoIM.Db.OrderedReads
import LiMaoIM.Db.Sequential

namespace LiMaoIM.Db

open Outcome Proto Proto.Encoder

def backupMagicNumber : Bytes := Bytes.ofString "---backup start ---"

def backupSlotMagicNumber : Bytes := [0x0C,0x0D]

def getVaildSlots (bits : Bytes) : List UInt32 :=
  bits.zipIdx.flatMap fun (b,i) => (List.range 8).filterMap fun j =>
    if b >>> UInt8.ofNat j &&& 1 = 1 then some (UInt32.ofNat (i * 8 + j)) else none

def logFileSuffix : Bytes := Bytes.ofString ".log"

def logFileName (baseOffset : Int64) : Bytes :=
  (if baseOffset < 0 then dash :: Bytes.padded 19 baseOffset.toInt.natAbs
    else Bytes.padded 20 baseOffset.toInt.toNat) ++ logFileSuffix

structure SegmentInfo where
  slot : UInt32
  topic : Bytes
  baseOffsets : List Int64

def parseBaseOffsets : List Bytes → Outcome (List Int64)
  | [] => .ok []
  | logFile :: logFiles =>
      match parseInt (Bytes.chars (logFile.take (logFile.length - logFileSuffix.length))) with
      | none => .error "strconv.ParseInt: invalid syntax"
      | some baseOffset => do
          let baseOffsets ← parseBaseOffsets logFiles
          pure (baseOffset :: baseOffsets)

def readFullWrapLog (file : Bytes) (position : Nat) : Outcome (Option (Bytes × UInt64 × Nat)) :=
  match fileReadAt file magicNumber.length position with
  | .error e => if e = "EOF" then .ok none else .error e
  | .panic e => .panic e
  | .ok startBytes =>
      if startBytes ≠ magicNumber then .error "Wrong magic number！"
      else do
        let position := position + startBytes.length
        let versionBytes ← fileReadAt file logVersion.length position
        let position := position + versionBytes.length
        let dataLenBytes ← fileReadAt file logDataLenSize position
        let position := position + dataLenBytes.length
        let offsetBytes ← fileReadAt file offsetSize position
        let position := position + offsetBytes.length
        let appliIndexBytes ← fileReadAt file appliIndexSize position
        let position := position + appliIndexBytes.length
        let data ← fileReadAt file (Bytes.uint dataLenBytes) position
        let position := position + data.length
        let endBytes ← fileReadAt file endMagicNumber.length position
        let position := position + endBytes.length
        if endBytes ≠ endMagicNumber then .error "Wrong end magic number！"
        else
          .ok (some (startBytes ++ versionBytes ++ dataLenBytes ++ offsetBytes ++ appliIndexBytes ++
            data ++ endBytes,UInt64.ofNat (Bytes.uint appliIndexBytes),position))

def scanLoop (file : Bytes) (endAppliIndex : UInt64) : Nat → Nat → Outcome Bytes
  | 0, _ => .panic "scan does not terminate"
  | fuel + 1, position => do
      match ← readFullWrapLog file position with
      | none => pure []
      | some (data,appliIndex,position) =>
          if endAppliIndex ≠ 0 ∧ endAppliIndex < appliIndex then pure []
          else do
            let rest ← scanLoop file endAppliIndex fuel position
            pure (data ++ rest)

def scan (file : Bytes) (endAppliIndex : UInt64) : Outcome Bytes :=
  scanLoop file endAppliIndex (file.length + 1) 0

def forEach (bucket : List (Bytes × Bytes)) : List (Bytes × Bytes) :=
  bucket.insertionSort fun a b => a.1 ≤ b.1

namespace Store

variable (readdir : List Bytes → List Bytes) (st : Store)

def topicDirs (slot : Nat) : List Bytes :=
  st.topics.filterMap fun e => if e.1.1 = slot then some e.1.2 else none

def getSubdir (slot : Nat) : List Bytes := readdir (st.topicDirs slot)

def getSubfiles (slot : Nat) (topic : Bytes) : Outcome (List Bytes) :=
  match Assoc.get (slot,topic) st.topics with
  | none => .error "no such file or directory"
  | some t => .ok (readdir ((Assoc.keys t.dir.logs).map logFileName))

def fillSegmentInfo : SegmentInfo → List Bytes → Outcome SegmentInfo
  | segmentI, [] => .ok segmentI
  | segmentI, topic :: topicList => do
      let logFiles ← st.getSubfiles readdir segmentI.slot.toNat topic
      let baseOffsets ← parseBaseOffsets (logFiles.insertionSort (· ≤ ·))
      fillSegmentInfo { segmentI with topic := topic, baseOffsets := baseOffsets } topicList

def getSegmentInfo : List UInt32 → Outcome (List SegmentInfo)
  | [] => .ok []
  | slot :: slots => do
      let segmentI ← st.fillSegmentInfo readdir ⟨slot,[],[]⟩ (st.getSubdir readdir slot.toNat)
      let segmentInfos ← getSegmentInfo slots
      pure (segmentI :: segmentInfos)

def openLogFile (slot : Nat) (topic : Bytes) (baseOffset : Int64) : Outcome Bytes :=
  match (Assoc.get (slot,topic) st.topics).bind fun t => Assoc.get baseOffset t.dir.logs with
  | none => .error "no such file or directory"
  | some files => .ok files.log

def backupSegments (segmentI : SegmentInfo) : List Int64 → Outcome Bytes
  | [] => .ok []
  | baseOffset :: baseOffsets => do
      let file ← st.openLogFile segmentI.slot.toNat segmentI.topic baseOffset
      let data ← scan file 0
      let rest ← backupSegments segmentI baseOffsets
      pure (data ++ rest)

def backupSegmentInfos : List SegmentInfo → Outcome Bytes
  | [] => .ok []
  | segmentI :: segmentInfos => do
      let data ← st.backupSegments segmentI segmentI.baseOffsets
      let rest ← backupSegmentInfos segmentInfos
      pure (data ++ rest)

def backupMessages (slots : List UInt32) : Outcome Bytes := do
  let segmentInfos ← st.getSegmentInfo readdir slots
  st.backupSegmentInfos segmentInfos

def backupBaseData : List UInt32 → Outcome Bytes
  | [] => .ok []
  | slot :: slots => do
      let b ← st.db.getSlotBucket slot.toNat
      let rest ← backupBaseData slots
      pure (backupSlotMagicNumber ++ writeUint32 slot ++ writeInt32 (Int32.ofNat b.length) ++
        (forEach b).flatMap (fun e => writeBinary e.1 ++ writeBinary e.2) ++ rest)

def backupSlots (slots : Bytes) : Outcome Bytes :=
  if getVaildSlots slots = [] then .ok []
  else do
    let baseData ← st.backupBaseData (getVaildSlots slots)
    let messages ← st.backupMessages readdir (getVaildSlots slots)
    pure (backupMagicNumber ++ writeBinary slots ++ baseData ++ messages)

end Store

section Scanning

variable {file rest : Bytes} {position : Nat} {l : Log}

theorem fileReadAt_wrap (h : file.drop position = l.wrap ++ rest) {a b c : Bytes} {n p : Nat}
    (hw : l.wrap ++ rest = a ++ (b ++ c)) (hn : b.length = n) (hp : position + a.length = p) :
    fileReadAt file n p = .ok b := by
  subst hn hp
  exact fileReadAt_of_drop (h.trans hw)

theorem readFullWrapLog_record (h : file.drop position = l.wrap ++ rest)
    (hl : l.data.length < 2 ^ 32) :
    readFullWrapLog file position =
      .ok (some (l.wrap,l.appliIndex,position + l.wrap.length)) := by
  obtain ⟨size,hsize⟩ : ∃ size, Bytes.putUint logDataLenSize l.data.length = size := ⟨_,rfl⟩
  obtain ⟨offset,hoffset⟩ : ∃ offset, writeInt64 l.offset = offset := ⟨_,rfl⟩
  obtain ⟨appli,happli⟩ : ∃ appli, Bytes.putUint appliIndexSize l.appliIndex.toNat = appli := ⟨_,rfl⟩
  have hwrap : l.wrap = magicNumber ++ logVersion ++ size ++ offset ++ appli ++ l.data ++
      endMagicNumber := by
    rw [Log.wrap, wrapLogData, hsize, hoffset, happli]
  have hlen : Bytes.uint size = l.data.length := by
    rw [← hsize]
    exact Bytes.uint_putUint_of_lt hl
  have hidx : UInt64.ofNat (Bytes.uint appli) = l.appliIndex := by
    rw [← happli, Bytes.uint_putUint_of_lt l.appliIndex.toNat_lt, UInt64.ofNat_toNat]
  have hstart : fileReadAt file magicNumber.length position = .ok magicNumber :=
    fileReadAt_wrap h (a := []) (by rw [hwrap]; simp; rfl) rfl rfl
  have hversion : fileReadAt file logVersion.length (position + magicNumber.length) =
      .ok logVersion :=
    fileReadAt_wrap h (a := magicNumber) (by rw [hwrap]; simp; rfl) rfl rfl
  have hdataLen : fileReadAt file logDataLenSize (position + magicNumber.length +
      logVersion.length) = .ok size :=
    fileReadAt_wrap h (a := magicNumber ++ logVersion) (by rw [hwrap]; simp; rfl)
      (by rw [← hsize, Bytes.length_putUint]) (by simp [Nat.add_assoc])
  have hoff : fileReadAt file offsetSize (position + magicNumber.length + logVersion.length +
      size.length) = .ok offset :=
    fileReadAt_wrap h (a := magicNumber ++ logVersion ++ size) (by rw [hwrap]; simp; rfl)
      (by rw [← hoffset, writeInt64, Bytes.length_putUint, offsetSize]) (by simp [Nat.add_assoc])
  have hidxBytes : fileReadAt file appliIndexSize (position + magicNumber.length +
      logVersion.length + size.length + offset.length) = .ok appli :=
    fileReadAt_wrap h (a := magicNumber ++ logVersion ++ size ++ offset)
      (by rw [hwrap]; simp; rfl) (by rw [← happli, Bytes.length_putUint]) (by simp [Nat.add_assoc])
  have hdata : fileReadAt file (Bytes.uint size) (position + magicNumber.length +
      logVersion.length + size.length + offset.length + appli.length) = .ok l.data :=
    fileReadAt_wrap h (a := magicNumber ++ logVersion ++ size ++ offset ++ appli)
      (by rw [hwrap]; simp; rfl) hlen.symm (by simp [Nat.add_assoc])
  have hend : fileReadAt file endMagicNumber.length (position + magicNumber.length +
      logVersion.length + size.length + offset.length + appli.length + l.data.length) =
        .ok endMagicNumber :=
    fileReadAt_wrap h (a := magicNumber ++ logVersion ++ size ++ offset ++ appli ++ l.data)
      (c := rest) (by rw [hwrap]; simp) rfl (by simp [Nat.add_assoc])
  simp only [readFullWrapLog, hstart, hversion, hdataLen, hoff, hidxBytes, hdata, hend, ok_bind,
    ne_eq, not_true_eq_false, if_false, hidx]
  simp only [hwrap, List.length_append, Nat.add_assoc]

theorem readFullWrapLog_wrap (h : file.drop position = l.wrap ++ rest)
    (hl : l.data.length ≤ logMaxSize) :
    readFullWrapLog file position =
      .ok (some (l.wrap,l.appliIndex,position + l.wrap.length)) := by
  apply readFullWrapLog_record h
  rw [logMaxSize] at hl
  omega

theorem readFullWrapLog_end (h : file.drop position = []) :
    readFullWrapLog file position = .ok none := by
  have hle := drop_nil_length h
  have hread : fileReadAt file magicNumber.length position = .error "EOF" := by
    rw [fileReadAt, if_neg]
    rintro (hz | hroom)
    · cases hz
    · rw [magicNumber] at hroom
      simp only [List.length_cons, List.length_nil] at hroom
      omega
  rw [readFullWrapLog, hread]
  rfl

theorem scanLoop_joined {ls : List Log} {fuel : Nat} (h : file.drop position = joined ls)
    (hls : ∀ l ∈ ls, l.data.length ≤ logMaxSize) (hf : ls.length < fuel) :
    scanLoop file 0 fuel position = .ok (joined ls) := by
  induction ls generalizing position fuel with
  | nil =>
    obtain ⟨fuel,rfl⟩ : ∃ n, fuel = n + 1 := ⟨fuel - 1,by simp at hf; omega⟩
    rw [scanLoop, readFullWrapLog_end h]
    rfl
  | cons l ls ih =>
    obtain ⟨fuel,rfl⟩ : ∃ n, fuel = n + 1 := ⟨fuel - 1,by omega⟩
    obtain ⟨hhead,htail⟩ := drop_wrap h
    rw [scanLoop, readFullWrapLog_wrap hhead (hls l List.mem_cons_self), ok_bind]
    simp only [ne_eq, not_true_eq_false, false_and, if_false]
    rw [ih htail (fun x hx => hls x (List.mem_cons_of_mem _ hx)) (by simpa using hf)]
    rfl

theorem scan_joined {ls : List Log} (hls : ∀ l ∈ ls, l.data.length ≤ logMaxSize) :
    scan (joined ls) 0 = .ok (joined ls) :=
  scanLoop_joined List.drop_zero hls (Nat.lt_succ_of_le (length_le_joined ls))

end Scanning

section Names

theorem parseInt_digits {cs : List Char} (hne : cs ≠ []) (hd : ∀ c ∈ cs, c.isDigit = true)
    (hlt : Nat.ofDigitChars 10 cs 0 < 2 ^ 63) :
    parseInt cs = some (Int64.ofNat (Nat.ofDigitChars 10 cs 0)) := by
  cases cs with
  | nil => exact absurd rfl hne
  | cons c cs =>
    have hc := hd c List.mem_cons_self
    have hminus : c ≠ '-' := by
      rintro rfl
      exact absurd hc (by decide)
    have hplus : c ≠ '+' := by
      rintro rfl
      exact absurd hc (by decide)
    have hall : ((c :: cs).all Char.isDigit) = true := List.all_eq_true.mpr hd
    rw [Nat.ofDigitChars] at hlt ⊢
    simp only [parseInt, List.head?_cons, Option.some.injEq, hminus, hplus, or_self, if_false, hall,
      not_true_eq_false, reduceCtorEq, if_pos hlt]

variable {b c : Int64} {bs : List Int64}

theorem logFileName_eq (h : 0 ≤ b.toInt) :
    logFileName b = Bytes.padded 20 b.toInt.toNat ++ logFileSuffix := by
  have hneg : ¬ b < 0 := by
    rw [Int64.lt_iff_toInt_lt]
    exact Int.not_lt.mpr h
  rw [logFileName, if_neg hneg]

theorem logFileName_lt (hb : 0 ≤ b.toInt) (h : b < c) : logFileName b < logFileName c := by
  rw [Int64.lt_iff_toInt_lt] at h
  have hc := Int64.toInt_lt c
  rw [logFileName_eq hb, logFileName_eq (hb.trans h.le)]
  exact Bytes.padded_lt_padded (by omega) (by omega) (by omega) _

theorem parseInt_logFileName (h : 0 ≤ b.toInt) :
    parseInt (Bytes.chars ((logFileName b).take ((logFileName b).length - logFileSuffix.length))) =
      some b := by
  have hlt := Int64.toInt_lt b
  have hval := Bytes.ofDigitChars_padded 20 b.toInt.toNat
  rw [logFileName_eq h, List.length_append, Nat.add_sub_cancel, List.take_left]
  rw [parseInt_digits, hval]
  · rw [Option.some.injEq, ← Int64.toInt_inj, Int64.toInt_ofNat_of_lt (by omega)]
    omega
  · rw [Bytes.chars_padded]
    simp [Nat.toDigits_ne_nil]
  · intro c hc
    rw [Bytes.chars_padded] at hc
    rcases List.mem_append.mp hc with hc | hc
    · rw [(List.mem_replicate.mp hc).2]
      decide
    · exact Nat.isDigit_of_mem_toDigits (by omega) (by omega) hc
  · rw [hval]
    omega

theorem parseBaseOffsets_names (h : ∀ b ∈ bs, 0 ≤ b.toInt) :
    parseBaseOffsets (bs.map logFileName) = .ok bs := by
  induction bs with
  | nil => rfl
  | cons b bs ih =>
    rw [List.map_cons, parseBaseOffsets, parseInt_logFileName (h b List.mem_cons_self)]
    simp only [ih fun c hc => h c (List.mem_cons_of_mem _ hc), ok_bind, Outcome.pure_eq]

def sortedBases (t : Topic) : List Int64 := (Assoc.keys t.dir.logs).insertionSort (· ≤ ·)

theorem sortedBases_perm (t : Topic) : (sortedBases t).Perm (Assoc.keys t.dir.logs) :=
  List.perm_insertionSort _ _

theorem sortedBases_of_pairwise {t : Topic} (h : (Assoc.keys t.dir.logs).Pairwise (· < ·)) :
    sortedBases t = Assoc.keys t.dir.logs :=
  (h.imp fun hlt => Int64.le_of_lt hlt).insertionSort_eq

theorem sorted_names {readdir : List Bytes → List Bytes} (hr : ∀ l, (readdir l).Perm l) {t : Topic}
    (hn : (Assoc.keys t.dir.logs).Nodup) (h : ∀ b ∈ Assoc.keys t.dir.logs, 0 ≤ b.toInt) :
    (readdir ((Assoc.keys t.dir.logs).map logFileName)).insertionSort (· ≤ ·) =
      (sortedBases t).map logFileName := by
  have hsorted : (sortedBases t).Pairwise (· ≤ ·) := List.pairwise_insertionSort _ _
  have hnodup : (sortedBases t).Nodup := (sortedBases_perm t).nodup_iff.mpr hn
  have hnames : ((sortedBases t).map logFileName).Pairwise (· ≤ ·) := by
    rw [List.pairwise_map]
    refine (hsorted.and hnodup).imp_of_mem ?_
    rintro a b ha hb ⟨hle,hne⟩
    have hlt : a < b := Int64.lt_of_le_of_ne hle hne
    exact List.le_of_lt (logFileName_lt (h a ((sortedBases_perm t).mem_iff.mp ha)) hlt)
  refine List.Perm.eq_of_pairwise (fun a b _ _ => List.le_antisymm)
    (List.pairwise_insertionSort _ _) hnames ?_
  exact (List.perm_insertionSort _ _).trans ((hr _).trans ((sortedBases_perm t).map _).symm)

end Names

def orderedLogs (t : Topic) : List Log :=
  (sortedBases t).flatMap fun b => records ((Assoc.get b t.dir.logs).getD .empty).log

structure Stocked (t : Topic) (parts : Parts) : Prop where
  layout : Layout t parts
  root : ∃ ls, Assoc.get 0 parts = some ls
  bases : (Assoc.keys parts).Nodup
  nonneg : ∀ b ∈ Assoc.keys parts, 0 ≤ b.toInt
  messages : ∀ l ∈ parts.flat, ∃ m : Message, l = m.toLog ∧ m.Fits

section Topics

variable {t : Topic} {parts : Parts} {b : Int64}

theorem Layout.keys (h : Layout t parts) : Assoc.keys t.dir.logs = Assoc.keys parts := by
  have hkeys := congrArg Assoc.keys h.dir.logs
  rwa [Assoc.keys_mapVal, Assoc.keys_mapVal] at hkeys

theorem Stocked.small (h : Stocked t parts) {l : Log} (hl : l ∈ parts.flat) :
    l.data.length ≤ logMaxSize := by
  obtain ⟨m,rfl,hfits⟩ := h.messages l hl
  exact hfits

theorem Stocked.logFile (h : Stocked t parts) (hb : b ∈ sortedBases t) :
    ∃ files ls, Assoc.get b t.dir.logs = some files ∧ files.log = joined ls ∧
      records files.log = ls ∧ ∀ l ∈ ls, l ∈ parts.flat := by
  rw [(sortedBases_perm t).mem_iff, h.layout.keys] at hb
  obtain ⟨⟨b,ls⟩,hmem,rfl⟩ := List.mem_map.mp hb
  have hget := Assoc.get_of_mem h.bases hmem
  obtain ⟨files,hfiles,hlog,-⟩ := h.layout.dir.get hget
  have hflat : ∀ l ∈ ls, l ∈ parts.flat := fun l hl => List.mem_flatMap.mpr ⟨_,hmem,hl⟩
  refine ⟨files,ls,hfiles,hlog,?_,hflat⟩
  rw [hlog, records_joined fun l hl => h.small (hflat l hl)]

theorem Stocked.mem_orderedLogs (h : Stocked t parts) {l : Log} (hl : l ∈ orderedLogs t) :
    ∃ m : Message, l = m.toLog ∧ m.Fits := by
  obtain ⟨b,hb,hl⟩ := List.mem_flatMap.mp hl
  obtain ⟨files,ls,hfiles,-,hrecords,hflat⟩ := h.logFile hb
  rw [hfiles, Option.getD_some, hrecords] at hl
  exact h.messages l (hflat l hl)

end Topics

structure Store.Stocked (st : Store) : Prop where
  names : (Assoc.keys st.topics).Nodup
  topics : ∀ e ∈ st.topics, ∃ parts, Db.Stocked e.2 parts
  slotCount : st.topics ≠ [] → st.db.slotCount % 2 ^ 32 ≠ 0
  keys : ∀ slot, (Assoc.keys (st.db.buckets slot)).Nodup

def Store.savedLogs (readdir : List Bytes → List Bytes) (st : Store) (slot : Nat) : List Log :=
  match (st.getSubdir readdir slot).getLast? with
  | none => []
  | some topic => orderedLogs (st.topicAt slot topic)

section Saving

variable {readdir : List Bytes → List Bytes} {st : Store} {slot : Nat} {topic : Bytes}

theorem Store.mem_topicDirs : topic ∈ st.topicDirs slot ↔ (slot,topic) ∈ Assoc.keys st.topics := by
  rw [Store.topicDirs, List.mem_filterMap, Assoc.keys, List.mem_map]
  constructor
  · rintro ⟨e,he,hname⟩
    split at hname
    · rename_i hslot
      cases hname
      exact ⟨e,he,by rw [← hslot]⟩
    · cases hname
  · rintro ⟨e,he,hkey⟩
    refine ⟨e,he,?_⟩
    rw [if_pos (by rw [hkey]), hkey]

theorem Store.Stocked.topicAt (h : st.Stocked) (ht : topic ∈ st.topicDirs slot) :
    ∃ parts, Assoc.get (slot,topic) st.topics = some (st.topicAt slot topic) ∧
      Db.Stocked (st.topicAt slot topic) parts := by
  obtain ⟨⟨k,t⟩,he,rfl⟩ := List.mem_map.mp (Store.mem_topicDirs.mp ht)
  have hget := Assoc.get_of_mem h.names he
  obtain ⟨parts,hs⟩ := h.topics _ he
  have heq : st.topicAt slot topic = t := by rw [Store.topicAt, hget, Option.getD_some]
  exact ⟨parts,by rw [hget, heq],heq ▸ hs⟩

theorem Store.Stocked.fillSegmentInfo (hr : ∀ l, (readdir l).Perm l) (h : st.Stocked)
    (segmentI : SegmentInfo) {topicList : List Bytes}
    (ht : ∀ topic ∈ topicList, topic ∈ st.topicDirs segmentI.slot.toNat) :
    st.fillSegmentInfo readdir segmentI topicList = .ok (match topicList.getLast? with
      | none => segmentI
      | some topic => ⟨segmentI.slot,topic,sortedBases (st.topicAt segmentI.slot.toNat topic)⟩) := by
  induction topicList generalizing segmentI with
  | nil => rfl
  | cons topic topicList ih =>
    obtain ⟨parts,hget,hs⟩ := h.topicAt (ht topic List.mem_cons_self)
    have hkeys := hs.layout.keys
    have hnames := sorted_names hr (t := st.topicAt segmentI.slot.toNat topic) (hkeys ▸ hs.bases)
      (hkeys ▸ hs.nonneg)
    have hparse : parseBaseOffsets ((sortedBases (st.topicAt segmentI.slot.toNat topic)).map
        logFileName) = .ok (sortedBases (st.topicAt segmentI.slot.toNat topic)) := by
      refine parseBaseOffsets_names fun b hb => hs.nonneg b ?_
      rwa [(sortedBases_perm _).mem_iff, hkeys] at hb
    have hfiles : st.getSubfiles readdir segmentI.slot.toNat topic = .ok (readdir ((Assoc.keys
        (st.topicAt segmentI.slot.toNat topic).dir.logs).map logFileName)) := by
      rw [Store.getSubfiles, hget]
    rw [Store.fillSegmentInfo, hfiles, ok_bind, hnames, hparse, ok_bind, ih ⟨segmentI.slot,topic,
      sortedBases (st.topicAt segmentI.slot.toNat topic)⟩ fun x hx => ht x (List.mem_cons_of_mem _ hx)]
    cases topicList with
    | nil => rfl
    | cons y ys =>
      rw [List.getLast?_cons_cons]
      cases hlast : (y :: ys).getLast? with
      | none => simp at hlast
      | some z => rfl

theorem Store.Stocked.backupSegments (h : st.Stocked) (segmentI : SegmentInfo)
    (ht : segmentI.topic ∈ st.topicDirs segmentI.slot.toNat) {bs : List Int64}
    (hbs : ∀ b ∈ bs, b ∈ sortedBases (st.topicAt segmentI.slot.toNat segmentI.topic)) :
    st.backupSegments segmentI bs = .ok (joined (bs.flatMap fun b => records ((Assoc.get b
      (st.topicAt segmentI.slot.toNat segmentI.topic).dir.logs).getD .empty).log)) := by
  obtain ⟨parts,hget,hs⟩ := h.topicAt ht
  induction bs with
  | nil => rfl
  | cons b bs ih =>
    obtain ⟨files,ls,hfiles,hlog,hrecords,hflat⟩ := hs.logFile (hbs b List.mem_cons_self)
    have hopen : st.openLogFile segmentI.slot.toNat segmentI.topic b = .ok (joined ls) := by
      rw [Store.openLogFile, hget, Option.bind_some, hfiles, ← hlog]
    rw [Store.backupSegments, hopen, ok_bind, scan_joined fun l hl => hs.small (hflat l hl), ok_bind,
      ih fun x hx => hbs x (List.mem_cons_of_mem _ hx), ok_bind, Outcome.pure_eq, List.flatMap_cons,
      joined_append, hfiles, Option.getD_some, hrecords]

theorem Store.Stocked.backupMessages (hr : ∀ l, (readdir l).Perm l) (h : st.Stocked)
    (slots : List UInt32) : st.backupMessages readdir slots =
      .ok (joined (slots.flatMap fun slot => st.savedLogs readdir slot.toNat)) := by
  have hinfo : ∃ infos, st.getSegmentInfo readdir slots = .ok infos ∧
      st.backupSegmentInfos infos =
        .ok (joined (slots.flatMap fun slot => st.savedLogs readdir slot.toNat)) := by
    induction slots with
    | nil => exact ⟨[],rfl,rfl⟩
    | cons slot slots ih =>
      obtain ⟨infos,hinfos,hsaved⟩ := ih
      have hlist : ∀ topic ∈ st.getSubdir readdir slot.toNat, topic ∈ st.topicDirs slot.toNat :=
        fun topic ht => (hr _).mem_iff.mp ht
      have hfill := h.fillSegmentInfo hr ⟨slot,[],[]⟩ hlist
      refine ⟨_,by rw [Store.getSegmentInfo, hfill, ok_bind, hinfos, ok_bind, Outcome.pure_eq],?_⟩
      rw [Store.backupSegmentInfos, List.flatMap_cons, joined_append, hsaved, Store.savedLogs]
      cases hlast : (st.getSubdir readdir slot.toNat).getLast? with
      | none => rfl
      | some topic =>
        have ht := hlist topic (List.mem_of_getLast? hlast)
        simp only [h.backupSegments ⟨slot,topic,sortedBases (st.topicAt slot.toNat topic)⟩ ht
          (fun b hb => hb), ok_bind, Outcome.pure_eq]
        rfl
  obtain ⟨infos,hinfos,hsaved⟩ := hinfo
  rw [Store.backupMessages, hinfos, ok_bind, hsaved]

end Saving
end LiMaoIM.Db

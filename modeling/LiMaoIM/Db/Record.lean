import LiMaoIM.Proto.Codec

namespace LiMaoIM.Db

open Outcome Proto

def magicNumber : Bytes := [0x15,0x16]

def endMagicNumber : Bytes := [0x3]

def logVersion : Bytes := [0x01]

def offsetSize : Nat := 8

def logDataLenSize : Nat := 4

def appliIndexSize : Nat := 8

def logMaxSize : Nat := 1024 * 1024

def errorNotData : String := "no data"

structure Log where
  offset : Int64
  appliIndex : UInt64
  data : Bytes
deriving DecidableEq, Repr

def logFixHeaderLen : Nat :=
  magicNumber.length + logVersion.length + logDataLenSize + offsetSize + appliIndexSize

def logMinLen : Nat := logFixHeaderLen + endMagicNumber.length

def wrapLogData (offset : Int64) (appliIndex : UInt64) (data : Bytes) : Bytes :=
  magicNumber ++ logVersion ++ Bytes.putUint logDataLenSize data.length ++
    Encoder.writeInt64 offset ++ Bytes.putUint appliIndexSize appliIndex.toNat ++ data ++
    endMagicNumber

def Log.wrap (l : Log) : Bytes := wrapLogData l.offset l.appliIndex l.data

def fileReadAt (file : Bytes) (n position : Nat) : Outcome Bytes :=
  if n = 0 ∨ position + n ≤ file.length then .ok ((file.drop position).take n) else .error "EOF"

def readAtPosition (file : Bytes) (position : Nat) : Outcome (Int64 × Nat) := do
  let sizeByte ← fileReadAt file logDataLenSize
    (position + (magicNumber.length + logVersion.length))
  let offsetByte ← fileReadAt file offsetSize
    (position + (magicNumber.length + logVersion.length + logDataLenSize))
  pure ((UInt64.ofNat (Bytes.uint offsetByte)).toInt64,Bytes.uint sizeByte)

def readLogDataAtPosition (file : Bytes) (position : Nat) : Outcome (Bytes × Nat) := do
  let (_,dataLen) ← readAtPosition file position
  let data ← fileReadAt file dataLen (position + logFixHeaderLen)
  pure (data,position + logFixHeaderLen + (dataLen + endMagicNumber.length))

theorem fileReadAt_of_drop {file a b c : Bytes} {position : Nat}
    (h : file.drop position = a ++ (b ++ c)) :
    fileReadAt file b.length (position + a.length) = .ok b := by
  have hdrop : file.drop (position + a.length) = b ++ c := by
    rw [← List.drop_drop, h, List.drop_left]
  have hfits : b.length = 0 ∨ position + a.length + b.length ≤ file.length := by
    have hlen := congrArg List.length hdrop
    simp only [List.length_drop, List.length_append] at hlen
    omega
  rw [fileReadAt, if_pos hfits, hdrop, List.take_left]

@[simp] theorem length_wrap (l : Log) : l.wrap.length = l.data.length + logMinLen := by
  simp [Log.wrap, wrapLogData, magicNumber, logVersion, endMagicNumber, Encoder.writeInt64,
    logMinLen, logFixHeaderLen, logDataLenSize, offsetSize, appliIndexSize]
  omega

theorem length_wrap_pos (l : Log) : 0 < l.wrap.length := by
  rw [length_wrap, logMinLen, endMagicNumber]
  simp

theorem int64_roundTrip (i : Int64) :
    (UInt64.ofNat (Bytes.uint (Encoder.writeInt64 i))).toInt64 = i := by
  have hlt : i.toUInt64.toNat < 256 ^ 8 := i.toUInt64.toNat_lt
  rw [Encoder.writeInt64, Bytes.uint_putUint_of_lt hlt, UInt64.ofNat_toNat, Int64.toInt64_toUInt64]

def joined (ls : List Log) : Bytes := ls.flatMap Log.wrap

@[simp] theorem joined_nil : joined [] = [] := rfl

@[simp] theorem joined_cons (l : Log) (ls : List Log) : joined (l :: ls) = l.wrap ++ joined ls := rfl

@[simp] theorem joined_append (ls ms : List Log) : joined (ls ++ ms) = joined ls ++ joined ms :=
  List.flatMap_append

theorem length_le_joined (ls : List Log) : ls.length ≤ (joined ls).length := by
  induction ls with
  | nil => simp
  | cons l ls ih =>
    have hl := length_wrap_pos l
    rw [joined_cons, List.length_append, List.length_cons]
    omega

section AtRecord

variable {file rest : Bytes} {position : Nat} {l : Log}

theorem readAtPosition_wrap (h : file.drop position = l.wrap ++ rest)
    (hl : l.data.length ≤ logMaxSize) :
    readAtPosition file position = .ok (l.offset,l.data.length) := by
  have hsize : fileReadAt file logDataLenSize
      (position + (magicNumber.length + logVersion.length)) =
        .ok (Bytes.putUint logDataLenSize l.data.length) := by
    have hf := fileReadAt_of_drop (a := magicNumber ++ logVersion)
      (b := Bytes.putUint logDataLenSize l.data.length) (by rw [h]; simp [Log.wrap, wrapLogData]; rfl)
    rwa [Bytes.length_putUint, List.length_append] at hf
  have hoffset : fileReadAt file offsetSize
      (position + (magicNumber.length + logVersion.length + logDataLenSize)) =
        .ok (Encoder.writeInt64 l.offset) := by
    have hf := fileReadAt_of_drop
      (a := magicNumber ++ logVersion ++ Bytes.putUint logDataLenSize l.data.length)
      (b := Encoder.writeInt64 l.offset) (by rw [h]; simp [Log.wrap, wrapLogData]; rfl)
    simpa [Encoder.writeInt64, offsetSize, Nat.add_assoc] using hf
  rw [readAtPosition, hsize, ok_bind, hoffset, ok_bind, Outcome.pure_eq, int64_roundTrip,
    Bytes.uint_putUint_of_lt (by rw [logDataLenSize]; rw [logMaxSize] at hl; omega)]

theorem readLogDataAtPosition_wrap (h : file.drop position = l.wrap ++ rest)
    (hl : l.data.length ≤ logMaxSize) :
    readLogDataAtPosition file position = .ok (l.data,position + l.wrap.length) := by
  have hdata : fileReadAt file l.data.length (position + logFixHeaderLen) = .ok l.data := by
    have hf := fileReadAt_of_drop (a := magicNumber ++ logVersion ++
      Bytes.putUint logDataLenSize l.data.length ++ Encoder.writeInt64 l.offset ++
      Bytes.putUint appliIndexSize l.appliIndex.toNat)
      (b := l.data) (by rw [h]; simp [Log.wrap, wrapLogData]; rfl)
    simpa [Encoder.writeInt64, logFixHeaderLen, offsetSize, Nat.add_assoc] using hf
  rw [readLogDataAtPosition, readAtPosition_wrap h hl, ok_bind]
  simp only [hdata, ok_bind, Outcome.pure_eq, length_wrap, logMinLen]
  congr 2
  omega

end AtRecord

def parseRecord (bs : Bytes) : Option (Log × Bytes) :=
  let dataLen := Bytes.uint ((bs.drop 3).take logDataLenSize)
  if bs.take 2 = magicNumber ∧ dataLen + logMinLen ≤ bs.length then
    some (⟨(UInt64.ofNat (Bytes.uint ((bs.drop 7).take offsetSize))).toInt64,
      UInt64.ofNat (Bytes.uint ((bs.drop 15).take appliIndexSize)),
      (bs.drop logFixHeaderLen).take dataLen⟩,bs.drop (dataLen + logMinLen))
  else none

def recordsLoop : Nat → Bytes → List Log
  | 0, _ => []
  | fuel + 1, bs =>
      match parseRecord bs with
      | none => []
      | some (l,rest) => l :: recordsLoop fuel rest

def records (file : Bytes) : List Log := recordsLoop file.length file

theorem drop_take_of_append {a b c bs : Bytes} {i n : Nat} (h : bs = a ++ (b ++ c))
    (ha : a.length = i) (hb : b.length = n) : (bs.drop i).take n = b := by
  subst h ha hb
  rw [List.drop_left, List.take_left]

theorem parseRecord_wrap {l : Log} (rest : Bytes) (hl : l.data.length ≤ logMaxSize) :
    parseRecord (l.wrap ++ rest) = some (l,rest) := by
  have hdata : ((l.wrap ++ rest).drop 3).take logDataLenSize =
      Bytes.putUint logDataLenSize l.data.length :=
    drop_take_of_append (a := magicNumber ++ logVersion) (by simp [Log.wrap, wrapLogData]; rfl) rfl
      (Bytes.length_putUint _ _)
  have hoffset : ((l.wrap ++ rest).drop 7).take offsetSize = Encoder.writeInt64 l.offset :=
    drop_take_of_append
      (a := magicNumber ++ logVersion ++ Bytes.putUint logDataLenSize l.data.length)
      (by simp [Log.wrap, wrapLogData]; rfl) (by simp; rfl) (Bytes.length_putUint _ _)
  have happli : ((l.wrap ++ rest).drop 15).take appliIndexSize =
      Bytes.putUint appliIndexSize l.appliIndex.toNat :=
    drop_take_of_append
      (a := magicNumber ++ logVersion ++ Bytes.putUint logDataLenSize l.data.length ++
        Encoder.writeInt64 l.offset)
      (by simp [Log.wrap, wrapLogData]; rfl) (by simp [Encoder.writeInt64]; rfl)
      (Bytes.length_putUint _ _)
  have hbody : ((l.wrap ++ rest).drop logFixHeaderLen).take l.data.length = l.data :=
    drop_take_of_append
      (a := magicNumber ++ logVersion ++ Bytes.putUint logDataLenSize l.data.length ++
        Encoder.writeInt64 l.offset ++ Bytes.putUint appliIndexSize l.appliIndex.toNat)
      (by simp [Log.wrap, wrapLogData]; rfl) (by simp [Encoder.writeInt64]; rfl) rfl
  have hlen : Bytes.uint (Bytes.putUint logDataLenSize l.data.length) = l.data.length := by
    apply Bytes.uint_putUint_of_lt
    rw [logDataLenSize]
    rw [logMaxSize] at hl
    omega
  have hidx : UInt64.ofNat (Bytes.uint (Bytes.putUint appliIndexSize l.appliIndex.toNat)) =
      l.appliIndex := by
    rw [Bytes.uint_putUint_of_lt l.appliIndex.toNat_lt, UInt64.ofNat_toNat]
  have hok : (l.wrap ++ rest).take 2 = magicNumber ∧
      l.data.length + logMinLen ≤ (l.wrap ++ rest).length := by
    refine ⟨by simp [Log.wrap, wrapLogData, magicNumber],?_⟩
    rw [List.length_append, length_wrap]
    omega
  have hrest : (l.wrap ++ rest).drop (l.data.length + logMinLen) = rest := by
    rw [← length_wrap, List.drop_left]
  simp only [parseRecord, hdata, hlen, if_pos hok, hoffset, int64_roundTrip, happli, hidx, hbody,
    hrest]

theorem recordsLoop_joined {ls : List Log} (hls : ∀ l ∈ ls, l.data.length ≤ logMaxSize) {fuel : Nat}
    (hf : ls.length ≤ fuel) : recordsLoop fuel (joined ls) = ls := by
  induction ls generalizing fuel with
  | nil => cases fuel <;> rfl
  | cons l ls ih =>
    obtain ⟨fuel,rfl⟩ : ∃ n, fuel = n + 1 := ⟨fuel - 1,by simp at hf; omega⟩
    rw [recordsLoop, joined_cons, parseRecord_wrap _ (hls l List.mem_cons_self)]
    simp only [ih (fun x hx => hls x (List.mem_cons_of_mem _ hx)) (by simpa using hf)]

theorem records_joined {ls : List Log} (hls : ∀ l ∈ ls, l.data.length ≤ logMaxSize) :
    records (joined ls) = ls :=
  recordsLoop_joined hls (length_le_joined ls)

def Ascending (ls : List Log) : Prop := ls.Pairwise fun a b => a.offset < b.offset

instance (ls : List Log) : Decidable (Ascending ls) :=
  inferInstanceAs (Decidable (ls.Pairwise fun a b => a.offset < b.offset))

theorem ascending_append {stored : List Log} {log : Log} (h : Ascending stored) :
    Ascending (stored ++ [log]) ↔ ∀ l ∈ stored, l.offset < log.offset := by
  rw [Ascending, List.pairwise_append]
  constructor
  · exact fun hs l hl => hs.2.2 l hl log (List.mem_singleton_self log)
  · intro hl
    refine ⟨h,List.pairwise_singleton _ _,?_⟩
    intro a ha b hb
    rw [List.mem_singleton.mp hb]
    exact hl a ha

end LiMaoIM.Db

import LiMaoIM.Foundation.Assoc
import LiMaoIM.Foundation.Exec
import LiMaoIM.Db.Segment

namespace LiMaoIM.Db

open Outcome

structure TopicDir where
  names : List String
  logs : List (Int64 × SegmentFiles)

structure Topic where
  segmentMaxBytes : Int
  dir : TopicDir
  objects : List Segment
  segments : List Int64
  activeSegment : Nat
  segmentCache : List (Int64 × Nat)
  lastSeq : UInt32
  lastMemLog : Option Log

def TopicDir.empty : TopicDir := ⟨[],[]⟩

def logSuffix : List Char := ".log".toList

def indexSuffix : List Char := ".index".toList

def parseInt (s : List Char) : Option Int64 :=
  let neg := s.head? = some '-'
  let digits := if s.head? = some '-' ∨ s.head? = some '+' then s.tail else s
  if digits = [] ∨ ¬ digits.all Char.isDigit then none
  else
    let n := digits.foldl (fun n c => 10 * n + (c.toNat - '0'.toNat)) 0
    if neg then if n ≤ 2 ^ 63 then some (Int64.ofInt (-n)) else none
    else if n < 2 ^ 63 then some (Int64.ofNat n) else none

def replaceFirst (old new : List Char) : List Char → List Char
  | [] => []
  | c :: cs =>
      if old <+: c :: cs then new ++ (c :: cs).drop old.length else c :: replaceFirst old new cs

def readSegmentNames (names : List String) : List String → Outcome (List Int64)
  | [] => .ok []
  | name :: rest =>
      if indexSuffix <:+ name.toList then
        if String.ofList (replaceFirst indexSuffix logSuffix name.toList) ∈ names then
          readSegmentNames names rest
        else .panic ("remove " ++ name ++ ": no such file or directory")
      else if logSuffix <:+ name.toList then
        match parseInt (name.toList.take (name.toList.length - logSuffix.length)) with
        | none => readSegmentNames names rest
        | some baseOffset => do
            let segments ← readSegmentNames names rest
            pure (baseOffset :: segments)
      else readSegmentNames names rest

def bubble : Nat → List Int64 → List Int64
  | k + 1, a :: b :: l => if b < a then b :: bubble k (a :: l) else a :: bubble k (b :: l)
  | _, l => l

def sortSegments (segments : List Int64) : List Int64 :=
  (List.range (segments.length + 1)).foldl (fun l n => bubble (segments.length - n - 1) l) segments

def TopicDir.openSegment (dir : TopicDir) (baseOffset : Int64) : Outcome (Segment × TopicDir) := do
  let (s,files) ← newSegment ((Assoc.get baseOffset dir.logs).getD .empty) baseOffset
  pure (s,⟨if "logs" ∈ dir.names then dir.names else dir.names ++ ["logs"],
    Assoc.put baseOffset files dir.logs⟩)

def orPanic {α : Type} : Outcome α → Outcome α
  | .ok a => .ok a
  | .error e => .panic e
  | .panic e => .panic e

def newTopic (dir : TopicDir) (segmentMaxBytes : Int) : Outcome Topic := do
  let names ← readSegmentNames dir.names dir.names
  let segments := if sortSegments names = [] then [0] else sortSegments names
  let lastSegmentBaseOffset := segments.getLastD 0
  let (sg,dir) ← dir.openSegment lastSegmentBaseOffset
  let files := (Assoc.get lastSegmentBaseOffset dir.logs).getD .empty
  let (lastMsgStartPosition,sg,files) ← orPanic (sg.sanityCheck files)
  let lastSeq ←
    if lastMsgStartPosition = 0 then pure lastSegmentBaseOffset.toUInt64.toUInt32
    else do
      let (offset,_) ← orPanic (readAtPosition files.log lastMsgStartPosition)
      pure offset.toUInt64.toUInt32
  pure { segmentMaxBytes := segmentMaxBytes
         dir := { dir with logs := Assoc.put lastSegmentBaseOffset files dir.logs }
         objects := [sg]
         segments := segments
         activeSegment := 0
         segmentCache := [(lastSegmentBaseOffset,0)]
         lastSeq := lastSeq
         lastMemLog := none }

namespace Topic

variable {σ : Type}

def files (t : Topic) (s : Segment) : SegmentFiles :=
  (Assoc.get s.baseOffset t.dir.logs).getD .empty

def segmentAt (id : Nat) : Exec Topic Segment := fun t =>
  match t.objects[id]? with
  | some s => (.ok s,t)
  | none => (.panic nilPointer,t)

def getActiveSegment : Exec Topic Segment := fun t => segmentAt t.activeSegment t

def openSegment (baseOffset : Int64) : Exec Topic Nat := fun t =>
  match t.dir.openSegment baseOffset with
  | .ok (s,dir) => (.ok t.objects.length,{ t with dir := dir, objects := t.objects ++ [s] })
  | .error e => (.error e,t)
  | .panic e => (.panic e,t)

def getOrNewSegment (baseOffset : Int64) : Exec Topic Nat := do
  let t ← Exec.get
  match Assoc.get baseOffset t.segmentCache with
  | some id => pure id
  | none => do
      let id ← openSegment baseOffset
      Exec.modify fun t => { t with segmentCache := Assoc.put baseOffset id t.segmentCache }
      pure id

def baseOffsetLoop (offset : Int64) : List Int64 → Outcome Int64
  | [] => .error "baseOffset not found"
  | [b] => if b ≤ offset then .ok b else .error "baseOffset not found"
  | b :: c :: bs => if b ≤ offset ∧ offset ≤ c then .ok b else baseOffsetLoop offset (c :: bs)

def baseOffset (t : Topic) (offset : Int64) : Outcome Int64 := baseOffsetLoop offset t.segments

def nextBaseOffsetLoop (baseOffset : Int64) : List Int64 → Int64
  | b :: c :: bs => if b = baseOffset then c else nextBaseOffsetLoop baseOffset (c :: bs)
  | _ => -1

def nextBaseOffset (t : Topic) (baseOffset : Int64) : Int64 :=
  nextBaseOffsetLoop baseOffset t.segments

def roll (log : Log) : Exec Topic Unit := do
  let id ← openSegment log.offset
  Exec.modify fun t =>
    { t with activeSegment := id, segments := t.segments ++ [log.offset] }

def nextOffset (t : Topic) : UInt32 × Topic := (t.lastSeq + 1,{ t with lastSeq := t.lastSeq + 1 })

def getLastSeq (t : Topic) : UInt32 := t.lastSeq

def alreadyAppended (t : Topic) (log : Log) : Bool :=
  match t.lastMemLog with
  | some lastLog => log.offset ≤ lastLog.offset
  | none => false

def remember (log : Log) (t : Topic) : Topic :=
  { t with
    lastMemLog := some log
    lastSeq := if t.lastSeq < log.offset.toUInt64.toUInt32 then log.offset.toUInt64.toUInt32
      else t.lastSeq }

def needRoll (t : Topic) (s : Segment) : Bool :=
  s.index.isFull ∨ t.segmentMaxBytes ≤ s.position

def store (id : Nat) (s : Segment) (files : SegmentFiles) (t : Topic) : Topic :=
  { t with
    objects := t.objects.set id s
    dir := { t.dir with logs := Assoc.put s.baseOffset files t.dir.logs } }

def appendActive (log : Log) : Exec Topic Nat := do
  let s ← getActiveSegment
  let t ← Exec.get
  let (n,s',files) ← Exec.lift (s.appendLog (t.files s) log)
  Exec.modify (store t.activeSegment s' files)
  pure n

def appendLog (log : Log) : Exec Topic Nat := do
  let activeSegment ← getActiveSegment
  let t ← Exec.get
  if t.alreadyAppended log then pure 0
  else do
    Exec.modify (remember log)
    if t.needRoll activeSegment then do
      roll log
      appendActive log
    else appendActive log

def counting (callback : σ → Bytes → Outcome σ) (acc : Nat × σ) (data : Bytes) :
    Outcome (Nat × σ) := do
  let a ← callback acc.2 data
  pure (acc.1 + 1,a)

def readNextLoop (limit : UInt64) (callback : σ → Bytes → Outcome σ) :
    Nat → Int64 → Nat × σ → Exec Topic (Nat × σ)
  | 0, _, _ => Exec.lift (.panic "readLogs does not terminate")
  | fuel + 1, baseOffset, acc =>
      if (acc.1 : Int) < limit.toInt64.toInt then do
        let t ← Exec.get
        let nextBaseOffset := t.nextBaseOffset baseOffset
        if nextBaseOffset = -1 then pure acc
        else do
          let id ← getOrNewSegment nextBaseOffset
          let s ← segmentAt id
          let t ← Exec.get
          let acc ← Exec.lift (s.readLogsAtPosition (t.files s).log 0
            (limit - UInt64.ofNat acc.1) (counting callback) acc)
          readNextLoop limit callback fuel nextBaseOffset acc
      else pure acc

def readLogs (offset : Int64) (limit : UInt64) (callback : σ → Bytes → Outcome σ) (acc : σ) :
    Exec Topic σ := do
  let t ← Exec.get
  let baseOffset ← Exec.lift (t.baseOffset offset)
  let id ← getOrNewSegment baseOffset
  let s ← segmentAt id
  let t ← Exec.get
  let acc ← Exec.lift (s.readLogs (t.files s) offset limit (counting callback) (0,acc))
  let acc ← readNextLoop limit callback (t.segments.length + 1) baseOffset acc
  pure acc.2

def readLastLogs (limit : UInt64) (callback : σ → Bytes → Outcome σ) (acc : σ) : Exec Topic σ := do
  let t ← Exec.get
  if t.lastSeq.toUInt64 < limit then readLogs 0 (t.lastSeq.toUInt64 + 1) callback acc
  else readLogs (t.lastSeq.toUInt64 - limit + 1).toInt64 limit callback acc

def readLogAt (offset : Int64) : Exec Topic Bytes := do
  let t ← Exec.get
  let baseOffset ← Exec.lift (t.baseOffset offset)
  let id ← getOrNewSegment baseOffset
  let s ← segmentAt id
  let t ← Exec.get
  Exec.lift (s.readAt (t.files s) offset)

def close (t : Topic) : TopicDir :=
  match t.objects[t.activeSegment]? with
  | none => t.dir
  | some s => { t.dir with logs := Assoc.put s.baseOffset (s.close (t.files s)) t.dir.logs }

end Topic
end LiMaoIM.Db

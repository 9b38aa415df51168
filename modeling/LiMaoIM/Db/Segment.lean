import LiMaoIM.Db.Index

namespace LiMaoIM.Db

open Outcome

structure SegmentFiles where
  log : Bytes
  index : IndexFile
  backups : List Bytes

structure Segment where
  baseOffset : Int64
  index : Index
  position : Nat
  bytesSinceLastIndexEntry : Nat
  totalSize : Nat
deriving DecidableEq, Repr

def indexIntervalBytes : Nat := 4 * 1024

def SegmentFiles.empty : SegmentFiles := ⟨[],.empty,[]⟩

def newSegment (files : SegmentFiles) (baseOffset : Int64) : Outcome (Segment × SegmentFiles) := do
  let (index,indexFile) ← newIndex files.index baseOffset
  pure (⟨baseOffset,index,0,0,files.log.length⟩,{ files with index := indexFile })

namespace Segment

variable {σ : Type}

def getFileSize (s : Segment) : Nat := if s.position = 0 then s.totalSize else s.position

def indexIfNeed (s : Segment) (files : SegmentFiles) (offset : Int64) : Segment × SegmentFiles :=
  if indexIntervalBytes < s.bytesSinceLastIndexEntry then
    let (index,indexFile) := s.index.append files.index offset s.position
    ({ s with index := index, bytesSinceLastIndexEntry := 0 },{ files with index := indexFile })
  else (s,files)

def appendLog (s : Segment) (files : SegmentFiles) (log : Log) :
    Outcome (Nat × Segment × SegmentFiles) :=
  if logMaxSize < log.data.length then
    .error ("Log data is too large！can not exceed " ++ toString logMaxSize ++ " byte")
  else
    let data := log.wrap
    let written := { s with position := s.position + data.length }
    let (s,files) := written.indexIfNeed { files with log := files.log ++ data } log.offset
    .ok (data.length,
      { s with bytesSinceLastIndexEntry := s.bytesSinceLastIndexEntry + data.length },files)

def readTargetPositionLoop (s : Segment) (file : Bytes) (targetOffset : Int64) :
    Nat → Nat → Outcome (Nat × Nat)
  | 0, _ => .error errorNotData
  | fuel + 1, startPosition =>
      if s.getFileSize ≤ startPosition then .error errorNotData
      else do
        let (resultOffset,dataLen) ← readAtPosition file startPosition
        let nextPosition := startPosition + logFixHeaderLen + (dataLen + endMagicNumber.length)
        if resultOffset = targetOffset then pure (startPosition,nextPosition)
        else readTargetPositionLoop s file targetOffset fuel nextPosition

def readTargetPosition (s : Segment) (file : Bytes) (startPosition : Nat) (targetOffset : Int64) :
    Outcome (Nat × Nat) :=
  s.readTargetPositionLoop file targetOffset (s.getFileSize - startPosition) startPosition

def readLogsAtPositionLoop (s : Segment) (file : Bytes) (limit : UInt64)
    (callback : σ → Bytes → Outcome σ) : Nat → Nat → Nat → σ → Outcome σ
  | 0, _, _, acc => .ok acc
  | fuel + 1, startPosition, count, acc =>
      if s.getFileSize ≤ startPosition ∨ limit.toNat ≤ count then .ok acc
      else do
        let (data,startPosition) ← readLogDataAtPosition file startPosition
        let acc ← callback acc data
        readLogsAtPositionLoop s file limit callback fuel startPosition (count + 1) acc

def readLogsAtPosition (s : Segment) (file : Bytes) (position : Nat) (limit : UInt64)
    (callback : σ → Bytes → Outcome σ) (acc : σ) : Outcome σ :=
  s.readLogsAtPositionLoop file limit callback (s.getFileSize - position) position 0 acc

def readLogs (s : Segment) (files : SegmentFiles) (offset : Int64) (limit : UInt64)
    (callback : σ → Bytes → Outcome σ) (acc : σ) : Outcome σ :=
  let offsetPosition := s.index.lookup files.index offset
  if offsetPosition.offset = offset then
    s.readLogsAtPosition files.log offsetPosition.position limit callback acc
  else
    match s.readTargetPosition files.log offsetPosition.position offset with
    | .ok (startPosition,_) => s.readLogsAtPosition files.log startPosition limit callback acc
    | .error e => if e = errorNotData then .ok acc else .error e
    | .panic e => .panic e

def readAt (s : Segment) (files : SegmentFiles) (offset : Int64) : Outcome Bytes := do
  let offsetPosition := s.index.lookup files.index offset
  let (targetPosition,_) ← s.readTargetPosition files.log offsetPosition.position offset
  let (data,_) ← readLogDataAtPosition files.log targetPosition
  pure data

def checkLoop (file : Bytes) (segmentSizeOfByte : Nat) : Nat → Nat → Nat → Nat → Nat × Nat
  | 0, _, lastMsgStartPosition, position => (lastMsgStartPosition,position)
  | fuel + 1, byteOffset, lastMsgStartPosition, position =>
      if segmentSizeOfByte ≤ byteOffset then (lastMsgStartPosition,position)
      else if (file.drop byteOffset).take magicNumber.length ≠ magicNumber then
        (byteOffset,position)
      else
        let dataLenStart := byteOffset + magicNumber.length + logVersion.length
        let headerEnd := dataLenStart + logDataLenSize
        if segmentSizeOfByte ≤ headerEnd then (byteOffset,position)
        else
          let size := Bytes.uint ((file.drop dataLenStart).take logDataLenSize)
          let next := headerEnd + (size + (offsetSize + appliIndexSize + endMagicNumber.length))
          if segmentSizeOfByte < next then (byteOffset,position)
          else checkLoop file segmentSizeOfByte fuel next byteOffset next

def check (s : Segment) (files : SegmentFiles) (startPosition segmentSizeOfByte : Nat)
    (keepCorrect : Bool) : Nat × Segment × SegmentFiles :=
  let (lastMsgStartPosition,position) := checkLoop files.log segmentSizeOfByte
    (segmentSizeOfByte - startPosition) startPosition startPosition s.position
  let s := { s with position := position }
  if keepCorrect = true ∧ position ≠ segmentSizeOfByte then
    (lastMsgStartPosition,s,
      { files with log := files.log.take position, backups := files.backups ++ [files.log] })
  else (lastMsgStartPosition,s,files)

def sanityFullCheck (s : Segment) (files : SegmentFiles) (segmentSizeOfByte : Nat) :
    Nat × Segment × SegmentFiles :=
  s.check files 0 segmentSizeOfByte true

def hasMagicNumer (file : Bytes) (position : Nat) : Outcome (Bool × Nat) := do
  let v ← fileReadAt file magicNumber.length position
  pure (v = magicNumber,v.length)

def warmPositionLoop (file : Bytes) (segmentSizeOfByte : Nat) : Nat → Nat → Outcome (Option Nat)
  | 0, _ => .ok none
  | fuel + 1, warmPosition =>
      if segmentSizeOfByte ≤ warmPosition then .ok none
      else do
        let (has,num) ← hasMagicNumer file warmPosition
        if has then pure (some warmPosition)
        else warmPositionLoop file segmentSizeOfByte fuel (warmPosition + num)

def sanitySimpleCheck (s : Segment) (files : SegmentFiles) (segmentSizeOfByte : Nat) :
    Outcome (Option (Nat × Segment × SegmentFiles)) := do
  let warmPosition := logMaxSize + logMinLen
  match ← warmPositionLoop files.log segmentSizeOfByte
    (segmentSizeOfByte - warmPosition) warmPosition with
  | none => pure none
  | some warmPosition => pure (some (s.check files warmPosition segmentSizeOfByte false))

def hasEndMagicNumer (file : Bytes) (segmentSizeOfByte : Nat) : Outcome Bool := do
  let p ← fileReadAt file endMagicNumber.length (segmentSizeOfByte - 1)
  pure (p = endMagicNumber)

def sanityCheck (s : Segment) (files : SegmentFiles) : Outcome (Nat × Segment × SegmentFiles) := do
  let segmentSizeOfByte := files.log.length
  if segmentSizeOfByte = 0 then pure (0,s,files)
  else
    let hasEndMgNumer ← hasEndMagicNumer files.log segmentSizeOfByte
    if ¬ hasEndMgNumer then pure (s.sanityFullCheck files segmentSizeOfByte)
    else if segmentSizeOfByte ≤ logMaxSize + logMinLen then
      pure (s.sanityFullCheck files segmentSizeOfByte)
    else
      match ← s.sanitySimpleCheck files segmentSizeOfByte with
      | none => pure (s.sanityFullCheck files segmentSizeOfByte)
      | some r => pure r

def close (s : Segment) (files : SegmentFiles) : SegmentFiles :=
  { files with index := s.index.close files.index }

structure Holds (s : Segment) (file : Bytes) (start : Nat) (ls : List Log) : Prop where
  content : joined ls <+: file.drop start
  size : s.getFileSize = start + (joined ls).length
  small : ∀ l ∈ ls, l.data.length ≤ logMaxSize

section Reading

variable {s : Segment} {file : Bytes} {start : Nat} {l : Log} {pre ls : List Log}

theorem Holds.suffix (h : s.Holds file start (pre ++ ls)) :
    s.Holds file (start + (joined pre).length) ls := by
  refine ⟨?_,?_,fun l hl => h.small l (List.mem_append_right _ hl)⟩
  · obtain ⟨rest,hrest⟩ := h.content
    refine ⟨rest,?_⟩
    rw [← List.drop_drop, ← hrest, joined_append, List.append_assoc, List.drop_left]
  · rw [h.size, joined_append, List.length_append]
    omega

theorem Holds.tail (h : s.Holds file start (l :: ls)) : s.Holds file (start + l.wrap.length) ls := by
  have hs := Holds.suffix (show s.Holds file start ([l] ++ ls) from h)
  rwa [joined_cons, joined_nil, List.append_nil] at hs

theorem Holds.readAtPosition (h : s.Holds file start (l :: ls)) :
    readAtPosition file start = .ok (l.offset,l.data.length) := by
  obtain ⟨rest,hrest⟩ := h.content
  rw [joined_cons, List.append_assoc] at hrest
  exact readAtPosition_wrap hrest.symm (h.small l List.mem_cons_self)

theorem Holds.readLogDataAtPosition (h : s.Holds file start (l :: ls)) :
    readLogDataAtPosition file start = .ok (l.data,start + l.wrap.length) := by
  obtain ⟨rest,hrest⟩ := h.content
  rw [joined_cons, List.append_assoc] at hrest
  exact readLogDataAtPosition_wrap hrest.symm (h.small l List.mem_cons_self)

theorem Holds.not_end (h : s.Holds file start (l :: ls)) : ¬ s.getFileSize ≤ start := by
  have hl := length_wrap_pos l
  rw [h.size, joined_cons, List.length_append]
  omega

theorem readTargetPositionLoop_cons {fuel : Nat} (target : Int64)
    (h : s.Holds file start (l :: ls)) :
    s.readTargetPositionLoop file target (fuel + 1) start =
      if l.offset = target then .ok (start,start + l.wrap.length)
      else s.readTargetPositionLoop file target fuel (start + l.wrap.length) := by
  have hnext : start + logFixHeaderLen + (l.data.length + endMagicNumber.length) =
      start + l.wrap.length := by
    rw [length_wrap, logMinLen]
    omega
  rw [readTargetPositionLoop, if_neg h.not_end, h.readAtPosition, ok_bind]
  simp only [hnext, Outcome.pure_eq]

theorem readTargetPositionLoop_found {fuel : Nat} (h : s.Holds file start (pre ++ l :: ls))
    (hpre : ∀ x ∈ pre, x.offset ≠ l.offset) (hf : pre.length < fuel) :
    s.readTargetPositionLoop file l.offset fuel start =
      .ok (start + (joined pre).length,start + (joined pre).length + l.wrap.length) := by
  induction pre generalizing fuel start with
  | nil =>
    obtain ⟨fuel,rfl⟩ : ∃ n, fuel = n + 1 := ⟨fuel - 1,by simp at hf; omega⟩
    rw [readTargetPositionLoop_cons l.offset h, if_pos rfl]
    simp
  | cons x pre ih =>
    obtain ⟨fuel,rfl⟩ : ∃ n, fuel = n + 1 := ⟨fuel - 1,by omega⟩
    rw [readTargetPositionLoop_cons l.offset h, if_neg (hpre x List.mem_cons_self),
      ih h.tail (fun y hy => hpre y (List.mem_cons_of_mem _ hy)) (by simpa using hf)]
    simp only [joined_cons, List.length_append, Nat.add_assoc]

theorem readTargetPositionLoop_missing {fuel : Nat} {target : Int64} (h : s.Holds file start ls)
    (hls : ∀ x ∈ ls, x.offset ≠ target) :
    s.readTargetPositionLoop file target fuel start = .error errorNotData := by
  induction ls generalizing fuel start with
  | nil =>
    have hend : s.getFileSize ≤ start := by simp [h.size]
    cases fuel with
    | zero => rfl
    | succ fuel => rw [readTargetPositionLoop, if_pos hend]
  | cons x ls ih =>
    cases fuel with
    | zero => rfl
    | succ fuel =>
      rw [readTargetPositionLoop_cons target h, if_neg (hls x List.mem_cons_self)]
      exact ih h.tail fun y hy => hls y (List.mem_cons_of_mem _ hy)

theorem readTargetPosition_found (h : s.Holds file start (pre ++ l :: ls))
    (hpre : ∀ x ∈ pre, x.offset ≠ l.offset) :
    s.readTargetPosition file start l.offset =
      .ok (start + (joined pre).length,start + (joined pre).length + l.wrap.length) := by
  apply readTargetPositionLoop_found h hpre
  have hle := length_le_joined (pre ++ l :: ls)
  rw [List.length_append, List.length_cons] at hle
  rw [h.size]
  omega

theorem readTargetPosition_missing {target : Int64} (h : s.Holds file start ls)
    (hls : ∀ x ∈ ls, x.offset ≠ target) :
    s.readTargetPosition file start target = .error errorNotData :=
  readTargetPositionLoop_missing h hls

theorem readLogsAtPositionLoop_eq {limit : UInt64} {callback : σ → Bytes → Outcome σ}
    {fuel count : Nat} {acc : σ} (h : s.Holds file start ls) (hf : ls.length ≤ fuel) :
    s.readLogsAtPositionLoop file limit callback fuel start count acc =
      ((ls.take (limit.toNat - count)).map (·.data)).foldlM callback acc := by
  induction ls generalizing fuel start count acc with
  | nil =>
    have hend : s.getFileSize ≤ start := by simp [h.size]
    rw [List.take_nil]
    cases fuel with
    | zero => rfl
    | succ fuel =>
      rw [readLogsAtPositionLoop, if_pos (Or.inl hend)]
      rfl
  | cons l ls ih =>
    obtain ⟨fuel,rfl⟩ : ∃ n, fuel = n + 1 := ⟨fuel - 1,by simp at hf; omega⟩
    rw [readLogsAtPositionLoop]
    by_cases hlim : limit.toNat ≤ count
    · have hz : limit.toNat - count = 0 := by omega
      rw [if_pos (Or.inr hlim), hz, List.take_zero]
      rfl
    · have hgo : ¬ (s.getFileSize ≤ start ∨ limit.toNat ≤ count) := by
        rintro (hend | hle)
        · exact h.not_end hend
        · exact hlim hle
      obtain ⟨k,hk⟩ : ∃ k, limit.toNat - count = k + 1 := ⟨limit.toNat - count - 1,by omega⟩
      have hk' : limit.toNat - (count + 1) = k := by omega
      rw [if_neg hgo, h.readLogDataAtPosition, ok_bind, hk, List.take_succ_cons, List.map_cons,
        List.foldlM_cons]
      simp only [ih h.tail (Nat.le_of_succ_le_succ hf), hk']

theorem readLogsAtPosition_eq {limit : UInt64} {callback : σ → Bytes → Outcome σ} {acc : σ}
    (h : s.Holds file start ls) :
    s.readLogsAtPosition file start limit callback acc =
      ((ls.take limit.toNat).map (·.data)).foldlM callback acc := by
  have hle := length_le_joined ls
  have hf : ls.length ≤ s.getFileSize - start := by
    rw [h.size]
    omega
  exact readLogsAtPositionLoop_eq h hf

end Reading
end Segment
end LiMaoIM.Db

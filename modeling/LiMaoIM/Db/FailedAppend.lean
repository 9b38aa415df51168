import LiMaoIM.Db.TopicLayout

namespace LiMaoIM.Db

open Outcome

def Segment.appendLogWith (write : Option String) (s : Segment) (files : SegmentFiles) (log : Log) :
    Outcome (Nat × Segment × SegmentFiles) :=
  if logMaxSize < log.data.length then
    .error ("Log data is too large！can not exceed " ++ toString logMaxSize ++ " byte")
  else
    match write with
    | some err => .error ("log write failed: " ++ err)
    | none => s.appendLog files log

theorem Segment.appendLogWith_none (s : Segment) (files : SegmentFiles) (log : Log) :
    s.appendLogWith none files log = s.appendLog files log := by
  rw [appendLogWith, appendLog]
  split
  · rfl
  · rfl

theorem Segment.appendLogWith_error_iff {write : Option String} {s : Segment}
    {files : SegmentFiles} {log : Log} :
    (∃ e, s.appendLogWith write files log = .error e) ↔
      logMaxSize < log.data.length ∨ write.isSome = true := by
  rw [appendLogWith.eq_def]
  split
  · rename_i hlarge
    exact iff_of_true ⟨_,rfl⟩ (Or.inl hlarge)
  · rename_i hsmall
    cases write with
    | some err => exact iff_of_true ⟨_,rfl⟩ (Or.inr rfl)
    | none =>
      refine iff_of_false ?_ (by simp [hsmall])
      rintro ⟨e,he⟩
      rw [appendLog, if_neg hsmall] at he
      cases he

namespace Topic

def appendActiveWith (write : Option String) (log : Log) : Exec Topic Nat := do
  let s ← getActiveSegment
  let t ← Exec.get
  let (n,s',files) ← Exec.lift (s.appendLogWith write (t.files s) log)
  Exec.modify (store t.activeSegment s' files)
  pure n

def appendLogWith (write : Option String) (log : Log) : Exec Topic Nat := do
  let activeSegment ← getActiveSegment
  let t ← Exec.get
  if t.alreadyAppended log then pure 0
  else do
    Exec.modify (remember log)
    if t.needRoll activeSegment then do
      roll log
      appendActiveWith write log
    else appendActiveWith write log

theorem appendLogWith_none (log : Log) : appendLogWith none log = appendLog log := by
  simp only [appendLogWith, appendLog, appendActiveWith, appendActive, Segment.appendLogWith_none]

variable {write : Option String} {log later : Log} {t t' : Topic} {e : String}

theorem appendActiveWith_error (h : appendActiveWith write log t = (.error e,t')) :
    t' = t ∧ ∃ s, t.objects[t.activeSegment]? = some s := by
  cases hs : t.objects[t.activeSegment]? with
  | none =>
    have hpanic : getActiveSegment t = (.panic nilPointer,t) := by
      simp only [getActiveSegment, segmentAt, hs]
    rw [appendActiveWith, Exec.bind_of_panic hpanic] at h
    cases h
  | some s =>
    rw [appendActiveWith, Exec.bind_of_ok (getActiveSegment_of hs), Exec.get_bind] at h
    cases hrun : s.appendLogWith write (t.files s) log with
    | ok r =>
      rw [hrun, Exec.bind_of_ok (Exec.lift_apply _)] at h
      cases h
    | error e' =>
      rw [hrun, Exec.bind_of_error (Exec.lift_apply _)] at h
      exact ⟨(congrArg Prod.snd h).symm,s,rfl⟩
    | panic e' =>
      rw [hrun, Exec.bind_of_panic (Exec.lift_apply _)] at h
      cases h

theorem appendLogWith_error (h : appendLogWith write log t = (.error e,t')) :
    t'.lastMemLog = some log ∧ ∃ s, t'.objects[t'.activeSegment]? = some s := by
  cases hs : t.objects[t.activeSegment]? with
  | none =>
    have hpanic : getActiveSegment t = (.panic nilPointer,t) := by
      simp only [getActiveSegment, segmentAt, hs]
    rw [appendLogWith, Exec.bind_of_panic hpanic] at h
    cases h
  | some s =>
    rw [appendLogWith, Exec.bind_of_ok (getActiveSegment_of hs), Exec.get_bind] at h
    split at h
    · cases h
    · rw [Exec.modify_bind] at h
      split at h
      · cases hopen : t.dir.openSegment log.offset with
        | ok r =>
          have hrun : openSegment log.offset (remember log t) = (.ok t.objects.length,
              { remember log t with dir := r.2, objects := t.objects ++ [r.1] }) := by
            simp only [openSegment, remember, hopen]
          have hroll : roll log (remember log t) = (.ok (),rolled log r.1 r.2 (remember log t)) := by
            rw [roll, Exec.bind_of_ok hrun]
            rfl
          rw [Exec.bind_of_ok hroll] at h
          obtain ⟨rfl,hactive⟩ := appendActiveWith_error h
          exact ⟨rfl,hactive⟩
        | error e' =>
          have hrun : openSegment log.offset (remember log t) = (.error e',remember log t) := by
            simp only [openSegment, remember, hopen]
          have hroll : roll log (remember log t) = (.error e',remember log t) := by
            rw [roll, Exec.bind_of_error hrun]
          rw [Exec.bind_of_error hroll] at h
          obtain rfl := congrArg Prod.snd h
          exact ⟨rfl,s,hs⟩
        | panic e' =>
          have hrun : openSegment log.offset (remember log t) = (.panic e',remember log t) := by
            simp only [openSegment, remember, hopen]
          have hroll : roll log (remember log t) = (.panic e',remember log t) := by
            rw [roll, Exec.bind_of_panic hrun]
          rw [Exec.bind_of_panic hroll] at h
          cases h
      · obtain ⟨rfl,hactive⟩ := appendActiveWith_error h
        exact ⟨rfl,hactive⟩

theorem retry_skipped (h : appendLogWith write log t = (.error e,t'))
    (hlater : later.offset ≤ log.offset) : appendLog later t' = (.ok 0,t') := by
  obtain ⟨hmem,s,hs⟩ := appendLogWith_error h
  apply appendLog_skip hs
  rw [alreadyAppended, hmem]
  exact decide_eq_true hlater

def Stores (later : Log) (t : Topic) : Prop :=
  ∃ t' s, appendLog later t = (.ok later.wrap.length,t') ∧
    t'.objects[t'.activeSegment]? = some s ∧ later.wrap <:+ (t'.files s).log

def collect (logs : List Bytes) (data : Bytes) : Outcome (List Bytes) := .ok (logs ++ [data])

structure AsIfNotCalled (log : Log) (t t' : Topic) : Prop where
  lastSeq : t'.getLastSeq = t.getLastSeq
  stored : ∀ offset limit, (readLogs offset limit collect [] t').1 =
    (readLogs offset limit collect [] t).1
  accepted : ∀ later, (appendLog later t').1 = (appendLog later t).1
  retried : ∀ later : Log, later.offset = log.offset → later.data.length ≤ logMaxSize →
    Stores later t'

theorem not_stores_retry (h : appendLogWith write log t = (.error e,t'))
    (hlater : later.offset ≤ log.offset) : ¬ Stores later t' := by
  rintro ⟨t'',s,hrun,-⟩
  rw [retry_skipped h hlater] at hrun
  have hpos := length_wrap_pos later
  have hzero : 0 = later.wrap.length := Outcome.ok.inj (congrArg Prod.fst hrun)
  omega

theorem failed_append_not_atomic (h : appendLogWith write log t = (.error e,t')) :
    ¬ AsIfNotCalled log t t' := by
  intro hatomic
  have hretry : Stores ⟨log.offset,0,[]⟩ t' := hatomic.retried _ rfl (Nat.zero_le _)
  exact absurd hretry (not_stores_retry h (Int64.le_refl _))

def firstLog : Log := ⟨1,0,[7]⟩

theorem full_disk_loses_retry :
    ¬ AsIfNotCalled firstLog (freshTopic 4096) (remember firstLog (freshTopic 4096)) :=
  failed_append_not_atomic
    (show appendLogWith (some "no space left on device") firstLog (freshTopic 4096) =
      (.error "log write failed: no space left on device",_) from rfl)

theorem large_append_fails {data : Bytes} (h : logMaxSize < data.length) :
    ∃ e, appendLogWith none ⟨1,0,data⟩ (freshTopic 4096) =
      (.error e,remember ⟨1,0,data⟩ (freshTopic 4096)) := by
  have hlarge : logMaxSize < (Log.mk 1 0 data).data.length := h
  obtain ⟨e,he⟩ := Segment.appendLog_large (freshSegment 0) mappedFiles hlarge
  refine ⟨e,?_⟩
  rw [appendLogWith_none, appendLog_stay (s := freshSegment 0) rfl rfl (by decide)]
  exact appendActive_error (s := freshSegment 0) rfl he

def largeLog : Log := ⟨1,0,List.replicate (logMaxSize + 1) 0⟩

theorem large_append_not_atomic :
    (∃ e, appendLogWith none largeLog (freshTopic 4096) =
        (.error e,remember largeLog (freshTopic 4096))) ∧
      ¬ AsIfNotCalled largeLog (freshTopic 4096) (remember largeLog (freshTopic 4096)) := by
  have hlarge : logMaxSize < (List.replicate (logMaxSize + 1) (0 : UInt8)).length := by
    rw [List.length_replicate]
    exact Nat.lt_succ_self _
  obtain ⟨e,he⟩ := large_append_fails hlarge
  refine ⟨⟨e,he⟩,fun hatomic => ?_⟩
  have hretry : Stores ⟨1,0,[]⟩ (remember largeLog (freshTopic 4096)) :=
    hatomic.retried _ rfl (Nat.zero_le _)
  exact absurd hretry (not_stores_retry he (Int64.le_refl _))

end Topic
end LiMaoIM.Db

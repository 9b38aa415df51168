import LiMaoIM.Db.ReadBack
import LiMaoIM.Db.TopicLayout

namespace LiMaoIM.Db

open Outcome Segment

theorem run_appendStep_log {s : Segment} (files : SegmentFiles) {ls : List Log}
    (hsmall : ∀ l ∈ ls, l.data.length ≤ logMaxSize) (hs : entrySize ∣ s.index.position) :
    ∃ s' files', Run.run appendStep (s,files) ls = .ok (s',files') ∧
      files'.log = files.log ++ joined ls ∧ s'.position = s.position + (joined ls).length := by
  induction ls generalizing s files with
  | nil => exact ⟨s,files,rfl,(List.append_nil _).symm,rfl⟩
  | cons l ls ih =>
    obtain ⟨s₁,files₁,happend,-,hpos,hlog,-,hal⟩ :=
      Segment.appendLog_small files (hsmall l List.mem_cons_self) hs
    obtain ⟨s',files',hrun,hlog',hpos'⟩ := ih files₁
      (fun x hx => hsmall x (List.mem_cons_of_mem l hx)) hal
    have hstep : appendStep (s,files) l = .ok (s₁,files₁) := by
      rw [appendStep, happend]
      rfl
    refine ⟨s',files',?_,?_,?_⟩
    · rw [Run.run, hstep, ok_bind, hrun]
    · rw [hlog', hlog, joined_cons, List.append_assoc]
    · rw [hpos', hpos, joined_cons, List.length_append, Nat.add_assoc]

theorem appendAll_holds (base : Int64) {logs : List Log}
    (h : ∀ l ∈ logs, l.data.length ≤ logMaxSize) :
    ∃ s files, appendAll base logs = .ok (s,files) ∧ files.log = joined logs ∧
      s.position = (joined logs).length ∧ s.Holds files.log 0 logs := by
  obtain ⟨files₀,hlog,hnew⟩ : ∃ files : SegmentFiles, files.log = [] ∧
      newSegment .empty base = .ok (⟨base,⟨base,0,0⟩,0,0,0⟩,files) := ⟨_,rfl,rfl⟩
  obtain ⟨s,files,hrun,hfile,hpos⟩ := run_appendStep_log (s := ⟨base,⟨base,0,0⟩,0,0,0⟩)
    files₀ h (Nat.dvd_zero _)
  have happend : appendAll base logs = .ok (s,files) := by rw [appendAll, hnew, ok_bind, hrun]
  rw [hlog, List.nil_append] at hfile
  rw [Nat.zero_add] at hpos
  refine ⟨s,files,happend,hfile,hpos,⟨?_,?_,h⟩⟩
  · rw [hfile, List.drop_zero]
  · rw [Segment.getFileSize, hpos, Nat.zero_add]
    split
    · rename_i hzero
      have hle := length_le_joined logs
      obtain rfl : logs = [] := List.length_eq_zero_iff.mp (by omega)
      rw [Run.run] at hrun
      cases hrun
      rfl
    · rfl

theorem segment_round_trip (base : Int64) (logs : List Log)
    (h : ∀ l ∈ logs, l.data.length ≤ logMaxSize) :
    ∃ s files, appendAll base logs = .ok (s,files) ∧
      files.log = logs.flatMap (fun l => wrapLogData l.offset l.appliIndex l.data) ∧
      s.position = files.log.length ∧
      (∀ k l, logs[k]? = some l →
        readAtPosition files.log (joined (logs.take k)).length = .ok (l.offset,l.data.length)) ∧
      ∀ (k : Nat) (σ : Type) (limit : UInt64) (callback : σ → Bytes → Outcome σ) (acc : σ),
        s.readLogsAtPosition files.log (joined (logs.take k)).length limit callback acc =
          (((logs.drop k).take limit.toNat).map (·.data)).foldlM callback acc := by
  obtain ⟨s,files,happend,hfile,hpos,hholds⟩ := appendAll_holds base h
  have hat (k : Nat) : s.Holds files.log (joined (logs.take k)).length (logs.drop k) := by
    have hsplit := (List.take_append_drop k logs).symm
    rw [hsplit] at hholds
    have hsuffix := hholds.suffix
    rwa [Nat.zero_add] at hsuffix
  refine ⟨s,files,happend,hfile,hfile ▸ hpos,fun k l hl => ?_,
    fun k σ limit callback acc => readLogsAtPosition_eq (hat k)⟩
  obtain ⟨hk,rfl⟩ := List.getElem?_eq_some_iff.mp hl
  have hrecord := hat k
  rw [List.drop_eq_getElem_cons hk] at hrecord
  exact hrecord.readAtPosition

theorem segment_round_trip_markers :
    ∃ s files, appendAll 0 [⟨-1,5,[0x15,0x16,1]⟩,⟨7,0,[]⟩] = .ok (s,files) ∧
      files.log = [⟨-1,5,[0x15,0x16,1]⟩,⟨7,0,[]⟩].flatMap
        (fun l : Log => wrapLogData l.offset l.appliIndex l.data) := by
  obtain ⟨s,files,happend,hlog,-⟩ :=
    segment_round_trip 0 [⟨-1,5,[0x15,0x16,1]⟩,⟨7,0,[]⟩] (by decide)
  exact ⟨s,files,happend,hlog⟩

end LiMaoIM.Db

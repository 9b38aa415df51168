import LiMaoIM.Db.ReadBack

namespace LiMaoIM.Db

open Outcome Segment

def atLeast (logs : List Log) (o : Int64) (limit : UInt64) : List Bytes :=
  ((logs.filter (o ≤ ·.offset)).take limit.toNat).map (·.data)

def ReadsFrom (s : Segment) (files : SegmentFiles) (logs : List Log) (o : Int64)
    (limit : UInt64) : Prop :=
  ∀ (σ : Type) (callback : σ → Bytes → Outcome σ) (acc : σ),
    s.readLogs files o limit callback acc = (atLeast logs o limit).foldlM callback acc

def gather (acc : List Bytes) (data : Bytes) : Outcome (List Bytes) := .ok (acc ++ [data])

theorem foldlM_gather (acc datas : List Bytes) :
    datas.foldlM gather acc = .ok (acc ++ datas) := by
  induction datas generalizing acc with
  | nil => exact congrArg Outcome.ok (List.append_nil acc).symm
  | cons d datas ih =>
    rw [List.foldlM_cons, gather, ok_bind, ih, List.append_assoc]
    rfl

section Gaps

variable {base : Int64} {logs : List Log} {s : Segment} {files : SegmentFiles} {o : Int64}

theorem readLogs_base (hw : Written base logs s files) (hnil : indexMarks 0 0 logs = [])
    {σ : Type} (limit : UInt64) (callback : σ → Bytes → Outcome σ) (acc : σ) :
    s.readLogs files base limit callback acc =
      ((logs.take limit.toNat).map (·.data)).foldlM callback acc := by
  have hz : s.index.position / entrySize = 0 := by rw [hw.entries, hnil, List.length_nil]
  rw [readLogs, lookup_of_empty hz, hw.baseOffset]
  simp only [if_true]
  exact readLogsAtPosition_eq hw.holds

theorem readLogs_missing (hw : Written base logs s files) (hnil : indexMarks 0 0 logs = [])
    (hbase : o ≠ base) (hmissing : ∀ l ∈ logs, l.offset ≠ o) {σ : Type} (limit : UInt64)
    (callback : σ → Bytes → Outcome σ) (acc : σ) :
    s.readLogs files o limit callback acc = .ok acc := by
  have hz : s.index.position / entrySize = 0 := by rw [hw.entries, hnil, List.length_nil]
  rw [readLogs, lookup_of_empty hz, hw.baseOffset]
  simp only [if_neg (Ne.symm hbase), readTargetPosition_missing hw.holds hmissing, if_true]

theorem readsFrom_iff (h : Appendable base logs) (hw : Written base logs s files)
    (hnil : indexMarks 0 0 logs = []) (limit : UInt64) :
    ReadsFrom s files logs o limit ↔
      limit = 0 ∨ o = base ∨ (∃ l ∈ logs, l.offset = o) ∨ ∀ l ∈ logs, l.offset < o := by
  by_cases hbase : o = base
  · subst hbase
    have hall : logs.filter (o ≤ ·.offset) = logs := List.filter_eq_self.mpr fun l hl =>
      decide_eq_true (h.fromBase l hl)
    refine iff_of_true (fun σ callback acc => ?_) (.inr (.inl rfl))
    rw [readLogs_base hw hnil, atLeast, hall]
  by_cases hstored : ∃ l ∈ logs, l.offset = o
  · obtain ⟨l,hl,rfl⟩ := hstored
    have hz : s.index.position / entrySize = 0 := by rw [hw.entries, hnil, List.length_nil]
    have hlookup := hw.baseOffset ▸ lookup_of_empty (f := files.index) hz l.offset
    have hback := readsBack_of_lookup_base hw h hl hlookup
    exact iff_of_true (fun σ callback acc => hback.readLogs σ limit callback acc)
      (.inr (.inr (.inl ⟨l,hl,rfl⟩)))
  have hmissing (l : Log) (hl : l ∈ logs) : l.offset ≠ o := fun he => hstored ⟨l,hl,he⟩
  have hread {σ : Type} := @readLogs_missing base logs s files o hw hnil hbase hmissing σ limit
  have hempty : ReadsFrom s files logs o limit ↔ atLeast logs o limit = [] := by
    constructor
    · intro hreads
      have hc := hreads _ gather []
      rw [hread, foldlM_gather] at hc
      exact (Outcome.ok.inj hc).symm
    · intro hnone σ callback acc
      rw [hread, hnone]
      rfl
  rw [hempty, atLeast, List.map_eq_nil_iff, List.take_eq_nil_iff, List.filter_eq_nil_iff]
  have hlimit : limit.toNat = 0 ↔ limit = 0 := by
    rw [← UInt64.toNat_inj]
    rfl
  simp only [hlimit, hbase, hstored, false_or, decide_eq_true_eq, Int64.not_le]

theorem readLogs_tolerates_gaps_iff (base : Int64) (logs : List Log)
    (hasc : logs.Pairwise (fun a b => a.offset < b.offset)) (hbase : ∀ l ∈ logs, base ≤ l.offset)
    (hsmall : ∀ l ∈ logs, l.data.length ≤ logMaxSize)
    (hshort : (joined logs.dropLast).length ≤ indexIntervalBytes) (o : Int64)
    (limit : UInt64) :
    ∃ s files, appendAll base logs = .ok (s,files) ∧
      (ReadsFrom s files logs o limit ↔
        limit = 0 ∨ o = base ∨ (∃ l ∈ logs, l.offset = o) ∨ ∀ l ∈ logs, l.offset < o) := by
  have htotal : (joined logs).length < 2 ^ 32 := by
    rcases List.eq_nil_or_concat logs with rfl | ⟨init,last,rfl⟩
    · decide
    · have hlast := hsmall last (by simp)
      rw [List.concat_eq_append, List.dropLast_concat, indexIntervalBytes] at hshort
      rw [logMaxSize] at hlast
      rw [List.concat_eq_append, joined_append, List.length_append, joined_cons, joined_nil,
        List.append_nil, length_wrap]
      have hmin : logMinLen = 24 := rfl
      omega
  have h : Appendable base logs := ⟨hasc,hbase,hsmall,htotal⟩
  obtain ⟨s,files,hrun,hw⟩ := appendAll_written h
  exact ⟨s,files,hrun,readsFrom_iff h hw
    (indexMarks_eq_nil_iff.mpr (.inr (by rwa [Nat.zero_add]))) limit⟩

end Gaps

def gapLogs : List Log := [⟨1,0,[7]⟩,⟨3,0,[9]⟩]

theorem readLogs_tolerates_gaps_iff_stored :
    ∃ s files, appendAll 0 gapLogs = .ok (s,files) ∧ (ReadsFrom s files gapLogs 3 10 ↔
      (10 : UInt64) = 0 ∨ (3 : Int64) = 0 ∨ (∃ l ∈ gapLogs, l.offset = 3) ∨
        ∀ l ∈ gapLogs, l.offset < 3) :=
  readLogs_tolerates_gaps_iff 0 gapLogs (by decide) (by decide) (by decide) (by decide) 3 10

theorem readLogs_stops_at_gap :
    ∃ s files, appendAll 0 gapLogs = .ok (s,files) ∧
      s.readLogs files 2 10 gather [] = .ok [] ∧ atLeast gapLogs 2 10 = [[9]] := by
  have h : Appendable 0 gapLogs := ⟨by decide,by decide,by decide,by decide⟩
  obtain ⟨s,files,hrun,hw⟩ := appendAll_written h
  refine ⟨s,files,hrun,readLogs_missing hw (by decide) (by decide) (by decide) 10 gather [],?_⟩
  decide

end LiMaoIM.Db

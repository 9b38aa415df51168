import LiMaoIM.Db.Backup
import Mathlib.Data.List.TakeWhile

namespace LiMaoIM.Db

open Outcome

structure Disk where
  content : Bytes → Option Bytes
  unnamed : content [] = none

structure Scanner where
  f : Option Bytes
  segmentPath : Bytes
  position : Nat
deriving DecidableEq

namespace Scanner

def noSuchFile : String := "no such file or directory"

def invalidArgument : String := "invalid argument"

variable {σ : Type}

def newScanner : Scanner := ⟨none,[],0⟩

def endScanner (s : Scanner) : Scanner := { s with f := none, segmentPath := [] }

def openSegment (disk : Disk) (segmentPath : Bytes) (s : Scanner) : Outcome Unit × Scanner :=
  if segmentPath = s.segmentPath then (.ok (),s)
  else
    match disk.content segmentPath with
    | none => (.error noSuchFile,{ s with f := none })
    | some file => (.ok (),⟨some file,segmentPath,0⟩)

def readFullWrapLog (s : Scanner) : Outcome (Option (Bytes × UInt64 × Nat)) :=
  match s.f with
  | none => .error invalidArgument
  | some file => Db.readFullWrapLog file s.position

def scanOpened (endAppliIndex : UInt64) (callback : σ → Bytes → Outcome σ) :
    Exec (Scanner × σ) Bool := fun (s,acc) =>
  match s.readFullWrapLog with
  | .error e => (.error e,(s.endScanner,acc))
  | .panic e => (.panic e,(s,acc))
  | .ok none => (.ok false,(s.endScanner,acc))
  | .ok (some (data,appliIndex,position)) =>
      let s := { s with position := position }
      if endAppliIndex ≠ 0 ∧ endAppliIndex < appliIndex then (.ok false,(s.endScanner,acc))
      else
        match callback acc data with
        | .error e => (.error e,(s.endScanner,acc))
        | .panic e => (.panic e,(s,acc))
        | .ok acc => (.ok true,(s,acc))

def scan (disk : Disk) (segmentPath : Bytes) (endAppliIndex : UInt64)
    (callback : σ → Bytes → Outcome σ) : Exec (Scanner × σ) Bool := fun (s,acc) =>
  match s.openSegment disk segmentPath with
  | (.error e,s) => (.error e,(s,acc))
  | (.panic e,s) => (.panic e,(s,acc))
  | (.ok (),s) => scanOpened endAppliIndex callback (s,acc)

def scanSegment (disk : Disk) (segmentPath : Bytes) (endAppliIndex : UInt64)
    (callback : σ → Bytes → Outcome σ) : Nat → Exec (Scanner × σ) Unit
  | 0 => Exec.lift (.panic "scan does not terminate")
  | fuel + 1 => do
      let has ← scan disk segmentPath endAppliIndex callback
      if has then scanSegment disk segmentPath endAppliIndex callback fuel
      else pure ()

def scanSegments (disk : Disk) (endAppliIndex : UInt64) (callback : σ → Bytes → Outcome σ)
    (fuel : Nat) : List Bytes → Exec (Scanner × σ) Unit
  | [] => pure ()
  | segmentPath :: segmentPaths => do
      scanSegment disk segmentPath endAppliIndex callback fuel
      scanSegments disk endAppliIndex callback fuel segmentPaths

def Idle (s : Scanner) : Prop := s.segmentPath = []

def AtPosition (disk : Disk) (path file : Bytes) (position : Nat) (s : Scanner) : Prop :=
  s.openSegment disk path = (.ok (),⟨some file,path,position⟩)

def wanted (endAppliIndex : UInt64) (l : Log) : Bool :=
  decide (endAppliIndex = 0 ∨ l.appliIndex ≤ endAppliIndex)

def passed (endAppliIndex : UInt64) (logs : List Log) : List Bytes :=
  (logs.takeWhile (wanted endAppliIndex)).map Log.wrap

section Scans

variable {disk : Disk} {path file : Bytes} {position : Nat} {s : Scanner} {e : UInt64}

theorem Idle.atPosition (h : s.Idle) (hfile : disk.content path = some file) :
    s.AtPosition disk path file 0 := by
  have hne : path ≠ s.segmentPath := by
    rw [show s.segmentPath = [] from h]
    rintro rfl
    rw [disk.unnamed] at hfile
    cases hfile
  rw [AtPosition, openSegment, if_neg hne, hfile]

theorem atPosition_same (path file : Bytes) (position : Nat) :
    AtPosition disk path file position ⟨some file,path,position⟩ := by
  rw [AtPosition, openSegment, if_pos rfl]

theorem scan_end (h : s.AtPosition disk path file position) (hend : file.drop position = [])
    (callback : σ → Bytes → Outcome σ) (acc : σ) :
    scan disk path e callback (s,acc) = (.ok false,(⟨none,[],position⟩,acc)) := by
  simp only [scan, show s.openSegment disk path = _ from h, scanOpened, readFullWrapLog,
    readFullWrapLog_end hend, endScanner]

theorem scan_record {l : Log} {rest : Bytes} (h : s.AtPosition disk path file position)
    (hrecord : file.drop position = l.wrap ++ rest) (hl : l.data.length < 2 ^ 32)
    (g : σ → Bytes → σ) (acc : σ) :
    scan disk path e (fun acc data => .ok (g acc data)) (s,acc) =
      if wanted e l then (.ok true,(⟨some file,path,position + l.wrap.length⟩,g acc l.wrap))
      else (.ok false,(⟨none,[],position + l.wrap.length⟩,acc)) := by
  have hnot : (e ≠ 0 ∧ e < l.appliIndex) ↔ wanted e l = false := by
    rw [wanted, decide_eq_false_iff_not, not_or, UInt64.not_le]
  simp only [scan, show s.openSegment disk path = _ from h, scanOpened, readFullWrapLog,
    readFullWrapLog_record hrecord hl, endScanner, hnot]
  cases wanted e l <;> rfl

theorem scanSegment_passed {logs : List Log} (h : s.AtPosition disk path file position)
    (hlogs : file.drop position = joined logs) (hsmall : ∀ l ∈ logs, l.data.length < 2 ^ 32)
    {fuel : Nat} (hfuel : logs.length < fuel) (g : σ → Bytes → σ) (acc : σ) :
    ∃ s', s'.Idle ∧ scanSegment disk path e (fun acc data => .ok (g acc data)) fuel (s,acc) =
      (.ok (),(s',(passed e logs).foldl g acc)) := by
  induction logs generalizing s position fuel acc with
  | nil =>
    obtain ⟨fuel,rfl⟩ : ∃ n, fuel = n + 1 := ⟨fuel - 1,by simp at hfuel; omega⟩
    refine ⟨⟨none,[],position⟩,rfl,?_⟩
    rw [scanSegment, Exec.bind_of_ok (scan_end h hlogs _ acc)]
    rfl
  | cons l logs ih =>
    obtain ⟨fuel,rfl⟩ : ∃ n, fuel = n + 1 := ⟨fuel - 1,by omega⟩
    obtain ⟨hrecord,hrest⟩ := drop_wrap hlogs
    have hscan := scan_record (e := e) h hrecord (hsmall l List.mem_cons_self) g acc
    cases hw : wanted e l with
    | false =>
      rw [hw, if_neg (by decide)] at hscan
      refine ⟨⟨none,[],position + l.wrap.length⟩,rfl,?_⟩
      rw [scanSegment, Exec.bind_of_ok hscan, passed, List.takeWhile_cons_of_neg (by simp [hw])]
      rfl
    | true =>
      rw [hw, if_pos rfl] at hscan
      obtain ⟨s',hidle,hrun⟩ := ih (atPosition_same path file _) hrest
        (fun x hx => hsmall x (List.mem_cons_of_mem l hx)) (Nat.lt_of_succ_lt_succ hfuel)
        (g acc l.wrap)
      refine ⟨s',hidle,?_⟩
      rw [scanSegment, Exec.bind_of_ok hscan, if_pos rfl, hrun, passed, passed,
        List.takeWhile_cons_of_pos hw, List.map_cons, List.foldl_cons]

theorem scanSegments_passed {segments : List (Bytes × List Log)} (hs : s.Idle)
    (h : ∀ p ∈ segments, disk.content p.1 = some (joined p.2) ∧
      ∀ l ∈ p.2, l.data.length < 2 ^ 32)
    {fuel : Nat} (hfuel : ∀ p ∈ segments, p.2.length < fuel) (g : σ → Bytes → σ) (acc : σ) :
    ∃ s', s'.Idle ∧
      scanSegments disk e (fun acc data => .ok (g acc data)) fuel (segments.map (·.1)) (s,acc) =
        (.ok (),(s',(segments.flatMap fun p => passed e p.2).foldl g acc)) := by
  induction segments generalizing s acc with
  | nil => exact ⟨s,hs,rfl⟩
  | cons p segments ih =>
    obtain ⟨hfile,hsmall⟩ := h p List.mem_cons_self
    obtain ⟨s₁,hs₁,hrun₁⟩ := scanSegment_passed (e := e) (hs.atPosition hfile) List.drop_zero hsmall
      (hfuel p List.mem_cons_self) g acc
    obtain ⟨s',hs',hrun⟩ := ih hs₁ (fun q hq => h q (List.mem_cons_of_mem p hq))
      (fun q hq => hfuel q (List.mem_cons_of_mem p hq)) ((passed e p.2).foldl g acc)
    refine ⟨s',hs',?_⟩
    rw [List.map_cons, scanSegments, Exec.bind_of_ok hrun₁, hrun, List.flatMap_cons,
      List.foldl_append]

theorem passed_zero (logs : List Log) : (passed 0 logs).flatten = joined logs := by
  have hall : logs.takeWhile (wanted 0) = logs :=
    List.takeWhile_eq_self_iff.mpr fun l _ => decide_eq_true (.inl rfl)
  rw [passed, hall, joined, List.flatMap_def]

theorem flatten_passed_zero (segments : List (Bytes × List Log)) :
    (segments.flatMap fun p => passed 0 p.2).flatten = segments.flatMap fun p => joined p.2 := by
  induction segments with
  | nil => rfl
  | cons p segments ih =>
    rw [List.flatMap_cons, List.flatten_append, passed_zero, ih, List.flatMap_cons]

end Scans

theorem scanner_reproduces_segments (disk : Disk) (segments : List (Bytes × List Log))
    (h : ∀ p ∈ segments, disk.content p.1 = some (joined p.2) ∧
      ∀ l ∈ p.2, l.data.length < 2 ^ 32)
    (endAppliIndex : UInt64) {s : Scanner} (hs : s.Idle) :
    ∃ enough, ∀ fuel ≥ enough,
      (∀ (σ : Type) (g : σ → Bytes → σ) (acc : σ), ∃ s', s'.Idle ∧
        scanSegments disk endAppliIndex (fun acc data => .ok (g acc data)) fuel
            (segments.map (·.1)) (s,acc) =
          (.ok (),(s',(segments.flatMap fun p => passed endAppliIndex p.2).foldl g acc))) ∧
      ∃ s', scanSegments disk 0 (fun w data => .ok (w ++ data)) fuel (segments.map (·.1)) (s,[]) =
        (.ok (),(s',segments.flatMap fun p => joined p.2)) := by
  refine ⟨(segments.map (·.2.length)).sum + 1,fun fuel hfuel => ?_⟩
  have henough : ∀ p ∈ segments, p.2.length < fuel := by
    intro p hp
    have hmem : p.2.length ∈ segments.map (·.2.length) := List.mem_map_of_mem hp
    have hle := List.single_le_sum (fun _ _ => Nat.zero_le _) _ hmem
    omega
  refine ⟨fun σ g acc => scanSegments_passed hs h henough g acc,?_⟩
  obtain ⟨s',-,hrun⟩ := scanSegments_passed (e := 0) hs h henough (fun w data => w ++ data) []
  refine ⟨s',?_⟩
  have hwritten (ds : List Bytes) : ds.foldl (fun w data => w ++ data) [] = ds.flatten := by
    rw [← List.map_id ds, ← List.nil_append (ds.map id).flatten, ← List.foldl_append_eq_append,
      List.map_id]
    rfl
  rw [hrun, hwritten, flatten_passed_zero]

def twoFiles : Disk where
  content path :=
    if path = [1] then some (joined [⟨1,4,[7]⟩,⟨2,6,[]⟩])
    else if path = [2] then some (joined [⟨3,5,[8]⟩]) else none
  unnamed := rfl

theorem scanner_reproduces_two_files :
    ∃ enough, ∀ fuel ≥ enough,
      (∀ (σ : Type) (g : σ → Bytes → σ) (acc : σ), ∃ s', s'.Idle ∧
        scanSegments twoFiles 5 (fun acc data => .ok (g acc data)) fuel [[1],[2]] (newScanner,acc) =
          (.ok (),(s',([wrapLogData 1 4 [7],wrapLogData 3 5 [8]]).foldl g acc))) ∧
      ∃ s', scanSegments twoFiles 0 (fun w data => .ok (w ++ data)) fuel [[1],[2]]
          (newScanner,[]) =
        (.ok (),(s',joined [⟨1,4,[7]⟩,⟨2,6,[]⟩] ++ joined [⟨3,5,[8]⟩])) :=
  scanner_reproduces_segments twoFiles [([1],[⟨1,4,[7]⟩,⟨2,6,[]⟩]),([2],[⟨3,5,[8]⟩])]
    (by decide) 5 rfl

end Scanner

end LiMaoIM.Db

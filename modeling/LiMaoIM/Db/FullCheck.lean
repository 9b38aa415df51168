import LiMaoIM.Foundation.Delimit
import LiMaoIM.Db.Segment

namespace LiMaoIM.Db

open Outcome Delimit

def CompleteRecord (r : Bytes) : Prop :=
  ∃ version header data last : Bytes, version.length = 1 ∧
    header.length = offsetSize + appliIndexSize ∧ data.length < 2 ^ 32 ∧ last.length = 1 ∧
    r = magicNumber ++ (version ++ (Bytes.putUint logDataLenSize data.length ++
      (header ++ (data ++ last))))

def dataSize (bs : Bytes) : Nat :=
  Bytes.uint ((bs.drop (magicNumber.length + logVersion.length)).take logDataLenSize)

def recordCut (bs : Bytes) : Option Nat :=
  if bs.take magicNumber.length = magicNumber ∧ logMinLen + dataSize bs ≤ bs.length then
    some (logMinLen + dataSize bs)
  else none

theorem recordCut_eq_some {bs : Bytes} {n : Nat} :
    recordCut bs = some n ↔ bs.take magicNumber.length = magicNumber ∧
      n = logMinLen + dataSize bs ∧ n ≤ bs.length := by
  rw [recordCut]
  split
  · rename_i h
    constructor
    · intro hn
      obtain rfl := Option.some.inj hn
      exact ⟨h.1,rfl,h.2⟩
    · rintro ⟨-,rfl,-⟩
      rfl
  · rename_i h
    constructor
    · intro hn
      cases hn
    · rintro ⟨hmagic,rfl,hle⟩
      exact absurd ⟨hmagic,hle⟩ h

theorem bounded_recordCut : Bounded recordCut := by
  intro bs n h
  obtain ⟨-,rfl,hle⟩ := recordCut_eq_some.mp h
  have hmin : logMinLen = 24 := rfl
  exact ⟨by omega,hle⟩

theorem CompleteRecord.cut {r : Bytes} (h : CompleteRecord r) (rest : Bytes) :
    recordCut (r ++ rest) = some r.length := by
  obtain ⟨version,header,data,last,hversion,hheader,hdata,hlast,rfl⟩ := h
  have hmagic : magicNumber.length = 2 := rfl
  have hstart : (magicNumber ++ version).length = magicNumber.length + logVersion.length := by
    rw [List.length_append, hversion]
    rfl
  have hsize : dataSize (magicNumber ++ (version ++ (Bytes.putUint logDataLenSize data.length ++
      (header ++ (data ++ last)))) ++ rest) = data.length := by
    rw [dataSize, ← List.append_assoc magicNumber, List.append_assoc, List.drop_left' hstart,
      List.append_assoc, List.take_left' (Bytes.length_putUint _ _)]
    exact Bytes.uint_putUint_of_lt hdata
  have hlen : (magicNumber ++ (version ++ (Bytes.putUint logDataLenSize data.length ++
      (header ++ (data ++ last))))).length = logMinLen + data.length := by
    have hmin : logMinLen = 24 := rfl
    have hfour : logDataLenSize = 4 := rfl
    have height : offsetSize + appliIndexSize = 16 := rfl
    simp only [List.length_append, Bytes.length_putUint, hversion, hheader, hlast, hmagic]
    omega
  refine recordCut_eq_some.mpr ⟨?_,?_,?_⟩
  · rw [List.append_assoc]
    exact List.take_left
  · rw [hsize, hlen]
  · exact (List.prefix_append _ rest).length_le

theorem completeRecord_take {bs : Bytes} {n : Nat} (h : recordCut bs = some n) :
    CompleteRecord (bs.take n) := by
  obtain ⟨hmagic,rfl,hle⟩ := recordCut_eq_some.mp h
  have hmin : logMinLen = 24 := rfl
  have htwo : magicNumber.length = 2 := rfl
  have hone : logVersion.length = 1 := rfl
  have hfour : logDataLenSize = 4 := rfl
  have hsixteen : offsetSize + appliIndexSize = 16 := rfl
  have hlen4 : ((bs.drop 3).take logDataLenSize).length = logDataLenSize := by
    rw [List.length_take, List.length_drop]
    omega
  have hdata : ((bs.drop 23).take (dataSize bs)).length = dataSize bs := by
    rw [List.length_take, List.length_drop]
    omega
  have hsize : Bytes.putUint logDataLenSize (dataSize bs) = (bs.drop 3).take logDataLenSize :=
    (congrArg (Bytes.putUint · _) hlen4).symm.trans (Bytes.putUint_uint _)
  refine ⟨(bs.drop 2).take 1,(bs.drop 7).take 16,(bs.drop 23).take (dataSize bs),
    (bs.drop (23 + dataSize bs)).take 1,?_,?_,?_,?_,?_⟩
  · rw [List.length_take, List.length_drop]
    omega
  · rw [List.length_take, List.length_drop]
    omega
  · rw [hdata]
    have hlt := Bytes.uint_lt ((bs.drop 3).take logDataLenSize)
    rw [hlen4] at hlt
    exact hlt
  · rw [List.length_take, List.length_drop]
    omega
  · have hparts : logMinLen + dataSize bs = 2 + (1 + (4 + (16 + (dataSize bs + 1)))) := by omega
    rw [hdata, hsize, ← hmagic, hparts, List.take_add, List.take_add, List.take_add, List.take_add,
      List.take_add]
    simp only [List.drop_drop]
    rfl

theorem recognises_recordCut : Recognises recordCut CompleteRecord :=
  ⟨fun _ rest h => h.cut rest,fun _ _ h => completeRecord_take h⟩

theorem wrap_complete {l : Log} (hl : l.data.length ≤ logMaxSize) : CompleteRecord l.wrap := by
  refine ⟨logVersion,Proto.Encoder.writeInt64 l.offset ++ Bytes.putUint appliIndexSize
    l.appliIndex.toNat,l.data,endMagicNumber,rfl,?_,?_,rfl,?_⟩
  · rw [List.length_append, Bytes.length_putUint]
    exact congrArg (· + appliIndexSize) (Bytes.length_putUint 8 _)
  · rw [logMaxSize] at hl
    omega
  · simp only [Log.wrap, wrapLogData, List.append_assoc]

def Concatenation (bs : Bytes) : Prop :=
  ∃ rs : List Bytes, (∀ r ∈ rs, CompleteRecord r) ∧ rs.flatten = bs

structure LongestPrefix (f p : Bytes) : Prop where
  isPrefix : p <+: f
  complete : Concatenation p
  longest : ∀ q, q <+: f → Concatenation q → q.length ≤ p.length

def completePrefix (f : Bytes) : Bytes := (frames recordCut f).flatten

theorem longestPrefix_completePrefix (f : Bytes) : LongestPrefix f (completePrefix f) := by
  refine ⟨ frames_flatten_prefix bounded_recordCut f,
    ⟨_,recognises_recordCut.frames_valid bounded_recordCut f,rfl⟩,?_⟩
  rintro q hq ⟨rs,hrs,rfl⟩
  obtain ⟨more,hmore⟩ := recognises_recordCut.prefix_frames bounded_recordCut hrs hq
  rw [completePrefix, ← hmore, List.flatten_append, List.length_append]
  exact Nat.le_add_right _ _

theorem LongestPrefix.eq {f p : Bytes} (h : LongestPrefix f p) : p = completePrefix f := by
  have h' := longestPrefix_completePrefix f
  have hlen := le_antisymm (h'.longest p h.isPrefix h.complete)
    (h.longest _ h'.isPrefix h'.complete)
  rw [List.prefix_iff_eq_take.mp h.isPrefix, List.prefix_iff_eq_take.mp h'.isPrefix, hlen]

theorem completePrefix_of_concatenation {f : Bytes} (h : Concatenation f) : completePrefix f = f :=
  (LongestPrefix.eq ⟨List.prefix_rfl,h,fun _ hq _ => hq.length_le⟩).symm

theorem completePrefix_eq_iff {f : Bytes} : completePrefix f = f ↔ Concatenation f :=
  ⟨fun h => h ▸ (longestPrefix_completePrefix f).complete,completePrefix_of_concatenation⟩

namespace Segment

variable {s : Segment} {file : Bytes} {files : SegmentFiles} {start : Nat}

theorem checkLoop_step (fuel last position : Nat) (h : start < file.length) :
    checkLoop file file.length (fuel + 1) start last position =
      match recordCut (file.drop start) with
      | some n => checkLoop file file.length fuel (start + n) start (start + n)
      | none => (start,position) := by
  have hmin : logMinLen = 24 := rfl
  have htwo : magicNumber.length = 2 := rfl
  have hone : logVersion.length = 1 := rfl
  have hfour : logDataLenSize = 4 := rfl
  have hrest : offsetSize + appliIndexSize + endMagicNumber.length = 17 := rfl
  have hsize : dataSize (file.drop start) = Bytes.uint ((file.drop (start + magicNumber.length +
      logVersion.length)).take logDataLenSize) := by
    rw [dataSize, List.drop_drop, Nat.add_assoc]
  have hlen : (file.drop start).length = file.length - start := List.length_drop
  rw [checkLoop, if_neg (Nat.not_le.mpr h)]
  simp only [← hsize]
  cases hcut : recordCut (file.drop start) with
  | some n =>
    obtain ⟨hmagic,rfl,hle⟩ := recordCut_eq_some.mp hcut
    have hnext : start + magicNumber.length + logVersion.length + logDataLenSize +
        (dataSize (file.drop start) + (offsetSize + appliIndexSize + endMagicNumber.length)) =
          start + (logMinLen + dataSize (file.drop start)) := by omega
    rw [if_neg (not_not.mpr hmagic), if_neg (by omega)]
    simp only [hnext]
    exact if_neg (by omega)
  | none =>
    have hnot : ¬ (file.drop start).take magicNumber.length = magicNumber ∨
        (file.drop start).length < logMinLen + dataSize (file.drop start) := by
      by_contra hno
      rw [not_or, not_not, not_lt] at hno
      rw [recordCut, if_pos hno] at hcut
      cases hcut
    rcases hnot with hmagic | hshort
    · rw [if_pos hmagic]
    · split
      · rfl
      · split
        · rfl
        · exact if_pos (by omega)

theorem checkLoop_position (file : Bytes) {fuel : Nat} (last : Nat) (hstart : start ≤ file.length)
    (hf : file.length - start ≤ fuel) :
    (checkLoop file file.length fuel start last start).2 =
      start + (completePrefix (file.drop start)).length := by
  induction fuel generalizing start last with
  | zero =>
    have hend : file.drop start = [] := List.drop_eq_nil_of_le (by omega)
    rw [hend, completePrefix, frames_none bounded_recordCut.cut_nil]
    rfl
  | succ fuel ih =>
    rcases Nat.eq_or_lt_of_le hstart with rfl | hlt
    · rw [checkLoop, if_pos le_rfl, List.drop_length, completePrefix,
        frames_none bounded_recordCut.cut_nil]
      rfl
    · rw [checkLoop_step fuel last start hlt]
      cases hcut : recordCut (file.drop start) with
      | none =>
        rw [completePrefix, frames_none hcut]
        rfl
      | some n =>
        obtain ⟨hpos,hle⟩ := bounded_recordCut _ _ hcut
        rw [List.length_drop] at hle
        simp only
        rw [ih start (by omega) (by omega), completePrefix, completePrefix,
          frames_some bounded_recordCut hcut, List.flatten_cons, List.length_append,
          List.length_take, List.drop_drop, List.length_drop]
        omega

theorem sanityFullCheck_eq (hs : s.position = 0) :
    (s.sanityFullCheck files files.log.length).2 =
      ({ s with position := (completePrefix files.log).length },
        if completePrefix files.log = files.log then files
        else
          { files with
            log := completePrefix files.log
            backups := files.backups ++ [files.log] }) := by
  have hpos := checkLoop_position files.log 0 (Nat.zero_le _) (le_refl _)
  have hpre := (longestPrefix_completePrefix files.log).isPrefix
  rw [Nat.zero_add, List.drop_zero] at hpos
  rw [sanityFullCheck, check, hs]
  simp only [hpos, true_and]
  split
  · rename_i hcut
    rw [if_neg fun heq => hcut (congrArg List.length heq)]
    rw [← List.prefix_iff_eq_take.mp hpre]
  · rename_i hwhole
    rw [if_pos (hpre.eq_of_length (not_not.mp hwhole))]

theorem sanityFullCheck_whole (hfile : Concatenation files.log)
    (hs : s.position = 0 ∨ s.position = files.log.length) :
    (s.sanityFullCheck files files.log.length).2 =
      ({ s with position := files.log.length },files) := by
  rcases hs with hs | hs
  · rw [sanityFullCheck_eq hs, completePrefix_of_concatenation hfile, if_pos rfl]
  · rcases Nat.eq_zero_or_pos files.log.length with hz | hpos
    · rw [sanityFullCheck_eq (hs.trans hz), completePrefix_of_concatenation hfile, if_pos rfl]
    · have hfirst := checkLoop_position files.log 0 (Nat.zero_le _) (le_refl _)
      rw [Nat.zero_add, List.drop_zero, completePrefix_of_concatenation hfile] at hfirst
      obtain ⟨fuel,hfuel⟩ : ∃ n, files.log.length - 0 = n + 1 := ⟨files.log.length - 1,by omega⟩
      have hsame : checkLoop files.log files.log.length (files.log.length - 0) 0 0 s.position =
          checkLoop files.log files.log.length (files.log.length - 0) 0 0 0 := by
        rw [hfuel, checkLoop_step fuel 0 s.position hpos, checkLoop_step fuel 0 0 hpos]
        cases hcut : recordCut (files.log.drop 0) with
        | some n => rfl
        | none =>
          rw [hfuel, checkLoop_step fuel 0 0 hpos, hcut] at hfirst
          have hz : 0 = files.log.length := hfirst
          omega
      rw [sanityFullCheck, check, hsame]
      simp only [hfirst, ne_eq, not_true_eq_false, and_false, if_false]

end Segment

structure FullChecked (files : SegmentFiles) (r : Segment × SegmentFiles) : Prop where
  file : LongestPrefix files.log r.2.log
  position : r.1.position = r.2.log.length
  uncut : r.2.log = files.log ↔ Concatenation files.log
  unsaved : r.2.backups = files.backups ↔ Concatenation files.log
  again : (r.1.sanityFullCheck r.2 r.2.log.length).2 = r
  reopened : ∀ base s opened, newSegment r.2 base = .ok (s,opened) →
    (s.sanityFullCheck opened opened.log.length).2.2 = opened

theorem newSegment_fresh {base : Int64} {files opened : SegmentFiles} {s : Segment}
    (h : newSegment files base = .ok (s,opened)) :
    s.position = 0 ∧ opened.log = files.log ∧ opened.backups = files.backups := by
  rw [newSegment] at h
  obtain ⟨⟨index,indexFile⟩,-,h⟩ := bind_eq_ok.mp h
  obtain ⟨rfl,rfl⟩ := Prod.mk.inj (Outcome.ok.inj h)
  exact ⟨rfl,rfl,rfl⟩

theorem full_check_longest_prefix {base : Int64} {files opened : SegmentFiles} {s : Segment}
    (h : newSegment files base = .ok (s,opened)) :
    FullChecked files (s.sanityFullCheck opened opened.log.length).2 := by
  obtain ⟨hpos,hlog,hbackups⟩ := newSegment_fresh h
  have hfile : ((s.sanityFullCheck opened opened.log.length).2.2).log =
      completePrefix files.log := by
    rw [Segment.sanityFullCheck_eq hpos, ← hlog]
    split
    · rename_i hwhole
      exact hwhole.symm
    · rfl
  have hposition : (s.sanityFullCheck opened opened.log.length).2.1.position =
      (completePrefix files.log).length := by
    rw [Segment.sanityFullCheck_eq hpos, hlog]
  have hlongest := longestPrefix_completePrefix files.log
  have hcomplete : Concatenation (s.sanityFullCheck opened opened.log.length).2.2.log :=
    hfile ▸ hlongest.complete
  refine ⟨hfile ▸ hlongest,by rw [hposition, hfile],by rw [hfile, completePrefix_eq_iff],?_,?_,?_⟩
  · rw [Segment.sanityFullCheck_eq hpos, ← completePrefix_eq_iff, hlog, ← hbackups]
    split
    · rename_i hwhole
      exact iff_of_true rfl hwhole
    · rename_i hcut
      exact iff_of_false (fun heq => by simpa using congrArg List.length heq) hcut
  · rw [Segment.sanityFullCheck_whole hcomplete (Or.inr (by rw [hposition, hfile]))]
    rw [hfile, ← hposition]
  · intro base' s' opened' h'
    obtain ⟨hpos',hlog',-⟩ := newSegment_fresh h'
    rw [Segment.sanityFullCheck_whole (hlog' ▸ hcomplete) (Or.inl hpos')]

def tornHeader : SegmentFiles := ⟨[0x15,0x16,0x01,0x00],.empty,[]⟩

def tornHeaderOpened : SegmentFiles :=
  { tornHeader with index := IndexFile.empty.truncate (roundDown indexMaxBytes entrySize) }

theorem full_check_torn_header :
    FullChecked tornHeader (Segment.sanityFullCheck ⟨0,⟨0,0,0⟩,0,0,4⟩ tornHeaderOpened 4).2 :=
  full_check_longest_prefix
    (show newSegment tornHeader 0 = .ok (⟨0,⟨0,0,0⟩,0,0,4⟩,tornHeaderOpened) from rfl)

end LiMaoIM.Db

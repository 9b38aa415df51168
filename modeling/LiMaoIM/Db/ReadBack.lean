import LiMaoIM.Foundation.Run
import LiMaoIM.Db.Segment

namespace LiMaoIM.Db

open Outcome Segment

def appendStep (st : Segment × SegmentFiles) (log : Log) : Outcome (Segment × SegmentFiles) := do
  let (_,s,files) ← st.1.appendLog st.2 log
  pure (s,files)

def appendAll (baseOffset : Int64) (logs : List Log) : Outcome (Segment × SegmentFiles) := do
  let st ← newSegment .empty baseOffset
  Run.run appendStep st logs

def indexMarks : Nat → Nat → List Log → List (Log × Nat)
  | _, _, [] => []
  | bytes, position, l :: ls =>
      if indexIntervalBytes < bytes then
        (l,position + l.wrap.length) :: indexMarks l.wrap.length (position + l.wrap.length) ls
      else indexMarks (bytes + l.wrap.length) (position + l.wrap.length) ls

theorem indexMarks_eq_nil_iff {bytes position : Nat} {ls : List Log} :
    indexMarks bytes position ls = [] ↔
      ls = [] ∨ bytes + (joined ls.dropLast).length ≤ indexIntervalBytes := by
  induction ls generalizing bytes position with
  | nil => simp [indexMarks]
  | cons l ls ih =>
    rw [indexMarks]
    split
    · rename_i hlt
      simp only [List.cons_ne_nil, false_or, false_iff]
      omega
    · rename_i hle
      rw [ih]
      cases ls with
      | nil =>
        simp only [List.dropLast_nil, joined_nil, List.length_nil, true_or, List.dropLast_singleton,
          true_iff]
        right
        omega
      | cons m ls =>
        simp only [reduceCtorEq, false_or, List.dropLast_cons_cons, joined_cons, List.length_append]
        omega

theorem length_indexMarks (bytes position : Nat) (ls : List Log) :
    (indexMarks bytes position ls).length * indexIntervalBytes ≤ bytes + (joined ls).length := by
  induction ls generalizing bytes position with
  | nil => simp [indexMarks]
  | cons l ls ih =>
    rw [indexMarks, joined_cons, List.length_append]
    split
    · have hih := ih l.wrap.length (position + l.wrap.length)
      rw [List.length_cons, Nat.add_mul]
      omega
    · have hih := ih (bytes + l.wrap.length) (position + l.wrap.length)
      omega

theorem indexMarks_sublist (bytes position : Nat) (ls : List Log) :
    ((indexMarks bytes position ls).map (·.1)).Sublist ls := by
  induction ls generalizing bytes position with
  | nil => simp [indexMarks]
  | cons l ls ih =>
    rw [indexMarks]
    split
    · exact (ih _ _).cons_cons l
    · exact (ih _ _).cons l

theorem mem_indexMarks {bytes position p : Nat} {ls : List Log} {l : Log}
    (h : (l,p) ∈ indexMarks bytes position ls) :
    ∃ pre post, ls = pre ++ l :: post ∧ p = position + (joined (pre ++ [l])).length := by
  induction ls generalizing bytes position with
  | nil => cases h
  | cons m ls ih =>
    have hrec : ∀ bytes', (l,p) ∈ indexMarks bytes' (position + m.wrap.length) ls →
        ∃ pre post, m :: ls = pre ++ l :: post ∧
          p = position + (joined (pre ++ [l])).length := by
      intro bytes' hm
      obtain ⟨pre,post,rfl,rfl⟩ := ih hm
      refine ⟨m :: pre,post,rfl,?_⟩
      rw [List.cons_append, joined_cons, List.length_append]
      omega
    rw [indexMarks] at h
    split at h
    · rcases List.mem_cons.mp h with heq | hm
      · obtain ⟨rfl,rfl⟩ := Prod.mk.inj heq
        exact ⟨[],ls,rfl,by simp⟩
      · exact hrec _ hm
    · exact hrec _ h

def markEntry (base : Int64) (mark : Log × Nat) : Entry :=
  ⟨(mark.1.offset - base).toUInt64.toUInt32,UInt32.ofNat mark.2⟩

def writeSlots : (Nat → Entry) → Nat → List Entry → Nat → Entry
  | slots, _, [] => slots
  | slots, n, e :: es => writeSlots (Function.update slots n e) (n + 1) es

theorem writeSlots_of_lt {slots : Nat → Entry} {n i : Nat} {es : List Entry} (h : i < n) :
    writeSlots slots n es i = slots i := by
  induction es generalizing slots n with
  | nil => rfl
  | cons e es ih =>
    rw [writeSlots, ih (by omega), Function.update_of_ne (by omega)]

theorem writeSlots_getElem (slots : Nat → Entry) (n : Nat) {i : Nat} {es : List Entry} {e : Entry}
    (h : es[i]? = some e) : writeSlots slots n es (n + i) = e := by
  induction es generalizing slots n i with
  | nil => cases h
  | cons x es ih =>
    rw [writeSlots]
    cases i with
    | zero =>
      rw [writeSlots_of_lt (by omega), Nat.add_zero, Function.update_self]
      exact Option.some.inj h
    | succ i =>
      rw [← Nat.add_assoc, Nat.add_right_comm]
      exact ih _ _ (by simpa using h)

theorem appendStep_plain {s : Segment} {files : SegmentFiles} {l : Log}
    (hl : l.data.length ≤ logMaxSize) (hb : ¬ indexIntervalBytes < s.bytesSinceLastIndexEntry) :
    appendStep (s,files) l = .ok
      ({ s with
          position := s.position + l.wrap.length
          bytesSinceLastIndexEntry := s.bytesSinceLastIndexEntry + l.wrap.length },
        { files with log := files.log ++ l.wrap }) := by
  simp only [appendStep, Segment.appendLog, Nat.not_lt.mpr hl, if_false, Segment.indexIfNeed, hb,
    ok_bind, Outcome.pure_eq]

theorem appendStep_indexed {s : Segment} {files : SegmentFiles} {l : Log} {n : Nat}
    (hl : l.data.length ≤ logMaxSize) (hb : indexIntervalBytes < s.bytesSinceLastIndexEntry)
    (hn : s.index.position = entrySize * n) (hcap : entrySize * n < indexMaxBytes) :
    appendStep (s,files) l = .ok
      ({ s with
          index := { s.index with position := entrySize * (n + 1) }
          position := s.position + l.wrap.length
          bytesSinceLastIndexEntry := l.wrap.length },
        { files with
          log := files.log ++ l.wrap
          index := { files.index with
            slots := Function.update files.index.slots n
              (markEntry s.index.baseOffset (l,s.position + l.wrap.length)) } }) := by
  have hslot : entrySize * n / entrySize = n := by
    rw [entrySize]
    omega
  simp only [appendStep, Segment.appendLog, Nat.not_lt.mpr hl, if_false, Segment.indexIfNeed, hb,
    if_true, Index.append, hn, Nat.not_le.mpr hcap, hslot, ok_bind, Outcome.pure_eq, markEntry,
    Nat.zero_add, Nat.mul_add, Nat.mul_one]

theorem run_appendStep {s : Segment} (files : SegmentFiles) {n : Nat} {ls : List Log}
    (hsmall : ∀ l ∈ ls, l.data.length ≤ logMaxSize) (hn : s.index.position = entrySize * n)
    (hcap : entrySize * (n + (indexMarks s.bytesSinceLastIndexEntry s.position ls).length) ≤
      indexMaxBytes) :
    ∃ bytes, Run.run appendStep (s,files) ls = .ok
      ({ s with
          index := { s.index with
            position := entrySize *
              (n + (indexMarks s.bytesSinceLastIndexEntry s.position ls).length) }
          position := s.position + (joined ls).length
          bytesSinceLastIndexEntry := bytes },
        { files with
          log := files.log ++ joined ls
          index := { files.index with
            slots := writeSlots files.index.slots n
              ((indexMarks s.bytesSinceLastIndexEntry s.position ls).map
                (markEntry s.index.baseOffset)) } }) := by
  induction ls generalizing s files n with
  | nil =>
    refine ⟨s.bytesSinceLastIndexEntry,?_⟩
    obtain ⟨b,⟨ib,ip,it⟩,p,bs,t⟩ := s
    simp only at hn
    subst hn
    simp [Run.run, indexMarks, writeSlots]
  | cons l ls ih =>
    have hl := hsmall l List.mem_cons_self
    have hls : ∀ x ∈ ls, x.data.length ≤ logMaxSize :=
      fun x hx => hsmall x (List.mem_cons_of_mem _ hx)
    rw [indexMarks] at hcap ⊢
    by_cases hb : indexIntervalBytes < s.bytesSinceLastIndexEntry
    · rw [if_pos hb, List.length_cons, Nat.add_comm _ 1, ← Nat.add_assoc] at hcap
      rw [if_pos hb, Run.run, appendStep_indexed hl hb hn (by rw [entrySize] at *; omega), ok_bind]
      obtain ⟨bytes,hrun⟩ := ih (n := n + 1)
        (s := { s with
          index := { s.index with position := entrySize * (n + 1) }
          position := s.position + l.wrap.length
          bytesSinceLastIndexEntry := l.wrap.length }) _ hls rfl hcap
      refine ⟨bytes,?_⟩
      rw [hrun]
      simp only [List.length_cons, List.map_cons, writeSlots, joined_cons, List.length_append,
        List.append_assoc, Nat.add_assoc, Nat.add_comm 1]
    · rw [if_neg hb] at hcap
      rw [if_neg hb, Run.run, appendStep_plain hl hb, ok_bind]
      obtain ⟨bytes,hrun⟩ := ih
        (s := { s with
          position := s.position + l.wrap.length
          bytesSinceLastIndexEntry := s.bytesSinceLastIndexEntry + l.wrap.length }) _ hls hn hcap
      refine ⟨bytes,?_⟩
      rw [hrun]
      simp only [joined_cons, List.length_append, List.append_assoc, Nat.add_assoc]

structure Appendable (base : Int64) (logs : List Log) : Prop where
  ascending : logs.Pairwise (fun a b => a.offset < b.offset)
  fromBase : ∀ l ∈ logs, base ≤ l.offset
  small : ∀ l ∈ logs, l.data.length ≤ logMaxSize
  total : (joined logs).length < 2 ^ 32

structure Written (base : Int64) (logs : List Log) (s : Segment) (files : SegmentFiles) : Prop where
  holds : s.Holds files.log 0 logs
  baseOffset : s.index.baseOffset = base
  entries : s.index.position / entrySize = (indexMarks 0 0 logs).length
  entry : ∀ i l p, (indexMarks 0 0 logs)[i]? = some (l,p) →
    s.index.parseEntry files.index i = ⟨base + (l.offset - base).toUInt64.toUInt32.toUInt64.toInt64,p⟩

theorem appendAll_written {base : Int64} {logs : List Log} (h : Appendable base logs) :
    ∃ s files, appendAll base logs = .ok (s,files) ∧ Written base logs s files := by
  obtain ⟨files,hlog,hnew⟩ : ∃ files : SegmentFiles, files.log = [] ∧
      newSegment .empty base = .ok (⟨base,⟨base,0,0⟩,0,0,0⟩,files) := ⟨_,rfl,rfl⟩
  have hcount := length_indexMarks 0 0 logs
  have htotal := h.total
  have hcap : entrySize * (0 + (indexMarks 0 0 logs).length) ≤ indexMaxBytes := by
    rw [indexIntervalBytes] at hcount
    rw [entrySize, indexMaxBytes]
    omega
  obtain ⟨bytes,hrun⟩ := run_appendStep (s := ⟨base,⟨base,0,0⟩,0,0,0⟩) files (n := 0) h.small rfl
    hcap
  refine ⟨_,_,by rw [appendAll, hnew, ok_bind, hrun],⟨?_,?_,h.small⟩,rfl,?_,?_⟩
  · rw [hlog, List.nil_append, List.drop_zero]
  · simp only [Segment.getFileSize, Nat.zero_add]
    split
    · rename_i hz
      exact hz.symm
    · rfl
  · simp only [entrySize, Nat.zero_add]
    omega
  · intro i l p hi
    have hlt : i < (indexMarks 0 0 logs).length := (List.getElem?_eq_some_iff.mp hi).1
    obtain ⟨pre,post,rfl,rfl⟩ := mem_indexMarks (List.mem_of_getElem? hi)
    have hmark : ((indexMarks 0 0 (pre ++ l :: post)).map (markEntry base))[i]? =
        some (markEntry base (l,0 + (joined (pre ++ [l])).length)) := by
      rw [List.getElem?_map, hi]
      rfl
    have hslot := writeSlots_getElem files.index.slots 0 hmark
    rw [Nat.zero_add] at hslot
    have hfits : ¬ roundDown indexMaxBytes entrySize < i * entrySize + entrySize := by
      rw [Nat.zero_add] at hcap
      rw [roundDown]
      simp only [entrySize, indexMaxBytes] at hcap ⊢
      omega
    have hpos : 0 + (joined (pre ++ [l])).length < 2 ^ 32 := by
      simp only [joined_append, joined_cons, joined_nil, List.length_append] at htotal ⊢
      simp only [List.length_nil]
      omega
    simp only [Index.parseEntry, if_neg hfits, hslot, markEntry, UInt32.toNat_ofNat',
      Nat.mod_eq_of_lt hpos]

structure ReadsBack (s : Segment) (files : SegmentFiles) (logs : List Log) (l : Log) : Prop where
  readAt : s.readAt files l.offset = .ok l.data
  readLogs : ∀ (σ : Type) (limit : UInt64) (callback : σ → Bytes → Outcome σ) (acc : σ),
    s.readLogs files l.offset limit callback acc =
      (((logs.filter (l.offset ≤ ·.offset)).take limit.toNat).map (·.data)).foldlM callback acc

section Reading

variable {base : Int64} {logs pre mid post : List Log} {s : Segment} {files : SegmentFiles} {l : Log}

theorem filter_ascending (h : (pre ++ l :: post).Pairwise (fun a b => a.offset < b.offset)) :
    (pre ++ l :: post).filter (l.offset ≤ ·.offset) = l :: post := by
  obtain ⟨-,hpost,hcross⟩ := List.pairwise_append.mp h
  have hpre : pre.filter (l.offset ≤ ·.offset) = [] := by
    rw [List.filter_eq_nil_iff]
    intro x hx
    have hlt := hcross x hx l List.mem_cons_self
    simpa using hlt
  have hall : (l :: post).filter (l.offset ≤ ·.offset) = l :: post := by
    rw [List.filter_eq_self]
    intro x hx
    rcases List.mem_cons.mp hx with rfl | hx
    · simp
    · have hlt := (List.pairwise_cons.mp hpost).1 x hx
      simpa using Int64.le_of_lt hlt
  rw [List.filter_append, hpre, hall, List.nil_append]

theorem readsBack_of_lookup (pre : List Log) {o : Int64}
    (hw : s.Holds files.log 0 (pre ++ (mid ++ l :: post)))
    (ha : (pre ++ (mid ++ l :: post)).Pairwise (fun a b => a.offset < b.offset))
    (hlookup : s.index.lookup files.index l.offset = ⟨o,(joined pre).length⟩)
    (ho : o = l.offset → mid = []) :
    ReadsBack s files (pre ++ (mid ++ l :: post)) l := by
  have hsuffix := hw.suffix
  rw [Nat.zero_add] at hsuffix
  have hne : ∀ x ∈ mid, x.offset ≠ l.offset := by
    intro x hx
    have hmid := (List.pairwise_append.mp ha).2.1
    exact Int64.ne_of_lt ((List.pairwise_append.mp hmid).2.2 x hx l List.mem_cons_self)
  have hfound := readTargetPosition_found hsuffix hne
  have hat := hsuffix.suffix
  have hfilter : (pre ++ (mid ++ l :: post)).filter (l.offset ≤ ·.offset) = l :: post := by
    rw [← List.append_assoc] at ha ⊢
    exact filter_ascending ha
  constructor
  · rw [Segment.readAt, hlookup]
    simp only [hfound, ok_bind, hat.readLogDataAtPosition, Outcome.pure_eq]
  · intro σ limit callback acc
    rw [Segment.readLogs, hlookup, hfilter]
    simp only
    split
    · rename_i he
      have hm := ho he
      subst hm
      rw [joined_nil, List.length_nil, Nat.add_zero] at hat
      exact readLogsAtPosition_eq hat
    · rw [hfound]
      exact readLogsAtPosition_eq hat

theorem not_readsBack_of_lookup {o : Int64} (hw : s.Holds files.log 0 (pre ++ l :: post))
    (ha : (pre ++ l :: post).Pairwise (fun a b => a.offset < b.offset))
    (hlookup : s.index.lookup files.index l.offset = ⟨o,(joined (pre ++ [l])).length⟩) :
    ¬ ReadsBack s files (pre ++ l :: post) l := by
  have hw' : s.Holds files.log 0 (pre ++ [l] ++ post) := by simpa using hw
  have hsuffix := hw'.suffix
  rw [Nat.zero_add] at hsuffix
  have hne : ∀ x ∈ post, x.offset ≠ l.offset := by
    intro x hx
    have hpost := (List.pairwise_append.mp ha).2.1
    exact (Int64.ne_of_lt ((List.pairwise_cons.mp hpost).1 x hx)).symm
  rintro ⟨hread,-⟩
  rw [Segment.readAt, hlookup] at hread
  simp only [readTargetPosition_missing hsuffix hne, error_bind, reduceCtorEq] at hread

theorem Pairwise.of_getElem? {α : Type} {R : α → α → Prop} {xs : List α} {i j : Nat} {a b : α}
    (h : xs.Pairwise R) (hi : xs[i]? = some a) (hj : xs[j]? = some b) (hij : i < j) : R a b := by
  obtain ⟨hi',rfl⟩ := List.getElem?_eq_some_iff.mp hi
  obtain ⟨hj',rfl⟩ := List.getElem?_eq_some_iff.mp hj
  exact List.pairwise_iff_getElem.mp h i j hi' hj' hij

theorem marks_ascending (h : Appendable base logs) :
    (indexMarks 0 0 logs).Pairwise (fun a b => a.1.offset.toInt < b.1.offset.toInt) := by
  have hs := h.ascending.sublist (indexMarks_sublist 0 0 logs)
  rw [List.pairwise_map] at hs
  exact hs.imp fun hlt => Int64.lt_iff_toInt_lt.mp hlt

theorem mark_mem {i p : Nat} (hi : (indexMarks 0 0 logs)[i]? = some (l,p)) : l ∈ logs :=
  (indexMarks_sublist 0 0 logs).subset (List.mem_map.mpr ⟨_,List.mem_of_getElem? hi,rfl⟩)

theorem Written.key (hw : Written base logs s files) (h : Appendable base logs) {i p : Nat}
    (hi : (indexMarks 0 0 logs)[i]? = some (l,p)) :
    s.index.key files.index i = base.toInt + (l.offset.toInt - base.toInt) % 2 ^ 32 := by
  rw [Index.key, hw.entry i l p hi]
  exact toInt_relative (h.fromBase l (mark_mem hi))

theorem Written.key_le (hw : Written base logs s files) (h : Appendable base logs) {i p : Nat}
    (hi : (indexMarks 0 0 logs)[i]? = some (l,p)) :
    s.index.key files.index i ≤ l.offset.toInt := by
  have hle : base.toInt ≤ l.offset.toInt := Int64.le_iff_toInt_le.mp (h.fromBase l (mark_mem hi))
  rw [hw.key h hi]
  omega

theorem readsBack_of_lookup_base (hw : Written base logs s files) (h : Appendable base logs)
    (hl : l ∈ logs) (hlookup : s.index.lookup files.index l.offset = ⟨base,0⟩) :
    ReadsBack s files logs l := by
  obtain ⟨mid,post,rfl⟩ := List.append_of_mem hl
  refine readsBack_of_lookup [] hw.holds h.ascending hlookup ?_
  intro he
  apply List.eq_nil_iff_forall_not_mem.mpr
  intro x hx
  have hlt := (List.pairwise_append.mp h.ascending).2.2 x hx l List.mem_cons_self
  have hge := h.fromBase x (List.mem_append_left _ hx)
  rw [he] at hge
  exact absurd hlt (Int64.not_lt.mpr hge)

theorem exists_not_readsBack (hw : Written base logs s files) (h : Appendable base logs)
    (hne : indexMarks 0 0 logs ≠ []) : ∃ l ∈ logs, ¬ ReadsBack s files logs l := by
  obtain ⟨n,hn⟩ : ∃ n, (indexMarks 0 0 logs).length = n + 1 :=
    ⟨(indexMarks 0 0 logs).length - 1,by have := List.length_pos_iff.mpr hne; omega⟩
  have hsome : ∀ j ≤ n, ∃ m p, (indexMarks 0 0 logs)[j]? = some (m,p) :=
    fun j hj => ⟨_,_,List.getElem?_eq_getElem (by omega)⟩
  obtain ⟨l,p,hlast⟩ := hsome n le_rfl
  have hlt : ∀ j < n, s.index.key files.index j < l.offset.toInt := by
    intro j hj
    obtain ⟨m,q,hm⟩ := hsome j hj.le
    have hasc := Pairwise.of_getElem? (marks_ascending h) hm hlast hj
    exact (hw.key_le h hm).trans_lt hasc
  have hle : ∀ j ≤ n, s.index.key files.index j ≤ l.offset.toInt := by
    intro j hj
    rcases Nat.lt_or_eq_of_le hj with hj | rfl
    · exact (hlt j hj).le
    · exact hw.key_le h hlast
  have heq : ∀ j ≤ n, s.index.key files.index j = l.offset.toInt → j = n := by
    intro j hj he
    rcases Nat.lt_or_eq_of_le hj with hj | rfl
    · exact absurd he (hlt j hj).ne
    · rfl
  have hlookup := lookup_last (hw.entries.trans hn) hle heq
  rw [hw.entry n l p hlast] at hlookup
  obtain ⟨pre,post,rfl,rfl⟩ := mem_indexMarks (List.mem_of_getElem? hlast)
  rw [Nat.zero_add] at hlookup
  exact ⟨l,by simp,not_readsBack_of_lookup hw.holds h.ascending hlookup⟩

theorem Written.key_eq (hw : Written base logs s files) (h : Appendable base logs)
    (hrel : ∀ l ∈ logs, l.offset.toInt - base.toInt < 2 ^ 32) {i p : Nat}
    (hi : (indexMarks 0 0 logs)[i]? = some (l,p)) :
    s.index.key files.index i = l.offset.toInt := by
  have hle : base.toInt ≤ l.offset.toInt := Int64.le_iff_toInt_le.mp (h.fromBase l (mark_mem hi))
  have hlt := hrel l (mark_mem hi)
  rw [hw.key h hi, Int.emod_eq_of_lt (by omega) hlt]
  omega

theorem readsBack_of_floor (hw : Written base logs s files) (h : Appendable base logs)
    (hrel : ∀ l ∈ logs, l.offset.toInt - base.toInt < 2 ^ 32) (hl : l ∈ logs) {r p : Nat} {m : Log}
    (hr : (indexMarks 0 0 logs)[r]? = some (m,p)) (hlt : m.offset < l.offset)
    (hlookup : s.index.lookup files.index l.offset = s.index.parseEntry files.index r) :
    ReadsBack s files logs l := by
  have hkey := hw.key_eq h hrel hr
  rw [Index.key, hw.entry r m p hr] at hkey
  rw [hw.entry r m p hr] at hlookup
  obtain ⟨pre,tail,rfl,rfl⟩ := mem_indexMarks (List.mem_of_getElem? hr)
  have hmem : l ∈ tail := by
    rcases List.mem_append.mp hl with hpre | htail
    · have hlm := (List.pairwise_append.mp h.ascending).2.2 l hpre m List.mem_cons_self
      exact absurd (Int64.lt_trans hlt hlm) (fun hself => Int64.lt_irrefl hself)
    · rcases List.mem_cons.mp htail with rfl | htail
      · exact absurd hlt (fun hself => Int64.lt_irrefl hself)
      · exact htail
  obtain ⟨mid,post,rfl⟩ := List.append_of_mem hmem
  have hsplit : pre ++ m :: (mid ++ l :: post) = pre ++ [m] ++ (mid ++ l :: post) := by simp
  rw [Nat.zero_add] at hlookup
  rw [hsplit]
  refine readsBack_of_lookup (pre ++ [m]) (hsplit ▸ hw.holds) (hsplit ▸ h.ascending) hlookup ?_
  intro he
  rw [he] at hkey
  exact absurd hlt (Int64.not_lt.mpr (Int64.le_iff_toInt_le.mpr hkey.le))

theorem eq_of_offset_eq (h : Appendable base logs) {m : Log} (hl : l ∈ logs) (hm : m ∈ logs)
    (he : m.offset = l.offset) : m = l := by
  obtain ⟨i,hi⟩ := List.mem_iff_getElem?.mp hl
  obtain ⟨j,hj⟩ := List.mem_iff_getElem?.mp hm
  rcases Nat.lt_trichotomy i j with hij | rfl | hij
  · have hlt := Pairwise.of_getElem? h.ascending hi hj hij
    exact absurd he (Int64.ne_of_lt hlt).symm
  · exact Option.some.inj (hj.symm.trans hi)
  · have hlt := Pairwise.of_getElem? h.ascending hj hi hij
    exact absurd he (Int64.ne_of_lt hlt)

theorem not_marked_iff : l.offset ∉ (indexMarks 0 0 logs).map (·.1.offset) ↔
    ∀ (i : Nat) (m : Log) (p : Nat), (indexMarks 0 0 logs)[i]? = some (m,p) →
      m.offset ≠ l.offset := by
  rw [List.mem_map, not_exists]
  constructor
  · intro h i m p hi he
    exact h (m,p) ⟨List.mem_of_getElem? hi,he⟩
  · rintro h ⟨m,p⟩ ⟨hm,he⟩
    obtain ⟨i,hi⟩ := List.mem_iff_getElem?.mp hm
    exact h i m p hi he

theorem readsBack_iff_not_marked (hw : Written base logs s files) (h : Appendable base logs)
    (hrel : ∀ l ∈ logs, l.offset.toInt - base.toInt < 2 ^ 32) (hl : l ∈ logs) :
    ReadsBack s files logs l ↔ l.offset ∉ (indexMarks 0 0 logs).map (·.1.offset) := by
  rw [not_marked_iff]
  by_cases hne : indexMarks 0 0 logs = []
  · have hz : s.index.position / entrySize = 0 := by rw [hw.entries, hne, List.length_nil]
    have hlookup := hw.baseOffset ▸ lookup_of_empty (f := files.index) hz l.offset
    refine ⟨fun _ i m p hi => ?_,fun _ => readsBack_of_lookup_base hw h hl hlookup⟩
    rw [hne] at hi
    cases hi
  obtain ⟨n,hn⟩ : ∃ n, (indexMarks 0 0 logs).length = n + 1 :=
    ⟨(indexMarks 0 0 logs).length - 1,by have := List.length_pos_iff.mpr hne; omega⟩
  have hsome : ∀ j ≤ n, ∃ m p, (indexMarks 0 0 logs)[j]? = some (m,p) :=
    fun j hj => ⟨_,_,List.getElem?_eq_getElem (by omega)⟩
  have hasc : FloorSearch.Ascending (s.index.key files.index) 0 n := by
    intro i j _ hij hj
    obtain ⟨a,p,ha⟩ := hsome i (by omega)
    obtain ⟨b,q,hb⟩ := hsome j hj
    rw [hw.key_eq h hrel ha, hw.key_eq h hrel hb]
    have hlt := Pairwise.of_getElem? (marks_ascending h) ha hb hij
    exact hlt
  rcases lookup_floor (hw.entries.trans hn) hasc l.offset with
    ⟨hlt,hlookup⟩ | ⟨r,hfloor,hlookup⟩
  · rw [hw.baseOffset] at hlookup
    refine ⟨fun _ i m p hi he => ?_,fun _ => readsBack_of_lookup_base hw h hl hlookup⟩
    have hi' : i < n + 1 := hn ▸ (List.getElem?_eq_some_iff.mp hi).1
    have hk := hw.key_eq h hrel hi
    rw [he] at hk
    rcases Nat.eq_zero_or_pos i with rfl | hpos
    · exact absurd hk hlt.ne'
    · have h0 := hasc 0 i le_rfl hpos (by omega)
      rw [hk] at h0
      exact absurd h0 hlt.le.not_gt
  · obtain ⟨m,p,hm⟩ := hsome r hfloor.le_hi
    by_cases he : m.offset = l.offset
    · have hml := eq_of_offset_eq h hl (mark_mem hm) he
      subst hml
      refine ⟨fun hback => ?_,fun hnone => absurd rfl (hnone r m p hm)⟩
      rw [hw.entry r m p hm] at hlookup
      obtain ⟨pre,post,rfl,rfl⟩ := mem_indexMarks (List.mem_of_getElem? hm)
      rw [Nat.zero_add] at hlookup
      exact absurd hback (not_readsBack_of_lookup hw.holds h.ascending hlookup)
    · have hle := hfloor.le_target
      rw [hw.key_eq h hrel hm] at hle
      have hlt : m.offset < l.offset := Int64.lt_of_le_of_ne (Int64.le_iff_toInt_le.mpr hle) he
      refine ⟨fun _ i x q hi hx => ?_,fun _ => readsBack_of_floor hw h hrel hl hm hlt hlookup⟩
      have hi' : i < n + 1 := hn ▸ (List.getElem?_eq_some_iff.mp hi).1
      have hk := hw.key_eq h hrel hi
      rw [hx] at hk
      rcases Nat.lt_or_ge r i with hri | hir
      · exact absurd hk (hfloor.lt_above i hri (by omega)).ne'
      · have hkr := hw.key_eq h hrel hm
        rcases Nat.lt_or_eq_of_le hir with hir | rfl
        · have hir' := hasc i r (Nat.zero_le i) hir hfloor.le_hi
          rw [hk, hkr] at hir'
          exact absurd (Int64.lt_iff_toInt_lt.mp hlt) hir'.le.not_gt
        · rw [hm] at hi
          cases hi
          exact he hx

theorem segment_read_back_iff (base : Int64) (logs : List Log) (h : Appendable base logs) :
    ∃ s files, appendAll base logs = .ok (s,files) ∧
      ((∀ l ∈ logs, ReadsBack s files logs l) ↔
        (joined logs.dropLast).length ≤ indexIntervalBytes) ∧
      ((∀ l ∈ logs, l.offset.toInt - base.toInt < 2 ^ 32) → ∀ l ∈ logs,
        (ReadsBack s files logs l ↔ l.offset ∉ (indexMarks 0 0 logs).map (·.1.offset))) := by
  obtain ⟨s,files,hrun,hw⟩ := appendAll_written h
  refine ⟨s,files,hrun,?_,fun hrel l hl => readsBack_iff_not_marked hw h hrel hl⟩
  have hnil : indexMarks 0 0 logs = [] ↔ (joined logs.dropLast).length ≤ indexIntervalBytes := by
    rw [indexMarks_eq_nil_iff, Nat.zero_add]
    constructor
    · rintro (rfl | hle)
      · simp
      · exact hle
    · exact Or.inr
  rw [← hnil]
  constructor
  · intro hall
    by_contra hne
    obtain ⟨l,hl,hnot⟩ := exists_not_readsBack hw h hne
    exact hnot (hall l hl)
  · intro hne l hl
    have hz : s.index.position / entrySize = 0 := by rw [hw.entries, hne, List.length_nil]
    have hlookup := hw.baseOffset ▸ lookup_of_empty (f := files.index) hz l.offset
    exact readsBack_of_lookup_base hw h hl hlookup

end Reading

def shortLogs : List Log := [⟨1,0,[7]⟩,⟨2,0,[8]⟩]

theorem shortLogs_read_back :
    ∃ s files, appendAll 0 shortLogs = .ok (s,files) ∧
      ∀ l ∈ shortLogs, ReadsBack s files shortLogs l := by
  have h : Appendable 0 shortLogs := ⟨by decide,by decide,by decide,by decide⟩
  obtain ⟨s,files,hrun,hall,-⟩ := segment_read_back_iff 0 shortLogs h
  exact ⟨s,files,hrun,hall.mpr (by decide)⟩

def zeroPage : Bytes := List.replicate 4096 0

theorem length_zeroPage : zeroPage.length = 4096 := List.length_replicate

def sparseLogs : List Log := [⟨1,0,zeroPage⟩,⟨2,0,[]⟩]

theorem appendable_sparseLogs : Appendable 0 sparseLogs := by
  refine ⟨by simp [sparseLogs],by simp [sparseLogs],?_,?_⟩
  · simp [sparseLogs, logMaxSize, length_zeroPage]
  · simp only [sparseLogs, joined_cons, joined_nil, List.length_append, length_wrap, length_zeroPage]
    decide

theorem sparseLogs_not_read_back :
    Appendable 0 sparseLogs ∧ ∃ s files, appendAll 0 sparseLogs = .ok (s,files) ∧
      ¬ ReadsBack s files sparseLogs ⟨2,0,[]⟩ := by
  have hmarks : (⟨2,0,[]⟩ : Log).offset ∈ (indexMarks 0 0 sparseLogs).map (·.1.offset) := by
    simp only [sparseLogs, indexMarks, length_wrap, length_zeroPage]
    decide
  obtain ⟨s,files,hrun,hw⟩ := appendAll_written appendable_sparseLogs
  refine ⟨appendable_sparseLogs,s,files,hrun,fun hback => ?_⟩
  refine (readsBack_iff_not_marked hw appendable_sparseLogs ?_ (by simp [sparseLogs])).mp hback hmarks
  intro l hl
  simp only [sparseLogs, List.mem_cons, List.not_mem_nil, or_false] at hl
  rcases hl with rfl | rfl
  · decide
  · decide

end LiMaoIM.Db

import LiMaoIM.Foundation.Run
import LiMaoIM.Db.TopicCache

namespace LiMaoIM.Db

open Outcome

def collect (acc : List Bytes) (data : Bytes) : Outcome (List Bytes) := .ok (acc ++ [data])

theorem foldlM_collect (xs : List Bytes) (c : Nat) (out : List Bytes) :
    xs.foldlM (Topic.counting collect) (c,out) = .ok (c + xs.length,out ++ xs) := by
  induction xs generalizing c out with
  | nil => simp
  | cons x xs ih =>
    have hone : Topic.counting collect (c,out) x = .ok (c + 1,out ++ [x]) := rfl
    rw [List.foldlM_cons, hone, ok_bind, ih, List.length_cons, List.append_assoc,
      List.singleton_append]
    congr 2
    omega

theorem Segment.readLogs_numbered {σ : Type} {s : Segment} {files : SegmentFiles} {b o : Int64}
    {p : List Log} {m : Nat} {limit : UInt64} {callback : σ → Bytes → Outcome σ} {acc : σ}
    (hv : s.Views b p) (hh : s.Holds files.log 0 p) (hn : Numbered m p) (hb : b.toInt ≤ m + 1)
    (ho : (m : Int) < o.toInt) :
    s.readLogs files o limit callback acc =
      (((p.drop (o.toInt - m - 1).toNat).take limit.toNat).map (·.data)).foldlM callback acc := by
  have hlookup : s.index.lookup files.index o = ⟨b,0⟩ := by
    rw [hv.index]
    exact lookup_of_empty (Nat.zero_div _) o
  rw [Segment.readLogs, hlookup]
  by_cases hbo : b = o
  · have hz : (o.toInt - m - 1).toNat = 0 := by
      rw [← hbo]
      omega
    rw [if_pos hbo, hz, List.drop_zero]
    exact readLogsAtPosition_eq hh
  · rw [if_neg hbo]
    rcases Nat.lt_or_ge (o.toInt - m - 1).toNat p.length with hlt | hge
    · obtain ⟨pre,l,post,rfl,hlen,hdrop,hl,hpre⟩ := hn.split hlt
      have hlo : l.offset = o := by
        apply Int64.toInt_inj.mp
        omega
      rw [← hlo, readTargetPosition_found hh hpre, hlo, hdrop]
      exact readLogsAtPosition_eq hh.suffix
    · have hmiss : ∀ x ∈ p, x.offset ≠ o := by
        intro x hx he
        have hle := (hn.bounds hx).2
        rw [he] at hle
        omega
      rw [readTargetPosition_missing hh hmiss, List.drop_eq_nil_of_le hge, List.take_nil]
      exact if_pos rfl

section NextLoop

variable {segmentMaxBytes : Int} {t : Topic} {parts : Parts} {limit : UInt64}

theorem toInt_limit (h : limit.toNat < 2 ^ 63) : limit.toInt64.toInt = limit.toNat := by
  have hb : limit.toInt64.toInt = limit.toBitVec.toInt := rfl
  have hn : limit.toBitVec.toNat = limit.toNat := rfl
  rw [hb, BitVec.toInt_eq_toNat_of_lt (by omega), hn]

theorem toNat_left {c : Nat} (h : c ≤ limit.toNat) :
    (limit - UInt64.ofNat c).toNat = limit.toNat - c := by
  have hlt := limit.toNat_lt
  have hc : (UInt64.ofNat c).toNat = c := UInt64.toNat_ofNat_of_lt (lt_of_le_of_lt h hlt)
  rw [UInt64.toNat_sub_of_le _ _ (by rw [UInt64.le_iff_toNat_le, hc]; exact h), hc]

theorem readNextLoop_cached {fuel c : Nat} (out : List Bytes) {pre post : Parts} {b : Int64}
    {p : List Log} (h : Cached segmentMaxBytes t parts) (hs : parts = pre ++ (b,p) :: post)
    (hlim : post = [] ∨ limit.toNat < 2 ^ 63) (hc : c ≤ limit.toNat) (hf : post.length < fuel) :
    ∃ t' n, Topic.readNextLoop limit collect fuel b (c,out) t =
        (.ok (n,out ++ (post.flat.take (limit.toNat - c)).map (·.data)),t') ∧
      Cached segmentMaxBytes t' parts := by
  induction post generalizing pre b p c out t fuel with
  | nil =>
    obtain ⟨fuel,rfl⟩ : ∃ n, fuel = n + 1 := ⟨fuel - 1,by simp at hf; omega⟩
    have hnext := h.arranged.nextBaseOffset h.segments hs
    refine ⟨t,c,?_,h⟩
    rw [Topic.readNextLoop]
    split
    · rw [Exec.get_bind]
      simp [hnext, Parts.flat]
    · simp [Parts.flat]
  | cons e post ih =>
    obtain ⟨d,q⟩ := e
    obtain ⟨fuel,rfl⟩ : ∃ n, fuel = n + 1 := ⟨fuel - 1,by omega⟩
    have hlt : limit.toNat < 2 ^ 63 := by
      rcases hlim with hnil | hlt
      · cases hnil
      · exact hlt
    have hs' : parts = (pre ++ [(b,p)]) ++ (d,q) :: post := by rw [hs]; simp
    have hflat : Parts.flat ((d,q) :: post) = q ++ Parts.flat post := by simp [Parts.flat]
    rw [Topic.readNextLoop, toInt_limit hlt]
    by_cases hroom : c < limit.toNat
    · have hd : Assoc.get d parts = some q := h.arranged.get_of_split hs'
      have hnext : t.nextBaseOffset b = d := h.arranged.nextBaseOffset h.segments hs
      have hpos : d ≠ -1 := by
        rintro rfl
        exact absurd (h.arranged.key_bounds (Assoc.mem_keys_of_get hd)).1 (by decide)
      obtain ⟨id,t₁,s,hget,h₁,hobj,hv⟩ := h.getOrNewSegment hd
      have hleft : (limit - UInt64.ofNat c).toNat = limit.toNat - c := toNat_left hc
      have hread : s.readLogsAtPosition (t₁.files s).log 0 (limit - UInt64.ofNat c)
          (Topic.counting collect) (c,out) =
            .ok (c + (q.take (limit.toNat - c)).length,
              out ++ (q.take (limit.toNat - c)).map (·.data)) := by
        rw [Segment.readLogsAtPosition_eq (h₁.holds hv hd), foldlM_collect, hleft, List.length_map]
      have hsub : limit.toNat - (c + (q.take (limit.toNat - c)).length) =
          limit.toNat - c - q.length := by
        rw [List.length_take]
        omega
      obtain ⟨t',n,hrest,h'⟩ : ∃ t' n, Topic.readNextLoop limit collect fuel d
          (c + (q.take (limit.toNat - c)).length,out ++ (q.take (limit.toNat - c)).map (·.data)) t₁ =
            (.ok (n,out ++ (q.take (limit.toNat - c)).map (·.data) ++
              ((Parts.flat post).take (limit.toNat - c - q.length)).map (·.data)),t') ∧
          Cached segmentMaxBytes t' parts := by
        rw [← hsub]
        exact ih _ h₁ hs' (Or.inr hlt) (by rw [List.length_take]; omega) (by simpa using hf)
      have hsegment : Topic.segmentAt id t₁ = (.ok s,t₁) := by
        simp only [Topic.segmentAt, hobj]
      refine ⟨t',n,?_,h'⟩
      rw [if_pos (by simpa using hroom), Exec.get_bind, hnext, if_neg hpos,
        Exec.bind_of_ok hget, Exec.bind_of_ok hsegment, Exec.get_bind,
        Exec.bind_of_ok (by rw [Exec.lift_apply, hread]), hrest, hflat, List.take_append,
        List.map_append, List.append_assoc]
    · have hz : limit.toNat - c = 0 := by omega
      rw [if_neg (by simp; omega), hz, List.take_zero]
      exact ⟨t,c,by simp,h⟩

end NextLoop

section ReadLogs

variable {segmentMaxBytes : Int} {t : Topic} {parts : Parts} {o : Int64} {limit : UInt64}

theorem Arranged.routed (h : Arranged parts) (ho : 1 ≤ o.toInt) :
    ∃ pre c q post, Routed o 0 parts pre c q post := by
  obtain ⟨p,rest,rfl,hrest⟩ := h.placed
  have hz : (0 : Int64).toInt = 0 := rfl
  apply exists_routed (by omega) (by omega)
  rwa [Nat.zero_add]

theorem Routed.flat_eq {n : Nat} {pre post : Parts} {c : Int64} {q : List Log}
    (hr : Routed o n parts pre c q post) : parts.flat = pre.flat ++ (q ++ post.flat) := by
  rw [hr.split]
  simp [Parts.flat]

theorem Routed.drop_flat {pre post : Parts} {c : Int64} {q : List Log}
    (hr : Routed o 0 parts pre c q post) :
    parts.flat.drop (o.toInt - (0 : Nat) - 1).toNat =
      q.drop (o.toInt - pre.flat.length - 1).toNat ++ post.flat := by
  obtain ⟨k,hk⟩ : ∃ k, (o.toInt - pre.flat.length - 1).toNat = k := ⟨_,rfl⟩
  have hbefore := hr.before
  have hsum : (o.toInt - (0 : Nat) - 1).toNat = pre.flat.length + k := by omega
  rw [hk, hsum, hr.flat_eq, ← List.drop_drop, List.drop_left]
  cases hpost : post with
  | nil => simp [Parts.flat]
  | cons e rest =>
    have hafter := (hr.after (by simp [hpost])).1
    rw [List.drop_append_of_le_length (by omega)]

theorem Cached.readLogs (h : Cached segmentMaxBytes t parts) (ho : 1 ≤ o.toInt)
    (hlim : limit.toNat < 2 ^ 63 ∨ ∀ b ∈ t.segments, b < o) :
    ∃ t', Topic.readLogs o limit collect [] t =
        (.ok (((parts.flat.filter (fun l => decide (o ≤ l.offset))).take limit.toNat).map (·.data)),
          t') ∧ Cached segmentMaxBytes t' parts := by
  obtain ⟨pre,c,q,post,hr⟩ := h.arranged.routed ho
  have hc : Assoc.get c parts = some q := h.arranged.get_of_split hr.split
  have hpost : post = [] ∨ limit.toNat < 2 ^ 63 := by
    rcases hlim with hlt | hall
    · exact Or.inr hlt
    · left
      by_contra hne
      obtain ⟨-,d,hd,hod⟩ := hr.after hne
      have hmem : d ∈ t.segments := by
        rw [h.segments, hr.split, Assoc.keys, List.map_append]
        exact List.mem_append_right _ (List.mem_cons_of_mem _ hd)
      have hlt := hall d hmem
      rw [Int64.lt_iff_toInt_lt] at hlt
      rw [Int64.le_iff_toInt_le] at hod
      omega
  have hnum : Numbered pre.flat.length q := by
    have hn := h.arranged.numbered
    rw [hr.flat_eq, numbered_append, numbered_append, Nat.zero_add] at hn
    exact hn.2.1
  obtain ⟨id,t₁,s,hget,h₁,hobj,hv⟩ := h.getOrNewSegment hc
  obtain ⟨xs,hxs⟩ : ∃ xs, q.drop (o.toInt - pre.flat.length - 1).toNat = xs := ⟨_,rfl⟩
  have hread : s.readLogs (t₁.files s) o limit (Topic.counting collect) (0,[]) =
      .ok ((xs.take limit.toNat).length,(xs.take limit.toNat).map (·.data)) := by
    have hbase := hr.base
    have hbefore := hr.before
    rw [Segment.readLogs_numbered hv (h₁.holds hv hc) hnum (by omega) (by omega), hxs,
      foldlM_collect, List.length_map, Nat.zero_add, List.nil_append]
  have hfuel : post.length < t₁.segments.length + 1 := by
    rw [h₁.segments, hr.split, Assoc.keys, List.length_map, List.length_append, List.length_cons]
    omega
  obtain ⟨t',n,hnext,h'⟩ := readNextLoop_cached ((xs.take limit.toNat).map (·.data)) h₁ hr.split
    hpost (List.length_take_le _ xs) hfuel
  have hsub : limit.toNat - (xs.take limit.toNat).length = limit.toNat - xs.length := by
    rw [List.length_take]
    omega
  have hsegment : Topic.segmentAt id t₁ = (.ok s,t₁) := by
    simp only [Topic.segmentAt, hobj]
  have hbaseOffset : t.baseOffset o = .ok c := by
    rw [Topic.baseOffset, h.segments, hr.found]
  refine ⟨t',?_,h'⟩
  rw [Topic.readLogs, Exec.get_bind, Exec.bind_of_ok (by rw [Exec.lift_apply, hbaseOffset]),
    Exec.bind_of_ok hget, Exec.bind_of_ok hsegment, Exec.get_bind,
    Exec.bind_of_ok (by rw [Exec.lift_apply, hread]), Exec.bind_of_ok hnext, Exec.pure_apply,
    h.arranged.numbered.filter_eq_drop, hr.drop_flat, hxs, List.take_append, List.map_append,
    hsub]

end ReadLogs

theorem cached_freshTopic (segmentMaxBytes : Int) :
    Cached segmentMaxBytes (freshTopic segmentMaxBytes) [(0,[])] := by
  have hview : (freshSegment 0).Views 0 [] := ⟨rfl,rfl,rfl⟩
  refine ⟨rfl,⟨(layout_freshTopic segmentMaxBytes).dir,?_⟩,rfl,⟨⟨[],[],rfl,trivial⟩,trivial,?_⟩,
    ⟨[],0,[],freshSegment 0,rfl,rfl,hview,rfl,rfl⟩,?_,?_⟩
  · intro e he
    rw [List.mem_singleton.mp he]
    exact IndexFile.Blank.truncate (fun i => rfl) _
  · exact fun l hl => absurd hl List.not_mem_nil
  · intro b id hb
    simp only [freshTopic, Assoc.get] at hb
    split at hb
    · rename_i hz
      obtain rfl := Option.some.inj hb
      subst hz
      exact ⟨freshSegment 0,[],rfl,rfl,hview⟩
    · cases hb
  · exact fun m hm => absurd hm (by simp [freshTopic])

structure Report where
  offset : Int64
  limit : UInt64
  result : Outcome (List Bytes)

structure Reader where
  topic : Topic
  appended : List Log
  report : Option Report

inductive ReaderStep where
  | append (log : Log)
  | read (offset : Int64) (limit : UInt64)

def Reader.initial (segmentMaxBytes : Int) : Reader := ⟨freshTopic segmentMaxBytes,[],none⟩

def readerStep (s : Reader) : ReaderStep → Outcome Reader
  | .append log =>
      match Topic.appendLog log s.topic with
      | (.ok _,topic) => .ok ⟨topic,s.appended ++ [log],none⟩
      | (.error e,_) => .error e
      | (.panic e,_) => .panic e
  | .read offset limit =>
      let (result,topic) := Topic.readLogs offset limit collect [] s.topic
      .ok ⟨topic,s.appended,some ⟨offset,limit,result⟩⟩

def InSequence (s : Reader) : ReaderStep → Prop
  | .append log => log.offset.toInt = s.appended.length + 1 ∧ log.data.length ≤ logMaxSize
  | .read offset _ => 1 ≤ offset.toInt

def Visible (s : Reader) : ReaderStep → Prop
  | .append _ => s.topic.ReadersShareActive
  | .read offset limit => limit.toNat < 2 ^ 63 ∨ ∀ b ∈ s.topic.segments, b < offset

def logsFrom (ls : List Log) (offset : Int64) (limit : UInt64) : List Bytes :=
  ((ls.filter (fun l => decide (offset ≤ l.offset))).take limit.toNat).map (·.data)

def ReportComplete (s : Reader) : Prop :=
  ∀ r ∈ s.report, r.result = .ok (logsFrom s.appended r.offset r.limit)

instance : ∀ s a, Decidable (InSequence s a)
  | _, .append _ => inferInstanceAs (Decidable (_ ∧ _))
  | _, .read _ _ => inferInstanceAs (Decidable (_ ≤ _))

instance : ∀ s a, Decidable (Visible s a)
  | s, .append _ => inferInstanceAs (Decidable s.topic.ReadersShareActive)
  | _, .read _ _ => inferInstanceAs (Decidable (_ ∨ _))

instance (s : Reader) : Decidable (ReportComplete s) :=
  inferInstanceAs (Decidable (∀ r ∈ s.report, _))

structure Reader.Sound (segmentMaxBytes : Int) (s : Reader) : Prop where
  cached : ∃ parts, Cached segmentMaxBytes s.topic parts ∧ parts.flat = s.appended
  complete : ReportComplete s

theorem Reader.Sound.step {segmentMaxBytes : Int} (hmax : segmentMaxBytes ≤ indexIntervalBytes)
    (s : Reader) (a : ReaderStep) (h : s.Sound segmentMaxBytes)
    (hc : InSequence s a ∧ Visible s a) :
    ∃ s', readerStep s a = .ok s' ∧ s'.Sound segmentMaxBytes := by
  obtain ⟨⟨parts,hcached,hflat⟩,-⟩ := h
  cases a with
  | append log =>
    obtain ⟨⟨ho,hl⟩,hshare⟩ := hc
    rw [← hflat] at ho
    obtain ⟨t',parts',happ,hcached',hflat'⟩ := hcached.appendLog hmax hshare ho hl
    refine ⟨⟨t',s.appended ++ [log],none⟩,?_,⟨parts',hcached',?_⟩,?_⟩
    · simp only [readerStep, happ]
    · rw [hflat', hflat]
    · exact fun r hr => absurd hr (by simp)
  | read offset limit =>
    obtain ⟨ho,hlim⟩ := hc
    obtain ⟨t',hread,hcached'⟩ := hcached.readLogs ho hlim
    rw [hflat] at hread
    refine ⟨⟨t',s.appended,some ⟨offset,limit,.ok (logsFrom s.appended offset limit)⟩⟩,?_,
      ⟨parts,hcached',hflat⟩,?_⟩
    · simp only [readerStep, hread]
      rfl
    · intro r hr
      obtain rfl := Option.some.inj hr
      rfl

theorem reads_see_appends (segmentMaxBytes : Int) (hmax : segmentMaxBytes ≤ 4096)
    (steps : List ReaderStep)
    (hseq : Run.Meets readerStep InSequence (.initial segmentMaxBytes) steps)
    (hvis : Run.Meets readerStep Visible (.initial segmentMaxBytes) steps) :
    Run.Always readerStep ReportComplete (.initial segmentMaxBytes) steps := by
  have hinit : (Reader.initial segmentMaxBytes).Sound segmentMaxBytes :=
    ⟨⟨_,cached_freshTopic segmentMaxBytes,rfl⟩,fun r hr => absurd hr (by simp [Reader.initial])⟩
  exact Run.always_of_invariant (fun s hs => hs.complete) (Reader.Sound.step hmax) hinit
    (hseq.and hvis)

def mixedSteps : List ReaderStep :=
  [.append ⟨1,0,[1]⟩,.append ⟨2,0,[2]⟩,.read 1 10,.append ⟨3,0,[3]⟩,.append ⟨4,0,[4]⟩,.read 2 2,
    .append ⟨5,0,[5]⟩,.read 3 10]

theorem mixedSteps_complete :
    Run.Always readerStep ReportComplete (.initial 40) mixedSteps :=
  reads_see_appends 40 (by decide) mixedSteps (by decide +kernel) (by decide +kernel)

def staleSteps : List ReaderStep :=
  [.append ⟨1,0,[1]⟩,.append ⟨2,0,[2]⟩,.append ⟨3,0,[3]⟩,.read 3 10,.append ⟨4,0,[4]⟩,.read 3 10]

theorem staleSteps_incomplete :
    Run.Meets readerStep InSequence (.initial 40) staleSteps ∧
      ¬ Run.Always readerStep ReportComplete (.initial 40) staleSteps := by
  decide +kernel

end LiMaoIM.Db

import LiMaoIM.Db.Reopen

namespace LiMaoIM.Db

open Outcome

namespace Segment

theorem checkLoop_bounds (file : Bytes) {size : Nat} (fuel last : Nat) {byteOffset position : Nat}
    (hp : position ≤ byteOffset) (hs : position ≤ size) :
    position ≤ (checkLoop file size fuel byteOffset last position).2 ∧
      (checkLoop file size fuel byteOffset last position).2 ≤ size := by
  induction fuel generalizing byteOffset last position with
  | zero => exact ⟨le_refl _,hs⟩
  | succ fuel ih =>
    rw [checkLoop]
    split
    · exact ⟨le_refl _,hs⟩
    · split
      · exact ⟨le_refl _,hs⟩
      · dsimp only
        split
        · exact ⟨le_refl _,hs⟩
        · split
          · exact ⟨le_refl _,hs⟩
          · rename_i hnext
            obtain ⟨hge,hle⟩ := ih byteOffset (le_refl _) (Nat.not_lt.mp hnext)
            refine ⟨le_trans ?_ hge,hle⟩
            omega

theorem checkLoop_skip {file rest : Bytes} {start : Nat} (fuel last position : Nat)
    {ls : List Log} (h : file.drop start = joined ls ++ rest)
    (hls : ∀ l ∈ ls, l.data.length ≤ logMaxSize)
    (hne : ls ≠ []) :
    checkLoop file file.length (fuel + ls.length) start last position =
      checkLoop file file.length fuel (start + (joined ls).length)
        (start + (joined ls.dropLast).length) (start + (joined ls).length) := by
  induction ls generalizing start last position with
  | nil => exact absurd rfl hne
  | cons l ls ih =>
    rw [joined_cons, List.append_assoc] at h
    rw [List.length_cons, ← Nat.add_assoc, checkLoop_record h (hls l List.mem_cons_self)]
    have hdrop : file.drop (start + l.wrap.length) = joined ls ++ rest := by
      rw [← List.drop_drop, h, List.drop_left]
    cases ls with
    | nil => simp
    | cons m ls =>
      rw [ih _ _ hdrop (fun x hx => hls x (List.mem_cons_of_mem _ hx)) (by simp)]
      simp only [List.dropLast_cons_cons, joined_cons, List.length_append, Nat.add_assoc]

theorem checkLoop_tail {file : Bytes} {start : Nat} (fuel last : Nat) (h : start < file.length) :
    checkLoop file file.length (fuel + 1) start last start = (start,start) ∨
      start < (checkLoop file file.length (fuel + 1) start last start).2 := by
  rw [checkLoop, if_neg (Nat.not_le.mpr h)]
  split
  · exact Or.inl rfl
  · dsimp only
    split
    · exact Or.inl rfl
    · split
      · exact Or.inl rfl
      · rename_i hnext
        right
        have hge := (checkLoop_bounds file fuel start (le_refl _) (Nat.not_lt.mp hnext)).1
        have htwo : magicNumber.length = 2 := rfl
        omega

theorem sanityCheck_small {s : Segment} {files : SegmentFiles} (hne : files.log ≠ [])
    (hsize : files.log.length ≤ logMaxSize + logMinLen) :
    s.sanityCheck files = .ok (s.sanityFullCheck files files.log.length) := by
  have hlen : files.log.length ≠ 0 := fun hz => hne (List.length_eq_zero_iff.mp hz)
  have hread : fileReadAt files.log endMagicNumber.length (files.log.length - 1) =
      .ok ((files.log.drop (files.log.length - 1)).take 1) := by
    have hone : endMagicNumber.length = 1 := rfl
    rw [fileReadAt, hone, if_pos (Or.inr (by omega))]
  rw [sanityCheck, if_neg hlen, hasEndMagicNumer, hread]
  simp only [ok_bind, Outcome.pure_eq]
  split
  · rfl
  · rfl

theorem sanityFullCheck_torn {s : Segment} {files : SegmentFiles} {ls : List Log} {junk : Bytes}
    (hlog : files.log = joined ls ++ junk) (hls : ∀ l ∈ ls, l.data.length ≤ logMaxSize)
    (hne : ls ≠ []) (hjunk : junk ≠ []) :
    (s.sanityFullCheck files files.log.length).1 = (joined ls).length ∧
        (s.sanityFullCheck files files.log.length).2.2.log = joined ls ∨
      (joined ls).length < (s.sanityFullCheck files files.log.length).2.2.log.length := by
  have hlen : files.log.length = (joined ls).length + junk.length := by
    rw [hlog, List.length_append]
  have hpos := List.length_pos_iff.mpr hjunk
  have hcount := length_le_joined ls
  obtain ⟨fuel,hfuel⟩ : ∃ n, files.log.length - 0 = n + 1 + ls.length :=
    ⟨files.log.length - ls.length - 1,by omega⟩
  have hdrop : files.log.drop 0 = joined ls ++ junk := hlog
  have hskip := checkLoop_skip (fuel + 1) 0 s.position hdrop hls hne
  rw [← hfuel, Nat.zero_add] at hskip
  have hbounds := checkLoop_bounds files.log (fuel + 1) (0 + (joined ls.dropLast).length)
    (le_refl (joined ls).length)
    (show (joined ls).length ≤ files.log.length by omega)
  have htail := checkLoop_tail fuel (0 + (joined ls.dropLast).length)
    (show (joined ls).length < files.log.length by omega)
  rw [← hskip] at hbounds htail
  simp only [sanityFullCheck, check]
  rcases htail with hstop | hgo
  · left
    have hcut : (joined ls).length ≠ files.log.length := by omega
    rw [hstop]
    simp only [hcut, ne_eq, not_false_eq_true, and_self, if_true, true_and]
    rw [hlog, List.take_left]
  · right
    split
    · simp only [List.length_take]
      omega
    · simp only
      omega

end Segment

structure TornTail (files : SegmentFiles) (ls : List Log) (junk : Bytes) : Prop where
  log : files.log = joined ls ++ junk
  index : entrySize ∣ files.index.size
  nonempty : 1 ≤ ls.length
  offsets : ∀ (i : Nat) (l : Log), ls[i]? = some l → l.offset.toInt = i + 1
  small : ∀ l ∈ ls, l.data.length ≤ logMaxSize
  incomplete : ∀ l : Log, l.data.length ≤ logMaxSize → ¬ l.wrap <+: junk
  size : files.log.length ≤ logMaxSize + logMinLen

def onlySegment (files : SegmentFiles) : TopicDir := ⟨["logs"],[(0,files)]⟩

structure RecoversTo (segmentMaxBytes : Int) (files : SegmentFiles) (ls : List Log) (t : Topic) :
    Prop where
  opened : newTopic (onlySegment files) segmentMaxBytes = .ok t
  cut : (Assoc.get 0 t.dir.logs).map SegmentFiles.log = some (joined ls)
  position : ∃ s mapped r, newSegment files 0 = .ok (s,mapped) ∧
    s.sanityCheck mapped = .ok ((joined ls.dropLast).length,r)
  lastSeq : t.getLastSeq.toNat = ls.length

def Recovers (segmentMaxBytes : Int) (files : SegmentFiles) (ls : List Log) : Prop :=
  ∃ t, RecoversTo segmentMaxBytes files ls t

section Recovery

variable {segmentMaxBytes : Int} {files : SegmentFiles} {ls : List Log} {junk : Bytes}

theorem openSegment_only {s : Segment} {mapped : SegmentFiles}
    (h : newSegment files 0 = .ok (s,mapped)) :
    (onlySegment files).openSegment 0 = .ok (s,onlySegment mapped) := by
  simp [TopicDir.openSegment, onlySegment, Assoc.get, Assoc.put, h]

theorem RecoversTo.checked {t : Topic} (h : RecoversTo segmentMaxBytes files ls t)
    {s : Segment} {mapped : SegmentFiles} (hnew : newSegment files 0 = .ok (s,mapped)) :
    ∃ last s' cut, s.sanityCheck mapped = .ok (last,s',cut) ∧ cut.log = joined ls ∧
      if last = 0 then t.lastSeq = 0 else ∃ offset n, readAtPosition cut.log last = .ok (offset,n) := by
  obtain ⟨dir₁,s₁,s',last,cut,ho⟩ := newTopic_opened rfl h.opened
  have hopen := ho.segment
  rw [openSegment_only hnew] at hopen
  obtain ⟨rfl,rfl⟩ := Prod.mk.inj (Outcome.ok.inj hopen)
  refine ⟨last,s',cut,ho.checked,?_,?_⟩
  · have hcut := h.cut
    rw [ho.topic] at hcut
    simpa [reopenedTopic] using hcut
  · have hseq := ho.lastSeq
    split at hseq
    · rw [if_pos (by assumption)]
      exact hseq
    · obtain ⟨offset,n,hread,-⟩ := hseq
      rw [if_neg (by assumption)]
      exact ⟨offset,n,hread⟩

theorem readAtPosition_end (file : Bytes) : ¬ ∃ offset n, readAtPosition file file.length =
    .ok (offset,n) := by
  rintro ⟨offset,n,h⟩
  have hread : fileReadAt file logDataLenSize
      (file.length + (magicNumber.length + logVersion.length)) = .error "EOF" := by
    have hfour : logDataLenSize = 4 := rfl
    rw [fileReadAt, if_neg (by omega)]
  rw [readAtPosition, hread] at h
  cases h

theorem TornTail.not_recovers (h : TornTail files ls junk) (hjunk : junk ≠ []) :
    ¬ Recovers segmentMaxBytes files ls := by
  rintro ⟨t,hr⟩
  have hne : ls ≠ [] := List.ne_nil_of_length_pos h.nonempty
  obtain ⟨s,mapped,hnew,-,-,-,-,hlog,-⟩ := newSegment_aligned h.index 0
  obtain ⟨last,s',cut,hcheck,hcut,hseq⟩ := hr.checked hnew
  have hmapped : mapped.log = joined ls ++ junk := hlog.trans h.log
  have hfilled : mapped.log ≠ [] := by
    rw [hmapped]
    simp [hjunk]
  have hsmall := Segment.sanityCheck_small (s := s) hfilled (hlog ▸ h.size)
  have hfull : s.sanityFullCheck mapped mapped.log.length = (last,s',cut) :=
    Outcome.ok.inj (hsmall.symm.trans hcheck)
  rcases Segment.sanityFullCheck_torn (s := s) hmapped h.small hne hjunk with hstop | hgo
  · rw [hfull] at hstop
    have hlen := length_le_joined ls
    have hnz : last ≠ 0 := by
      have hpos := h.nonempty
      have hlast : last = (joined ls).length := hstop.1
      omega
    obtain ⟨rfl,-⟩ := hstop
    rw [if_neg hnz, hcut] at hseq
    exact readAtPosition_end _ hseq
  · rw [hfull, hcut] at hgo
    exact lt_irrefl _ hgo

theorem TornTail.checked_whole (h : TornTail files ls []) {s : Segment} {mapped : SegmentFiles}
    (hlog : mapped.log = files.log) (hpos : s.position = 0) :
    s.sanityCheck mapped =
      .ok ((joined ls.dropLast).length,{ s with position := (joined ls).length },mapped) := by
  have hwhole : files.log = joined ls := by rw [h.log, List.append_nil]
  have hsize := h.size
  rw [hwhole] at hsize
  exact Segment.sanityCheck_joined (hlog.trans hwhole) h.small (.full hsize) hpos

theorem TornTail.two_le (h : TornTail files ls []) (hr : Recovers segmentMaxBytes files ls) :
    2 ≤ ls.length := by
  obtain ⟨t,hr⟩ := hr
  obtain ⟨s,mapped,hnew,-,hpos,-,-,hlog,-⟩ := newSegment_aligned h.index 0
  obtain ⟨last,s',cut,hcheck,-,hseq⟩ := hr.checked hnew
  rw [h.checked_whole hlog hpos] at hcheck
  obtain ⟨hlast,-⟩ := Prod.mk.inj (Outcome.ok.inj hcheck)
  by_contra hlt
  have hone : ls.length = 1 := by
    have hpos := h.nonempty
    omega
  obtain ⟨l,rfl⟩ := List.length_eq_one_iff.mp hone
  have hz : last = 0 := hlast.symm
  rw [if_pos hz] at hseq
  have hbad := hr.lastSeq
  rw [Topic.getLastSeq, hseq] at hbad
  cases hbad

theorem TornTail.lastOffset_toNat (h : TornTail files ls junk) :
    (lastOffset ls).toNat = ls.length := by
  rcases List.eq_nil_or_concat ls with rfl | ⟨init,l,rfl⟩
  · rfl
  · rw [List.concat_eq_append] at *
    have hoff := h.offsets init.length l (by simp)
    have hlen := length_le_joined (init ++ [l])
    have hsize := h.size
    rw [h.log, List.length_append, logMaxSize] at hsize
    have hmin : logMinLen = 24 := rfl
    have hcast := toNat_toUInt64 l.offset
    rw [List.length_append, List.length_singleton] at hlen ⊢
    simp only [lastOffset, List.getLast?_concat, UInt64.toNat_toUInt32]
    omega

theorem TornTail.recovers (h : TornTail files ls []) (htwo : 2 ≤ ls.length) :
    Recovers segmentMaxBytes files ls := by
  have hwhole : files.log = joined ls := by rw [h.log, List.append_nil]
  have hsize := h.size
  rw [hwhole] at hsize
  have hdir : DirLayout (onlySegment files) [(0,ls)] := by
    refine ⟨rfl,?_,?_⟩
    · simp [onlySegment, Assoc.mapVal, hwhole]
    · intro e he
      rw [List.mem_singleton.mp he]
      exact h.index
  obtain ⟨dir',sg,hnew,hlay⟩ := newTopic_single segmentMaxBytes hdir h.small (.full hsize) (by omega)
  obtain ⟨s,mapped,hopen,-,hpos,-,-,hlog,-⟩ := newSegment_aligned h.index 0
  refine ⟨_,hnew,?_,⟨s,mapped,_,hopen,h.checked_whole hlog hpos⟩,h.lastOffset_toNat⟩
  have hself : Assoc.get 0 [((0 : Int64),ls)] = some ls := by simp [Assoc.get]
  obtain ⟨cut,hget,hcut,-⟩ := hlay.dir.get hself
  rw [hget, Option.map_some, hcut]

theorem torn_tail_recovers_iff (segmentMaxBytes : Int) (h : TornTail files ls junk) :
    Recovers segmentMaxBytes files ls ↔ junk = [] ∧ 2 ≤ ls.length := by
  constructor
  · intro hr
    have hjunk : junk = [] := by
      by_contra hjunk
      exact h.not_recovers hjunk hr
    subst hjunk
    exact ⟨rfl,h.two_le hr⟩
  · rintro ⟨rfl,htwo⟩
    exact h.recovers htwo

end Recovery

def numberedLogs : List Log := [⟨1,0,[7]⟩,⟨2,0,[8]⟩]

def crashedFiles (junk : Bytes) : SegmentFiles :=
  ⟨joined numberedLogs ++ junk,IndexFile.empty.truncate (roundDown indexMaxBytes entrySize),[]⟩

theorem tornTail_crashedFiles (junk : Bytes)
    (hjunk : ∀ l : Log, l.data.length ≤ logMaxSize → ¬ l.wrap <+: junk)
    (hsize : junk.length ≤ 1) : TornTail (crashedFiles junk) numberedLogs junk := by
  have hoffsets : ∀ (i : Nat) (l : Log), numberedLogs[i]? = some l → l.offset.toInt = i + 1 := by
    rintro (_ | _ | i) l h
    · cases h
      rfl
    · cases h
      rfl
    · cases h
  refine ⟨rfl,Nat.dvd_mul_right _ _,by decide,hoffsets,by decide,hjunk,?_⟩
  have hlen : (joined numberedLogs).length = 50 := by decide
  have hmax : logMaxSize = 1048576 := rfl
  rw [crashedFiles, List.length_append, hlen]
  omega

theorem wrap_not_prefix_short {junk : Bytes} (h : junk.length ≤ 1) (l : Log) :
    ¬ l.wrap <+: junk := by
  intro hpre
  have hle := hpre.length_le
  have hmin : logMinLen = 24 := rfl
  rw [length_wrap] at hle
  omega

theorem whole_file_recovers : Recovers 4096 (crashedFiles []) numberedLogs :=
  (torn_tail_recovers_iff 4096 (tornTail_crashedFiles [] (fun l _ => wrap_not_prefix_short (by decide) l)
    (by decide))).mpr ⟨rfl,by decide⟩

theorem torn_byte_not_recovered :
    TornTail (crashedFiles [0x15]) numberedLogs [0x15] ∧
      ¬ Recovers 4096 (crashedFiles [0x15]) numberedLogs := by
  have h := tornTail_crashedFiles [0x15]
    (fun l _ => wrap_not_prefix_short (by decide) l) (by decide)
  exact ⟨h,h.not_recovers (by decide)⟩

end LiMaoIM.Db

import LiMaoIM.Db.Sanity

namespace LiMaoIM.Db

open Outcome

inductive Chain (file : Bytes) : Nat → Nat → Prop where
  | here (p : Nat) : Chain file p p
  | next {p q n : Nat} (h : recordCut (file.drop p) = some n) (hq : Chain file (p + n) q) :
      Chain file p q

theorem chain_iff {file : Bytes} {p q : Nat} :
    Chain file p q ↔ p = q ∨ ∃ n, recordCut (file.drop p) = some n ∧ Chain file (p + n) q := by
  constructor
  · intro h
    cases h with
    | here => exact Or.inl rfl
    | next hcut hq => exact Or.inr ⟨_,hcut,hq⟩
  · rintro (rfl | ⟨n,hcut,hq⟩)
    · exact .here p
    · exact .next hcut hq

namespace Segment

variable {file : Bytes} {last : Nat}

theorem checkLoop_end (fuel p position : Nat) :
    checkLoop file file.length fuel file.length p position = (p,position) := by
  cases fuel with
  | zero => rfl
  | succ fuel => rw [checkLoop, if_pos le_rfl]

theorem not_chain_end {p : Nat} (hlast : last < file.length) (hp : file.length ≤ p) :
    ¬ Chain file p last := by
  intro h
  rcases chain_iff.mp h with heq | ⟨n,hcut,-⟩
  · omega
  · rw [List.drop_eq_nil_of_le hp, bounded_recordCut.cut_nil] at hcut
    cases hcut

theorem checkLoop_chain {fuel p : Nat} (l position : Nat) (hp : p < file.length)
    (hf : file.length - p ≤ fuel) (hlast : last < file.length)
    (hcut : recordCut (file.drop last) = some (file.length - last)) :
    checkLoop file file.length fuel p l position = (last,file.length) ↔ Chain file p last := by
  induction fuel generalizing p l position with
  | zero => omega
  | succ fuel ih =>
    rw [checkLoop_step fuel l position hp]
    cases hstep : recordCut (file.drop p) with
    | none =>
      have hne : p ≠ last := by
        rintro rfl
        rw [hcut] at hstep
        cases hstep
      refine iff_of_false (fun h => hne (Prod.mk.inj h).1) fun h => ?_
      rcases chain_iff.mp h with heq | ⟨n,hn,-⟩
      · exact hne heq
      · rw [hstep] at hn
        cases hn
    | some n =>
      obtain ⟨hpos,hle⟩ := bounded_recordCut _ _ hstep
      rw [List.length_drop] at hle
      rcases Nat.eq_or_lt_of_le (show p + n ≤ file.length by omega) with hend | hlt
      · simp only [hend, checkLoop_end]
        constructor
        · intro h
          rw [(Prod.mk.inj h).1]
          exact .here last
        · intro h
          rcases chain_iff.mp h with rfl | ⟨n',hn',hrest⟩
          · rfl
          · obtain rfl := Option.some.inj (hstep.symm.trans hn')
            exact absurd hrest (not_chain_end hlast hend.ge)
      · simp only
        rw [ih p (p + n) hlt (by omega)]
        constructor
        · exact fun h => .next hstep h
        · intro h
          rcases chain_iff.mp h with rfl | ⟨n',hn',hrest⟩
          · rw [hcut] at hstep
            have heq := Option.some.inj hstep
            omega
          · obtain rfl := Option.some.inj (hstep.symm.trans hn')
            exact hrest

theorem MagicAt.room {position : Nat} (h : MagicAt file position) : position + 2 ≤ file.length := by
  have hlen := congrArg List.length h
  have htwo : magicNumber.length = 2 := rfl
  rw [List.length_take, List.length_drop, htwo] at hlen
  omega

theorem warmPositionLoop_odd {fuel start : Nat} (hodd : start % 2 ≠ file.length % 2)
    (hstart : start < file.length) (hf : file.length - start ≤ fuel)
    (hmiss : ∀ j, ¬ MagicAt file (start + 2 * j)) :
    warmPositionLoop file file.length fuel start = .error "EOF" := by
  induction fuel generalizing start with
  | zero => omega
  | succ fuel ih =>
    rw [warmPositionLoop, if_neg (by omega)]
    rcases Nat.lt_or_ge file.length (start + 2) with hend | hroom
    · have htwo : magicNumber.length = 2 := rfl
      have hread : hasMagicNumer file start = .error "EOF" := by
        rw [hasMagicNumer, fileReadAt, htwo, if_neg (by omega), error_bind]
      rw [hread, error_bind]
    · have hm : decide ((file.drop start).take 2 = magicNumber) = false :=
        decide_eq_false (hmiss 0)
      rw [hasMagicNumer_of_room hroom, ok_bind]
      simp only [hm, Bool.false_eq_true, if_false]
      apply ih (by omega) (by omega) (by omega)
      intro j
      have hmj := hmiss (j + 1)
      rwa [show start + 2 * (j + 1) = start + 2 + 2 * j by omega] at hmj

structure FirstMagic (file : Bytes) (k : Nat) : Prop where
  hit : MagicAt file (warmStart + 2 * k)
  first : ∀ j < k, ¬ MagicAt file (warmStart + 2 * j)

theorem firstMagic_or_miss (file : Bytes) :
    (∃ k, FirstMagic file k) ∨ ∀ j, ¬ MagicAt file (warmStart + 2 * j) := by
  by_cases h : ∃ k, MagicAt file (warmStart + 2 * k)
  · classical
    exact Or.inl ⟨Nat.find h,Nat.find_spec h,fun j hj => Nat.find_min h hj⟩
  · exact Or.inr fun j hj => h ⟨j,hj⟩

theorem FirstMagic.unique {k k' : Nat} (h : FirstMagic file k) (h' : FirstMagic file k') :
    k = k' := by
  rcases Nat.lt_trichotomy k k' with hlt | heq | hgt
  · exact absurd h.hit (h'.first k hlt)
  · exact heq
  · exact absurd h'.hit (h.first k' hgt)

structure AgreesWithFull (s : Segment) (files : SegmentFiles) : Prop where
  agrees : ∃ r, s.sanityCheck files = .ok r ∧
    r.1 = (s.sanityFullCheck files files.log.length).1 ∧ r.2.1.position = files.log.length

inductive FindsRecords (file : Bytes) (last : Nat) : Prop
  | found (k : Nat) (h : FirstMagic file k) (hlast : Chain file (warmStart + 2 * k) last)
  | missed (h : ∀ j, ¬ MagicAt file (warmStart + 2 * j)) (heven : file.length % 2 = 0)

section Agreement

variable {s : Segment} {files : SegmentFiles} {ls : List Log}

theorem recordCut_last {init : List Log} {l : Log} (hlog : files.log = joined (init ++ [l]))
    (hl : l.data.length ≤ logMaxSize) :
    recordCut (files.log.drop (joined init).length) =
      some (files.log.length - (joined init).length) := by
  have hlen : files.log.length = (joined init).length + l.wrap.length := by
    rw [hlog, joined_append, joined_cons, joined_nil, List.append_nil, List.length_append]
  have hdrop : files.log.drop (joined init).length = l.wrap ++ [] := by
    rw [hlog, joined_append, joined_cons, joined_nil, List.drop_left]
  rw [hdrop, (wrap_complete hl).cut [], hlen, Nat.add_sub_cancel_left]

theorem agrees_iff_of_check {p last : Nat} (hp : p < files.log.length)
    (hrun : s.sanityCheck files = .ok (s.check files p files.log.length false))
    (hfull : (s.sanityFullCheck files files.log.length).1 = last) (hlast : last < files.log.length)
    (hcut : recordCut (files.log.drop last) = some (files.log.length - last)) :
    AgreesWithFull s files ↔ Chain files.log p last := by
  have hcheck : ((s.check files p files.log.length false).1,
      (s.check files p files.log.length false).2.1.position) =
        checkLoop files.log files.log.length (files.log.length - p) p p s.position := by
    simp only [check, Bool.false_eq_true, false_and, if_false]
  rw [← checkLoop_chain p s.position hp (le_refl _) hlast hcut, ← hcheck]
  constructor
  · rintro ⟨r,hr,hsame,hposition⟩
    obtain rfl := Outcome.ok.inj (hrun.symm.trans hr)
    exact Prod.ext (hsame.trans hfull) hposition
  · intro h
    obtain ⟨hsame,hposition⟩ := Prod.mk.inj h
    exact ⟨_,hrun,hsame.trans hfull.symm,hposition⟩

theorem sanityCheck_agrees_iff (hlog : files.log = joined ls)
    (hls : ∀ l ∈ ls, l.data.length ≤ logMaxSize) (hbig : warmStart < files.log.length) :
    AgreesWithFull s files ↔ FindsRecords files.log (joined ls.dropLast).length := by
  rcases List.eq_nil_or_concat ls with rfl | ⟨init,l,rfl⟩
  · rw [hlog] at hbig
    exact absurd hbig (Nat.not_lt_zero _)
  · rw [List.concat_eq_append] at *
    have hfull := sanityFullCheck_joined (s := s) hlog hls (by simp)
    have hcut := recordCut_last hlog (hls l (by simp))
    have hlast : (joined init).length < files.log.length := by
      have hpos := length_wrap_pos l
      rw [hlog, joined_append, joined_cons, joined_nil, List.append_nil, List.length_append]
      omega
    have hwarm := sanityCheck_warm (s := s) hlog hbig
    rw [List.dropLast_concat] at hfull ⊢
    rcases firstMagic_or_miss files.log with ⟨k,hk⟩ | hmiss
    · have hroom := hk.hit.room
      rw [warmPositionLoop_hit (by omega) hroom hk.hit hk.first] at hwarm
      have hagrees := agrees_iff_of_check (p := warmStart + 2 * k) (by omega) hwarm
        (congrArg Prod.fst hfull) hlast hcut
      refine hagrees.trans ⟨.found k hk,fun h => ?_⟩
      cases h with
      | found k' hk' hchain =>
        obtain rfl := hk.unique hk'
        exact hchain
      | missed hmiss => exact absurd hk.hit (hmiss k)
    · have heven : warmStart % 2 = 0 := rfl
      rcases Nat.mod_two_eq_zero_or_one files.log.length with hzero | hone
      · rw [warmPositionLoop_miss (by omega) hmiss] at hwarm
        refine iff_of_true ⟨_,hwarm,rfl,?_⟩ (.missed hmiss hzero)
        simp only [Option.elim_none, hfull]
        rw [hlog]
      · rw [warmPositionLoop_odd (by omega) hbig (le_refl _) hmiss] at hwarm
        refine iff_of_false ?_ fun h => ?_
        · rintro ⟨r,hr,-⟩
          rw [hwarm] at hr
          cases hr
        · cases h with
          | found k hk => exact hmiss k hk.hit
          | missed _ hzero => omega

end Agreement
end Segment

theorem fast_check_agrees_iff {base : Int64} {files opened : SegmentFiles} {s : Segment}
    {ls : List Log} (h : newSegment files base = .ok (s,opened)) (hlog : files.log = joined ls)
    (hls : ∀ l ∈ ls, l.data.length ≤ logMaxSize) (hbig : Segment.warmStart < files.log.length) :
    Segment.AgreesWithFull s opened ↔
      Segment.FindsRecords files.log (joined ls.dropLast).length := by
  obtain ⟨-,heq,-⟩ := newSegment_fresh h
  rw [← heq] at hlog hbig ⊢
  exact Segment.sanityCheck_agrees_iff hlog hls hbig

section Padding

variable (n : Nat)

def paddedLogs : List Log := [⟨1,0,List.replicate n 0⟩,⟨2,0,[]⟩]

def paddedFiles : SegmentFiles := ⟨joined (paddedLogs n),.empty,[]⟩

def paddedOpened : SegmentFiles :=
  { paddedFiles n with index := IndexFile.empty.truncate (roundDown indexMaxBytes entrySize) }

def paddedSegment : Segment := ⟨0,⟨0,0,0⟩,0,0,(joined (paddedLogs n)).length⟩

theorem newSegment_padded : newSegment (paddedFiles n) 0 = .ok (paddedSegment n,paddedOpened n) :=
  rfl

theorem length_paddedFiles : (paddedFiles n).log.length = n + 48 := by
  have hmin : logMinLen = 24 := rfl
  simp only [paddedFiles, paddedLogs, joined_cons, joined_nil, List.append_nil, List.length_append,
    length_wrap, List.length_replicate, List.length_nil]
  omega

theorem drop_paddedFiles (j : Nat) :
    (paddedFiles n).log.drop (n + 24 + j) = (Log.wrap ⟨2,0,[]⟩).drop j := by
  have hlen : (Log.wrap ⟨1,0,List.replicate n 0⟩).length = n + 24 := by
    rw [length_wrap, List.length_replicate]
    rfl
  simp only [paddedFiles, paddedLogs, joined_cons, joined_nil, List.append_nil, ← hlen,
    List.drop_length_add_append]

variable {n}

theorem paddedLogs_small (hn : n ≤ logMaxSize) :
    ∀ l ∈ paddedLogs n, l.data.length ≤ logMaxSize := by
  intro l hl
  rcases List.mem_cons.mp hl with rfl | hl
  · rwa [List.length_replicate]
  · obtain rfl := List.mem_singleton.mp hl
    exact Nat.zero_le _

theorem padded_missed (hn : n + 1 = logMaxSize) (j : Nat) :
    ¬ Segment.MagicAt (paddedFiles n).log (Segment.warmStart + 2 * j) := by
  have hstart : Segment.warmStart + 2 * j = n + 24 + (2 * j + 1) := by
    have hwarm : Segment.warmStart = logMaxSize + 24 := rfl
    omega
  rw [Segment.MagicAt, hstart, drop_paddedFiles]
  rcases Nat.lt_or_ge j 12 with hlt | hge
  · have hnone : ∀ j : Fin 12,
        ((Log.wrap ⟨2,0,[]⟩).drop (2 * j.val + 1)).take 2 ≠ magicNumber := by decide
    exact hnone ⟨j,hlt⟩
  · have hlen : (Log.wrap ⟨2,0,[]⟩).length = 24 := rfl
    rw [List.drop_eq_nil_of_le (by omega)]
    exact (List.cons_ne_nil _ _).symm

end Padding

theorem fast_check_agrees_aligned :
    Segment.AgreesWithFull (paddedSegment logMaxSize) (paddedOpened logMaxSize) := by
  have hbig : Segment.warmStart < (paddedFiles logMaxSize).log.length := by
    have hwarm : Segment.warmStart = logMaxSize + 24 := rfl
    rw [length_paddedFiles]
    omega
  have hdrop := drop_paddedFiles logMaxSize 0
  have hlast : (joined (paddedLogs logMaxSize).dropLast).length = Segment.warmStart + 2 * 0 := by
    simp only [paddedLogs, List.dropLast_cons_cons, List.dropLast_singleton, joined_cons,
      joined_nil, List.append_nil, length_wrap, List.length_replicate]
    rfl
  refine (fast_check_agrees_iff (newSegment_padded logMaxSize) rfl (paddedLogs_small (le_refl _))
    hbig).mpr (.found 0 ⟨?_,fun j hj => absurd hj (Nat.not_lt_zero _)⟩ ?_)
  · exact (congrArg (List.take 2) hdrop).trans rfl
  · rw [hlast]
    exact .here _

theorem fast_check_fails_at_odd_end :
    ¬ ∀ (base : Int64) (files opened : SegmentFiles) (s : Segment) (ls : List Log),
      newSegment files base = .ok (s,opened) → files.log = joined ls →
        (∀ l ∈ ls, l.data.length ≤ logMaxSize) → Segment.warmStart < files.log.length →
          Segment.AgreesWithFull s opened := by
  intro h
  have hn : logMaxSize - 1 + 1 = logMaxSize := rfl
  have hbig : Segment.warmStart < (paddedFiles (logMaxSize - 1)).log.length := by
    have hwarm : Segment.warmStart = logMaxSize + 24 := rfl
    rw [length_paddedFiles]
    omega
  have hsmall := paddedLogs_small (n := logMaxSize - 1) (Nat.sub_le _ _)
  have hagrees := h 0 _ _ _ _ (newSegment_padded (logMaxSize - 1)) rfl hsmall hbig
  have hlog : (paddedOpened (logMaxSize - 1)).log = joined (paddedLogs (logMaxSize - 1)) := rfl
  rcases (Segment.sanityCheck_agrees_iff hlog hsmall hbig).mp hagrees with ⟨k,hk,-⟩ | ⟨-,heven⟩
  · exact padded_missed hn k hk.hit
  · have hlen : (paddedOpened (logMaxSize - 1)).log.length = logMaxSize - 1 + 48 :=
      length_paddedFiles (logMaxSize - 1)
    have hmax : logMaxSize = 1048576 := rfl
    omega

end LiMaoIM.Db

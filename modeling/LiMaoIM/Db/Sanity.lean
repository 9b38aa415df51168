import LiMaoIM.Db.FullCheck

namespace LiMaoIM.Db.Segment

open Outcome

section CheckLoop

variable {file rest : Bytes} {start : Nat} {l : Log}

theorem checkLoop_record {fuel last position : Nat} (h : file.drop start = l.wrap ++ rest)
    (hl : l.data.length ≤ logMaxSize) :
    checkLoop file file.length (fuel + 1) start last position =
      checkLoop file file.length fuel (start + l.wrap.length) start (start + l.wrap.length) := by
  have hstart : start < file.length := by
    have hd := congrArg List.length h
    have hpos := length_wrap_pos l
    rw [List.length_drop, List.length_append] at hd
    omega
  rw [checkLoop_step fuel last position hstart, h, (wrap_complete hl).cut rest]

theorem checkLoop_joined {ls : List Log} {fuel last position : Nat}
    (h : file.drop start = joined ls) (hls : ∀ l ∈ ls, l.data.length ≤ logMaxSize)
    (hne : ls ≠ []) (hf : ls.length ≤ fuel) :
    checkLoop file file.length fuel start last position =
      (start + (joined ls.dropLast).length,file.length) := by
  induction ls generalizing fuel start last position with
  | nil => exact absurd rfl hne
  | cons l ls ih =>
    obtain ⟨fuel,rfl⟩ : ∃ n, fuel = n + 1 := ⟨fuel - 1,by simp at hf; omega⟩
    rw [joined_cons] at h
    rw [checkLoop_record h (hls l List.mem_cons_self)]
    have hdrop : file.drop (start + l.wrap.length) = joined ls := by
      rw [← List.drop_drop, h, List.drop_left]
    cases ls with
    | nil =>
      have hend : file.length = start + l.wrap.length := by
        have hd := congrArg List.length h
        have hpos := length_wrap_pos l
        simp only [List.length_drop, List.length_append, joined_nil, List.length_nil] at hd
        omega
      cases fuel with
      | zero => simp [checkLoop, hend]
      | succ fuel =>
        rw [checkLoop, if_pos (by omega), hend]
        simp
    | cons m ls =>
      rw [ih hdrop (fun x hx => hls x (List.mem_cons_of_mem _ hx)) (by simp) (by simpa using hf)]
      simp only [List.dropLast_cons_cons, joined_cons, List.length_append, Nat.add_assoc]

end CheckLoop

def MagicAt (file : Bytes) (position : Nat) : Prop := (file.drop position).take 2 = magicNumber

theorem hasMagicNumer_of_room {file : Bytes} {position : Nat} (h : position + 2 ≤ file.length) :
    hasMagicNumer file position =
      .ok (decide ((file.drop position).take 2 = magicNumber),2) := by
  have hread : fileReadAt file magicNumber.length position = .ok ((file.drop position).take 2) := by
    have htwo : magicNumber.length = 2 := rfl
    rw [fileReadAt, htwo, if_pos (Or.inr h)]
  rw [hasMagicNumer, hread, ok_bind, Outcome.pure_eq, List.length_take, List.length_drop]
  congr 2
  omega

theorem warmPositionLoop_hit {file : Bytes} {fuel start k : Nat} (hk : k < fuel)
    (hroom : start + 2 * k + 2 ≤ file.length) (hit : MagicAt file (start + 2 * k))
    (hmiss : ∀ j < k, ¬ MagicAt file (start + 2 * j)) :
    warmPositionLoop file file.length fuel start = .ok (some (start + 2 * k)) := by
  induction k generalizing fuel start with
  | zero =>
    obtain ⟨fuel,rfl⟩ : ∃ n, fuel = n + 1 := ⟨fuel - 1,by omega⟩
    have hm : decide ((file.drop start).take 2 = magicNumber) = true := decide_eq_true hit
    rw [warmPositionLoop, if_neg (by omega), hasMagicNumer_of_room (by omega), ok_bind]
    simp only [hm, if_true, Outcome.pure_eq, Nat.mul_zero, Nat.add_zero]
  | succ k ih =>
    obtain ⟨fuel,rfl⟩ : ∃ n, fuel = n + 1 := ⟨fuel - 1,by omega⟩
    have hm : decide ((file.drop start).take 2 = magicNumber) = false :=
      decide_eq_false (hmiss 0 (by omega))
    have hshift : start + 2 * (k + 1) = start + 2 + 2 * k := by omega
    rw [warmPositionLoop, if_neg (by omega), hasMagicNumer_of_room (by omega), ok_bind]
    simp only [hm, Bool.false_eq_true, if_false]
    rw [hshift]
    apply ih (by omega) (by omega)
    · rwa [hshift] at hit
    · intro j hj
      have hmj := hmiss (j + 1) (by omega)
      rwa [show start + 2 * (j + 1) = start + 2 + 2 * j by omega] at hmj

theorem warmPositionLoop_miss {file : Bytes} {fuel start : Nat}
    (heven : start % 2 = file.length % 2) (hmiss : ∀ j, ¬ MagicAt file (start + 2 * j)) :
    warmPositionLoop file file.length fuel start = .ok none := by
  induction fuel generalizing start with
  | zero => rfl
  | succ fuel ih =>
    rw [warmPositionLoop]
    split
    · rfl
    · have hm : decide ((file.drop start).take 2 = magicNumber) = false :=
        decide_eq_false (hmiss 0)
      rw [hasMagicNumer_of_room (by omega), ok_bind]
      simp only [hm, Bool.false_eq_true, if_false]
      apply ih (by omega)
      intro j
      have hmj := hmiss (j + 1)
      rwa [show start + 2 * (j + 1) = start + 2 + 2 * j by omega] at hmj

def warmStart : Nat := logMaxSize + logMinLen

inductive Recoverable (ls : List Log) : Prop
  | empty (h : ls = [])
  | full (h : (joined ls).length ≤ warmStart)
  | warm (pre post : List Log) (k : Nat) (h : ls = pre ++ post) (hpost : post ≠ [])
      (hstart : warmStart + 2 * k = (joined pre).length)
      (hmiss : ∀ j < k, ¬ MagicAt (joined ls) (warmStart + 2 * j))
  | missed (heven : (joined ls).length % 2 = 0)
      (hmiss : ∀ j, ¬ MagicAt (joined ls) (warmStart + 2 * j))

theorem hasEndMagicNumer_joined {init : List Log} {l : Log} :
    hasEndMagicNumer (joined (init ++ [l])) (joined (init ++ [l])).length = .ok true := by
  obtain ⟨body,hbody⟩ : ∃ body, joined (init ++ [l]) = body ++ endMagicNumber := by
    refine ⟨joined init ++ (magicNumber ++ logVersion ++
      Bytes.putUint logDataLenSize l.data.length ++ Proto.Encoder.writeInt64 l.offset ++
      Bytes.putUint appliIndexSize l.appliIndex.toNat ++ l.data),?_⟩
    simp [Log.wrap, wrapLogData]
  have hone : endMagicNumber.length = 1 := rfl
  have hpos : (joined (init ++ [l])).length - 1 = body.length := by
    rw [hbody, List.length_append, hone]
    omega
  have hfits : 1 = 0 ∨ body.length + 1 ≤ (joined (init ++ [l])).length := by
    rw [hbody, List.length_append, hone]
    omega
  rw [hasEndMagicNumer, hpos, fileReadAt, hone, if_pos hfits, hbody, List.drop_left, ok_bind]
  rfl

section SanityCheck

variable {s : Segment} {files : SegmentFiles} {ls : List Log}

theorem check_joined (hlog : files.log = joined ls) (hls : ∀ l ∈ ls, l.data.length ≤ logMaxSize)
    {pre post : List Log} (hsplit : ls = pre ++ post) (hpost : post ≠ []) (keepCorrect : Bool) :
    s.check files (joined pre).length files.log.length keepCorrect =
      ((joined ls.dropLast).length,{ s with position := (joined ls).length },files) := by
  have hdrop : files.log.drop (joined pre).length = joined post := by
    rw [hlog, hsplit, joined_append, List.drop_left]
  have hfuel : post.length ≤ files.log.length - (joined pre).length := by
    have hle := length_le_joined post
    rw [hlog, hsplit, joined_append, List.length_append]
    omega
  have hpost' : ∀ l ∈ post, l.data.length ≤ logMaxSize :=
    fun l hl => hls l (hsplit ▸ List.mem_append_right _ hl)
  have hlast : (joined pre).length + (joined post.dropLast).length = (joined ls.dropLast).length := by
    rw [hsplit, List.dropLast_append_of_ne_nil hpost, joined_append, List.length_append]
  simp only [check, checkLoop_joined hdrop hpost' hpost hfuel, ne_eq, not_true_eq_false, and_false,
    if_false, hlast]
  rw [hlog]

theorem sanityFullCheck_joined (hlog : files.log = joined ls)
    (hls : ∀ l ∈ ls, l.data.length ≤ logMaxSize) (hne : ls ≠ []) :
    s.sanityFullCheck files files.log.length =
      ((joined ls.dropLast).length,{ s with position := (joined ls).length },files) :=
  check_joined hlog hls (List.nil_append ls).symm hne true

theorem sanityCheck_warm {init : List Log} {l : Log} (hlog : files.log = joined (init ++ [l]))
    (hbig : warmStart < files.log.length) :
    s.sanityCheck files =
      (fun warm => warm.elim (s.sanityFullCheck files files.log.length) fun p =>
        s.check files p files.log.length false) <$>
      warmPositionLoop files.log files.log.length (files.log.length - warmStart) warmStart := by
  have hend : hasEndMagicNumer files.log files.log.length = .ok true := by
    rw [hlog]
    exact hasEndMagicNumer_joined
  rw [warmStart] at hbig ⊢
  rw [sanityCheck, if_neg (by omega), hend, ok_bind, if_neg (by simp), if_neg (by omega),
    sanitySimpleCheck]
  cases warmPositionLoop files.log files.log.length
    (files.log.length - (logMaxSize + logMinLen)) (logMaxSize + logMinLen) with
  | ok warm =>
    cases warm with
    | none | some => rfl
  | error | panic => rfl

theorem warmPositionLoop_joined (hlog : files.log = joined ls) {pre post : List Log} {k : Nat}
    (hsplit : ls = pre ++ post) (hpost : post ≠ [])
    (hstart : warmStart + 2 * k = (joined pre).length)
    (hmiss : ∀ j < k, ¬ MagicAt (joined ls) (warmStart + 2 * j)) :
    warmPositionLoop files.log files.log.length (files.log.length - warmStart) warmStart =
      .ok (some (joined pre).length) := by
  obtain ⟨l,tail,rfl⟩ := List.exists_cons_of_ne_nil hpost
  have hlen : files.log.length = (joined pre).length + (l.wrap.length + (joined tail).length) := by
    rw [hlog, hsplit, joined_append, joined_cons, List.length_append, List.length_append]
  have hwrap := length_wrap l
  have hmin : logMinLen = 24 := rfl
  have hit : MagicAt files.log (warmStart + 2 * k) := by
    rw [MagicAt, hlog, hsplit, hstart, joined_append, List.drop_left]
    simp [Log.wrap, wrapLogData, magicNumber]
  rw [← hstart]
  apply warmPositionLoop_hit (by omega) (by omega) hit
  rw [hlog]
  exact hmiss

theorem sanityCheck_joined (hlog : files.log = joined ls)
    (hls : ∀ l ∈ ls, l.data.length ≤ logMaxSize) (hrec : Recoverable ls) (hpos : s.position = 0) :
    s.sanityCheck files = .ok
      ((joined ls.dropLast).length,{ s with position := (joined ls).length },files) := by
  rcases List.eq_nil_or_concat ls with rfl | ⟨init,l,rfl⟩
  · have hz : files.log.length = 0 := by rw [hlog]; rfl
    obtain ⟨b,idx,p,bytes,total⟩ := s
    simp only at hpos
    subst hpos
    simp [sanityCheck, hz]
  · rw [List.concat_eq_append] at *
    have hne : init ++ [l] ≠ [] := by simp
    have hfull := sanityFullCheck_joined (s := s) hlog hls hne
    rcases Nat.lt_or_ge warmStart files.log.length with hbig | hsmall
    · have hwarm := sanityCheck_warm (s := s) hlog hbig
      cases hrec with
      | empty h => exact absurd h hne
      | full h =>
        rw [← hlog] at h
        exact absurd hbig (Nat.not_lt.mpr h)
      | warm pre post k h hpost hstart hmiss =>
        rw [warmPositionLoop_joined hlog h hpost hstart hmiss] at hwarm
        rw [hwarm]
        exact congrArg Outcome.ok (check_joined hlog hls h hpost false)
      | missed heven hmiss =>
        rw [← hlog] at heven hmiss
        rw [warmPositionLoop_miss (by rw [heven]; rfl) hmiss] at hwarm
        rw [hwarm]
        exact congrArg Outcome.ok hfull
    · have hsize : files.log.length ≠ 0 := by
        have hw := length_wrap_pos l
        rw [hlog, joined_append, joined_cons, List.length_append, List.length_append]
        omega
      have hend : hasEndMagicNumer files.log files.log.length = .ok true := by
        rw [hlog]
        exact hasEndMagicNumer_joined
      rw [warmStart] at hsmall
      rw [sanityCheck, if_neg hsize, hend, ok_bind, if_neg (by simp), if_pos hsmall,
        Outcome.pure_eq, hfull]

structure Kept (s : Segment) (files : SegmentFiles) (r : Nat × Segment × SegmentFiles) : Prop where
  baseOffset : r.2.1.baseOffset = s.baseOffset
  index : r.2.1.index = s.index
  files_eq : r.2.2 = files

theorem kept_sanityFullCheck (hlog : files.log = joined ls)
    (hls : ∀ l ∈ ls, l.data.length ≤ logMaxSize) (hne : ls ≠ []) :
    Kept s files (s.sanityFullCheck files files.log.length) := by
  rw [sanityFullCheck_joined hlog hls hne]
  exact ⟨rfl,rfl,rfl⟩

theorem kept_sanitySimpleCheck {r : Nat × Segment × SegmentFiles} {size : Nat}
    (h : s.sanitySimpleCheck files size = .ok (some r)) : Kept s files r := by
  rw [sanitySimpleCheck] at h
  obtain ⟨found,-,h⟩ := bind_eq_ok.mp h
  cases found with
  | none => cases h
  | some warm =>
    obtain rfl := Option.some.inj (Outcome.ok.inj h)
    simp only [check, Bool.false_eq_true, false_and, if_false]
    exact ⟨rfl,rfl,rfl⟩

theorem kept_sanityCheck {r : Nat × Segment × SegmentFiles} (hlog : files.log = joined ls)
    (hls : ∀ l ∈ ls, l.data.length ≤ logMaxSize) (h : s.sanityCheck files = .ok r) :
    Kept s files r := by
  rw [sanityCheck] at h
  split at h
  · obtain rfl := Outcome.ok.inj h
    exact ⟨rfl,rfl,rfl⟩
  · rename_i hsize
    have hne : ls ≠ [] := by
      rintro rfl
      exact hsize (by rw [hlog]; rfl)
    have hfull := kept_sanityFullCheck (s := s) hlog hls hne
    obtain ⟨hasEnd,-,h⟩ := bind_eq_ok.mp h
    split at h
    · obtain rfl := Outcome.ok.inj h
      exact hfull
    · split at h
      · obtain rfl := Outcome.ok.inj h
        exact hfull
      · obtain ⟨found,hsimple,h⟩ := bind_eq_ok.mp h
        cases found with
        | none =>
          obtain rfl := Outcome.ok.inj h
          exact hfull
        | some r' =>
          obtain rfl := Outcome.ok.inj h
          exact kept_sanitySimpleCheck hsimple

end SanityCheck
end LiMaoIM.Db.Segment

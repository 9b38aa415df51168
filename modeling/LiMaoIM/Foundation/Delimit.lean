import LiMaoIM.Foundation.Bytes

namespace LiMaoIM.Delimit

variable {ρ : Type} (cut : Bytes → Option Nat)

def framesLoop : Nat → Bytes → List Bytes
  | 0, _ => []
  | fuel + 1, bs => match cut bs with
      | none => []
      | some n => bs.take n :: framesLoop fuel (bs.drop n)

def frames (bs : Bytes) : List Bytes := framesLoop cut bs.length bs

def feed (buf chunk : Bytes) : List Bytes × Bytes :=
  (frames cut (buf ++ chunk),(buf ++ chunk).drop (frames cut (buf ++ chunk)).flatten.length)

def Bounded : Prop := ∀ bs n, cut bs = some n → 0 < n ∧ n ≤ bs.length

variable {cut}

theorem Bounded.cut_nil (hb : Bounded cut) : cut [] = none := by
  cases hc : cut [] with
  | none => rfl
  | some n =>
    have h := hb [] n hc
    simp only [List.length_nil] at h
    omega

theorem framesLoop_fuel (hb : Bounded cut) {a b : Nat} {bs : Bytes} (h : bs.length ≤ a)
    (hab : a ≤ b) : framesLoop cut a bs = framesLoop cut b bs := by
  induction a generalizing b bs with
  | zero =>
    have hn : bs = [] := List.length_eq_zero_iff.mp (by omega)
    subst hn
    cases b <;> simp [framesLoop, hb.cut_nil]
  | succ a ih =>
    obtain ⟨b,rfl⟩ : ∃ c, b = c + 1 := ⟨b - 1,by omega⟩
    cases hc : cut bs with
    | none => simp [framesLoop, hc]
    | some n =>
      obtain ⟨h0,hn⟩ := hb bs n hc
      have hd : (bs.drop n).length ≤ a := by rw [List.length_drop]; omega
      simp only [framesLoop, hc, ih hd (show a ≤ b by omega)]

theorem frames_none {bs : Bytes} (h : cut bs = none) : frames cut bs = [] := by
  rw [frames]
  cases bs.length <;> simp [framesLoop, h]

theorem frames_some (hb : Bounded cut) {bs : Bytes} {n : Nat} (h : cut bs = some n) :
    frames cut bs = bs.take n :: frames cut (bs.drop n) := by
  obtain ⟨h0,hn⟩ := hb bs n h
  obtain ⟨m,hm⟩ : ∃ m, bs.length = m + 1 := ⟨bs.length - 1,by omega⟩
  have hd : (bs.drop n).length ≤ m := by rw [List.length_drop]; omega
  rw [frames, hm, framesLoop, h]
  simp only
  rw [frames, framesLoop_fuel hb le_rfl hd]

theorem frames_induction (hb : Bounded cut) {motive : Bytes → Prop}
    (none : ∀ bs, cut bs = none → motive bs)
    (some : ∀ bs n, cut bs = some n → motive (bs.drop n) → motive bs) (bs : Bytes) : motive bs := by
  induction hl : bs.length using Nat.strong_induction_on generalizing bs with
  | _ l ih =>
    cases hc : cut bs with
    | none => exact none bs hc
    | some n =>
      obtain ⟨h0,hn⟩ := hb bs n hc
      exact some bs n hc (ih (bs.drop n).length (by rw [List.length_drop]; omega) _ rfl)

theorem frames_flatten_prefix (hb : Bounded cut) (bs : Bytes) : (frames cut bs).flatten <+: bs := by
  induction bs using frames_induction hb with
  | none bs h => simp [frames_none h]
  | some bs n h ih =>
    rw [frames_some hb h, List.flatten_cons]
    conv_rhs => rw [← List.take_append_drop n bs]
    exact (List.prefix_append_right_inj _).mpr ih

structure Recognises (cut : Bytes → Option Nat) (P : Bytes → Prop) : Prop where
  append : ∀ r rest, P r → cut (r ++ rest) = some r.length
  take : ∀ bs n, cut bs = some n → P (bs.take n)

theorem Recognises.frames_valid {P : Bytes → Prop} (hP : Recognises cut P) (hb : Bounded cut)
    (bs : Bytes) : ∀ r ∈ frames cut bs, P r := by
  induction bs using frames_induction hb with
  | none bs h =>
    rw [frames_none h]
    exact fun r hr => absurd hr List.not_mem_nil
  | some bs n h ih =>
    rw [frames_some hb h]
    intro r hr
    rcases List.mem_cons.mp hr with rfl | hmem
    · exact hP.take bs n h
    · exact ih r hmem

theorem Recognises.prefix_frames {P : Bytes → Prop} (hP : Recognises cut P) (hb : Bounded cut)
    {rs : List Bytes} {bs : Bytes} (hrs : ∀ r ∈ rs, P r) (h : rs.flatten <+: bs) :
    rs <+: frames cut bs := by
  induction rs generalizing bs with
  | nil => exact List.nil_prefix
  | cons r rs ih =>
    obtain ⟨rest,rfl⟩ := h
    rw [List.flatten_cons, List.append_assoc] at *
    rw [frames_some hb (hP.append r _ (hrs r List.mem_cons_self)), List.take_left, List.drop_left,
      List.cons_prefix_cons]
    exact ⟨rfl,ih (fun x hx => hrs x (List.mem_cons_of_mem _ hx)) (List.prefix_append _ _)⟩

structure Delimits (cut : Bytes → Option Nat) (enc : ρ → Bytes) (x : ρ) : Prop where
  complete : ∀ rest, cut (enc x ++ rest) = some (enc x).length
  incomplete : ∀ bs, bs <+: enc x → bs ≠ enc x → cut bs = none

theorem frames_of_prefix (hb : Bounded cut) {enc : ρ → Bytes} {xs : List ρ}
    (hx : ∀ x ∈ xs, Delimits cut enc x) {bs : Bytes} (h : bs <+: xs.flatMap enc) :
    ∃ done pending r, xs = done ++ pending ∧ frames cut bs = done.map enc ∧
      bs = done.flatMap enc ++ r ∧ cut r = none := by
  induction xs generalizing bs with
  | nil =>
    have hn : bs = [] := by simpa using h
    subst hn
    exact ⟨[],[],[],rfl,frames_none hb.cut_nil,rfl,hb.cut_nil⟩
  | cons x xs ih =>
    rw [List.flatMap_cons] at h
    have hxd := hx x List.mem_cons_self
    rcases List.prefix_or_prefix_of_prefix h (List.prefix_append (enc x) _) with hlt | hle
    · by_cases he : bs = enc x
      · subst he
        have hc : cut (enc x) = some (enc x).length := by simpa using hxd.complete []
        refine ⟨[x],xs,[],rfl,?_,by simp,hb.cut_nil⟩
        rw [frames_some hb hc, List.take_length, List.drop_length, frames_none hb.cut_nil]
        rfl
      · exact ⟨[],x :: xs,bs,rfl,frames_none (hxd.incomplete bs hlt he),rfl,
          hxd.incomplete bs hlt he⟩
    · obtain ⟨bs',rfl⟩ := hle
      obtain ⟨done,pending,r,rfl,hf,hbs,hcr⟩ := ih (fun y hy => hx y (List.mem_cons_of_mem _ hy))
        ((List.prefix_append_right_inj _).mp h)
      refine ⟨x :: done,pending,r,rfl,?_,by rw [hbs]; simp,hcr⟩
      rw [frames_some hb (hxd.complete bs'), List.take_left, List.drop_left, hf]
      rfl

def feedAll (cut : Bytes → Option Nat) : Bytes → List Bytes → List (List Bytes) × Bytes
  | buf, [] => ([],buf)
  | buf, chunk :: chunks =>
      let out := feed cut buf chunk
      let tail := feedAll cut out.2 chunks
      (out.1 :: tail.1,tail.2)

theorem feedAll_reassembles (hb : Bounded cut) {enc : ρ → Bytes} {xs : List ρ}
    (hx : ∀ x ∈ xs, Delimits cut enc x) {buf : Bytes} {chunks : List Bytes}
    (hbuf : cut buf = none) (h : buf ++ chunks.flatten = xs.flatMap enc) :
    ∃ groups : List (List ρ), groups.flatten = xs ∧
      feedAll cut buf chunks = (groups.map (List.map enc),[]) := by
  induction chunks generalizing buf xs with
  | nil =>
    rw [List.flatten_nil, List.append_nil] at h
    cases xs with
    | nil => exact ⟨[],rfl,by rw [h]; rfl⟩
    | cons x xs =>
      have hc := (hx x List.mem_cons_self).complete (xs.flatMap enc)
      rw [← List.flatMap_cons, ← h, hbuf] at hc
      cases hc
  | cons chunk chunks ih =>
    rw [List.flatten_cons, ← List.append_assoc] at h
    obtain ⟨done,pending,r,rfl,hf,hbs,hcr⟩ := frames_of_prefix hb hx ⟨chunks.flatten,h⟩
    have hfeed : feed cut buf chunk = (done.map enc,r) := by
      rw [feed, hf, ← List.flatMap_def, hbs, List.drop_left]
    have hrest : r ++ chunks.flatten = pending.flatMap enc := by
      rw [hbs, List.flatMap_append, List.append_assoc] at h
      exact List.append_cancel_left h
    obtain ⟨groups,hg,hfa⟩ := ih (fun x hxp => hx x (List.mem_append_right _ hxp)) hcr hrest
    refine ⟨done :: groups,by rw [List.flatten_cons, hg],?_⟩
    rw [feedAll, hfeed]
    simp only [hfa, List.map_cons]

end LiMaoIM.Delimit

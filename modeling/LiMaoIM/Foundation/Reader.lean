import LiMaoIM.Foundation.Bytes

namespace LiMaoIM

structure Reader (σ : Type) where
  read : σ → Nat → Bytes × Option String × σ
  within : ∀ s k, (read s k).1.length ≤ k

structure Reading (σ : Type) where
  state : σ
  consumed : Bytes
deriving DecidableEq

namespace Reader

variable {σ : Type} {r : Reader σ}

structure Chunk (bs : Bytes) (answer : Bytes × Option String × σ) : Prop where
  nonempty : answer.1 ≠ []
  agrees : answer.1.take bs.length = bs.take answer.1.length
  healthy : answer.2.1 = none ∨ bs.length ≤ answer.1.length

inductive Delivers (r : Reader σ) : Bytes → σ → Prop
  | done (s : σ) : Delivers r [] s
  | more {bs : Bytes} {s : σ} (hbs : bs ≠ []) (chunk : ∀ k, 0 < k → Chunk bs (r.read s k))
      (rest : ∀ k, 0 < k → Delivers r (bs.drop (r.read s k).1.length) (r.read s k).2.2) :
      Delivers r bs s

def Fills (r : Reader σ) (s : σ) (k : Nat) : Prop :=
  (r.read s k).1.length = k ∧ (r.read s k).2.1 = none

def readInto (r : Reader σ) (s : Reading σ) (len : Nat) :
    (Bytes × Option String) × Reading σ :=
  let answer := r.read s.state len
  ((answer.1 ++ List.replicate (len - answer.1.length) 0,answer.2.1),
    ⟨answer.2.2,s.consumed ++ answer.1⟩)

theorem readInto_inv {s s' : Reading σ} {len : Nat} {data : Bytes} {err : Option String}
    (h : r.readInto s len = ((data,err),s')) :
    data.length = len ∧ (r.read s.state len).2.1 = err ∧
      s' = ⟨(r.read s.state len).2.2,s.consumed ++ (r.read s.state len).1⟩ := by
  have hle := r.within s.state len
  rw [readInto] at h
  obtain ⟨hanswer,rfl⟩ := Prod.mk.inj h
  obtain ⟨rfl,rfl⟩ := Prod.mk.inj hanswer
  refine ⟨?_,rfl,rfl⟩
  rw [List.length_append, List.length_replicate]
  omega

theorem delivers_iff {bs : Bytes} {s : σ} (hbs : bs ≠ []) :
    r.Delivers bs s ↔ ∀ k, 0 < k → Chunk bs (r.read s k) ∧
      r.Delivers (bs.drop (r.read s k).1.length) (r.read s k).2.2 := by
  constructor
  · intro h k hk
    cases h with
    | done => exact absurd rfl hbs
    | more _ chunk rest => exact ⟨chunk k hk,rest k hk⟩
  · intro h
    exact .more hbs (fun k hk => (h k hk).1) fun k hk => (h k hk).2

theorem Delivers.read_eq {bs rest : Bytes} {s : σ} (h : r.Delivers (bs ++ rest) s)
    (hlen : (r.read s bs.length).1.length = bs.length) : (r.read s bs.length).1 = bs := by
  by_cases hbs : bs = []
  · rw [hbs, List.length_nil] at hlen ⊢
    exact List.length_eq_zero_iff.mp hlen
  · have hne : bs ++ rest ≠ [] := List.append_ne_nil_of_left_ne_nil hbs rest
    have hchunk := ((delivers_iff hne).mp h bs.length (List.length_pos_iff.mpr hbs)).1.agrees
    rwa [hlen, List.take_left, List.take_of_length_le (by simp [hlen])] at hchunk

theorem Delivers.read_rest {bs rest : Bytes} {s : σ} (h : r.Delivers (bs ++ rest) s) (hbs : bs ≠ [])
    (hlen : (r.read s bs.length).1.length = bs.length) :
    r.Delivers rest (r.read s bs.length).2.2 := by
  have hne : bs ++ rest ≠ [] := List.append_ne_nil_of_left_ne_nil hbs rest
  have hrest := ((delivers_iff hne).mp h bs.length (List.length_pos_iff.mpr hbs)).2
  rwa [hlen, List.drop_left] at hrest

theorem readInto_of_fills {s : Reading σ} {len : Nat} (h : r.Fills s.state len) :
    r.readInto s len = (((r.read s.state len).1,none),
      ⟨(r.read s.state len).2.2,s.consumed ++ (r.read s.state len).1⟩) := by
  rw [readInto]
  rw [h.1, h.2, Nat.sub_self, List.replicate_zero, List.append_nil]

def chunked (size : Nat) : Reader Bytes where
  read s k :=
    if s = [] ∧ 0 < k then ([],some "EOF",[]) else (s.take (min k size),none,s.drop (min k size))
  within s k := by
    split
    · exact Nat.zero_le k
    · exact (List.length_take_le _ _).trans (min_le_left k size)

theorem chunked_delivers {size : Nat} (hsize : 0 < size) (bs rest : Bytes) :
    (chunked size).Delivers bs (bs ++ rest) := by
  induction hn : bs.length using Nat.strong_induction_on generalizing bs with
  | h n ih =>
      by_cases hbs : bs = []
      · rw [hbs]
        exact .done _
      have hpos := List.length_pos_iff.mpr hbs
      rw [delivers_iff hbs]
      intro k hk
      have hread : (chunked size).read (bs ++ rest) k =
          ((bs ++ rest).take (min k size),none,(bs ++ rest).drop (min k size)) :=
        if_neg fun h => hbs (List.append_eq_nil_iff.mp h.1).1
      have hmin : 0 < min k size := by omega
      rw [hread]
      refine ⟨⟨?_,?_,.inl rfl⟩,?_⟩
      · intro hnil
        have hl := congrArg List.length hnil
        simp only [List.length_take, List.length_append, List.length_nil] at hl
        omega
      · rw [List.take_take, List.take_append_of_le_length (min_le_left _ _), List.take_eq_take_iff,
          List.length_take, List.length_append]
        omega
      · by_cases hm : min k size ≤ bs.length
        · rw [List.length_take, List.length_append, min_eq_left (by omega),
            List.drop_append_of_le_length hm]
          exact ih (bs.drop (min k size)).length (by rw [List.length_drop]; omega) _ rfl
        · rw [List.drop_eq_nil_of_le (by rw [List.length_take, List.length_append]; omega)]
          exact .done _

end Reader
end LiMaoIM

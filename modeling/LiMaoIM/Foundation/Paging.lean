import LiMaoIM.Foundation.Outcome

namespace LiMaoIM.Paging

section Window

variable {α : Type} {key : α → Nat} {xs : List α} {a b c n : Nat}

def window (a b : Nat) (xs : List α) : List α := (xs.take b).drop a

structure Enumerated (key : α → Nat) (xs : List α) : Prop where
  keys : xs.map key = List.range' 1 xs.length

theorem window_all : window 0 xs.length xs = xs := by
  rw [window, List.drop_zero, List.take_length]

theorem length_window : (window a b xs).length = min b xs.length - a := by
  rw [window, List.length_drop, List.length_take]

theorem window_eq_nil (h : b ≤ a) : window a b xs = [] := by
  apply List.eq_nil_of_length_eq_zero
  rw [length_window]
  omega

theorem take_window : (window a b xs).take n = window a (min b (a + n)) xs := by
  rw [window, window, List.take_drop, List.take_take, Nat.min_comm]

theorem drop_window : (window a b xs).drop n = window (a + n) b xs := by
  rw [window, window, List.drop_drop]

theorem window_append (hab : a ≤ b) (hbc : b ≤ c) :
    window a b xs ++ window b c xs = window a c xs := by
  have hsplit := List.take_append_drop (b - a) (window a c xs)
  rwa [take_window, drop_window, Nat.add_sub_cancel' hab, Nat.min_eq_right hbc] at hsplit

theorem take_range' (s : Nat) : (List.range' s n).take b = List.range' s (min b n) := by
  rcases Nat.le_total b n with hle | hle
  · rw [List.take_range'_of_length_ge hle, Nat.min_eq_left hle]
  · rw [List.take_range'_of_length_le hle, Nat.min_eq_right hle]

theorem Enumerated.key_window (h : Enumerated key xs) :
    (window a b xs).map key = List.range' (a + 1) (min b xs.length - a) := by
  rw [window, List.map_drop, List.map_take, h.keys, take_range', List.drop_range', Nat.mul_one,
    Nat.add_comm]

theorem Enumerated.bounds (h : Enumerated key xs) {x : α} (hx : x ∈ window a b xs) :
    a < key x ∧ key x ≤ b := by
  have hkey : key x ∈ (window a b xs).map key := List.mem_map_of_mem hx
  rw [h.key_window, List.mem_range'_1] at hkey
  omega

theorem Enumerated.bounds_of_mem (h : Enumerated key xs) {x : α} (hx : x ∈ xs) :
    0 < key x ∧ key x ≤ xs.length := by
  rw [← @window_all α xs] at hx
  exact h.bounds hx

theorem Enumerated.filter_eq (h : Enumerated key xs) (a b : Nat) :
    (xs.filter fun x => a < key x ∧ key x ≤ b) = window a b xs := by
  rcases Nat.le_total a b with hab | hba
  · have hlow : (window 0 a xs).filter (fun x => a < key x ∧ key x ≤ b) = [] := by
      rw [List.filter_eq_nil_iff]
      intro x hx
      have hbounds := h.bounds hx
      simp only [decide_eq_true_eq]
      omega
    have hinside : (window a b xs).filter (fun x => a < key x ∧ key x ≤ b) = window a b xs := by
      rw [List.filter_eq_self]
      intro x hx
      exact decide_eq_true (h.bounds hx)
    have hhigh : (window b xs.length xs).filter (fun x => a < key x ∧ key x ≤ b) = [] := by
      rw [List.filter_eq_nil_iff]
      intro x hx
      have hbounds := h.bounds hx
      simp only [decide_eq_true_eq]
      omega
    have hsplit : xs = window 0 a xs ++ (window a b xs ++ window b xs.length xs) := by
      rw [← List.append_assoc, window_append (Nat.zero_le a) hab, window, window, List.drop_zero,
        List.take_length, List.take_append_drop]
    have hfilter := congrArg (List.filter fun x => a < key x ∧ key x ≤ b) hsplit
    rwa [List.filter_append, List.filter_append, hlow, hinside, hhigh, List.nil_append,
      List.append_nil] at hfilter
  · rw [window_eq_nil hba, List.filter_eq_nil_iff]
    intro x _
    simp only [decide_eq_true_eq]
    omega

theorem Enumerated.filter_window (h : Enumerated key xs) :
    ((window a b xs).filter fun x => key x ≤ c) = window a (min b c) xs := by
  rw [← h.filter_eq, ← h.filter_eq, List.filter_filter]
  apply List.filter_congr
  intro x hx
  simp only [← Bool.decide_and, decide_eq_decide]
  omega

theorem Enumerated.window_eq_iff (h : Enumerated key xs) {a' b' : Nat} (hb : b ≤ xs.length)
    (hb' : b' ≤ xs.length) :
    window a b xs = window a' b' xs ↔ b ≤ a ∧ b' ≤ a' ∨ a = a' ∧ b = b' := by
  constructor
  · intro heq
    have hkeys := congrArg (List.map key) heq
    rw [h.key_window, h.key_window, Nat.min_eq_left hb, Nat.min_eq_left hb', List.range'_inj]
      at hkeys
    omega
  · rintro (⟨hba,hba'⟩ | ⟨rfl,rfl⟩)
    · rw [window_eq_nil hba, window_eq_nil hba']
    · rfl

end Window

section Pages

variable {R P : Type} {fetch : R → Outcome P} {more : P → Bool} {next : R → P → R}

def pages (fetch : R → Outcome P) (more : P → Bool) (next : R → P → R) :
    Nat → R → Outcome (Option (List P))
  | 0, _ => .ok none
  | fuel + 1, r => do
      let p ← fetch r
      if more p then do
        let rest ← pages fetch more next fuel (next r p)
        pure (rest.map (p :: ·))
      else pure (some [p])

structure Turns (fetch : R → Outcome P) (more : P → Bool) (next : R → P → R) (inv : R → Prop)
    (left : R → Nat) (result : R → List P → Prop) (r : R) (p : P) : Prop where
  fetched : fetch r = .ok p
  turned : more p = true → inv (next r p) ∧ left (next r p) < left r ∧
    ∀ ps, result (next r p) ps → result r (p :: ps)
  last : more p = false → result r [p]

theorem pages_of_turns {inv : R → Prop} {left : R → Nat} {result : R → List P → Prop}
    (hturn : ∀ r, inv r → ∃ p, Turns fetch more next inv left result r p) {r : R} (hr : inv r)
    {fuel : Nat} (hfuel : left r < fuel) :
    ∃ ps, pages fetch more next fuel r = .ok (some ps) ∧ result r ps := by
  induction fuel generalizing r with
  | zero => omega
  | succ fuel ih =>
    obtain ⟨p,hp⟩ := hturn r hr
    rw [pages, hp.fetched]
    cases hmore : more p with
    | false => exact ⟨[p],by simp [hmore],hp.last hmore⟩
    | true =>
      obtain ⟨hinv,hless,hresult⟩ := hp.turned hmore
      obtain ⟨ps,hrun,hps⟩ := ih hinv (by omega)
      exact ⟨p :: ps,by simp [hmore, hrun],hresult ps hps⟩

end Pages
end LiMaoIM.Paging

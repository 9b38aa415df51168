import Mathlib.Tactic

namespace LiMaoIM.HeapOrder

variable {π : Type} [LE π] {f f' : Nat → π} {n i j k : Nat}

def Ordered (f : Nat → π) (n : Nat) : Prop := ∀ k, 0 < k → k < n → f ((k - 1) / 2) ≤ f k

structure OrderedOff (f : Nat → π) (n i : Nat) : Prop where
  apart : ∀ k, 0 < k → k < n → k ≠ i → (k - 1) / 2 ≠ i → f ((k - 1) / 2) ≤ f k
  across : 0 < i → ∀ k, 0 < k → k < n → (k - 1) / 2 = i → f ((i - 1) / 2) ≤ f k

structure OrderedBelow (f : Nat → π) (n i : Nat) : Prop where
  off : OrderedOff f n i
  below : ∀ k, 0 < k → k < n → (k - 1) / 2 = i → f i ≤ f k

def Child (n i k : Nat) : Prop := 0 < k ∧ k < n ∧ (k - 1) / 2 = i

theorem Ordered.root_le [Std.IsLinearPreorder π] (h : Ordered f n) (hk : k < n) : f 0 ≤ f k := by
  induction k using Nat.strong_induction_on with
  | _ k ih =>
    rcases Nat.eq_zero_or_pos k with rfl | hpos
    · exact Std.le_refl _
    · exact Std.le_trans (ih ((k - 1) / 2) (by omega) (by omega)) (h k hpos hk)

theorem Ordered.off [Std.IsLinearPreorder π] (h : Ordered f n) (i : Nat) : OrderedOff f n i := by
  refine ⟨fun k hk hn _ _ => h k hk hn,fun hi k hk hn hp => ?_⟩
  have hchild := h k hk hn
  rw [hp] at hchild
  exact Std.le_trans (h i hi (by omega)) hchild

theorem Ordered.append (h : Ordered f n) (hsame : ∀ k < n, f' k = f k) :
    OrderedBelow f' (n + 1) n := by
  refine ⟨⟨fun k hk hn hkn _ => ?_,fun _ k hk hn hp => by omega⟩,fun k hk hn hp => by omega⟩
  rw [hsame k (by omega), hsame _ (by omega)]
  exact h k hk (by omega)

theorem Ordered.congr (h : Ordered f n) (hsame : ∀ k < n, f' k = f k) : Ordered f' n := by
  intro k hk hn
  rw [hsame k hn, hsame _ (by omega)]
  exact h k hk hn

theorem Ordered.mono (h : Ordered f n) (hk : k ≤ n) : Ordered f k :=
  fun i hi hik => h i hi (Nat.lt_of_lt_of_le hik hk)

theorem OrderedBelow.ordered (h : OrderedBelow f n i) (hi : 0 < i → f ((i - 1) / 2) ≤ f i) :
    Ordered f n := by
  intro k hk hn
  rcases eq_or_ne k i with rfl | hki
  · exact hi hk
  · rcases eq_or_ne ((k - 1) / 2) i with hp | hp
    · have hbelow := h.below k hk hn hp
      rwa [hp]
    · exact h.off.apart k hk hn hki hp

theorem OrderedOff.congr (h : OrderedOff f n i) (hsame : ∀ k < n, k ≠ i → f' k = f k) :
    OrderedOff f' n i := by
  constructor
  · intro k hk hn hki hp
    rw [hsame k hn hki, hsame _ (by omega) hp]
    exact h.apart k hk hn hki hp
  · intro hi k hk hn hp
    rw [hsame k hn (by omega), hsame _ (by omega) (by omega)]
    exact h.across hi k hk hn hp

section Up

variable (h : OrderedBelow f n j) (hj : 0 < j) (hjn : j < n) (hless : f j ≤ f ((j - 1) / 2))
include h hj hjn hless

theorem OrderedBelow.up [Std.IsLinearPreorder π] :
    OrderedBelow (f ∘ Equiv.swap ((j - 1) / 2) j) n ((j - 1) / 2) := by
  have hparent : f ((j - 1) / 2) = (f ∘ Equiv.swap ((j - 1) / 2) j) j := by
    rw [Function.comp_apply, Equiv.swap_apply_right]
  have hself : f j = (f ∘ Equiv.swap ((j - 1) / 2) j) ((j - 1) / 2) := by
    rw [Function.comp_apply, Equiv.swap_apply_left]
  have hother (k : Nat) (hp : k ≠ (j - 1) / 2) (hk : k ≠ j) :
      f k = (f ∘ Equiv.swap ((j - 1) / 2) j) k := by
    rw [Function.comp_apply, Equiv.swap_apply_of_ne_of_ne hp hk]
  constructor
  · constructor
    · intro k hk hn hkp hpp
      rcases eq_or_ne ((k - 1) / 2) j with hkj | hkj
      · rw [hkj, ← hparent, ← hother k hkp (by omega)]
        exact h.off.across hj k hk hn hkj
      · rw [← hother _ hpp hkj, ← hother k hkp (by omega)]
        exact h.off.apart k hk hn (by omega) hkj
    · intro hp k hk hn hkp
      rw [← hother _ (by omega) (by omega)]
      have hup := h.off.apart ((j - 1) / 2) hp (by omega) (by omega) (by omega)
      rcases eq_or_ne k j with rfl | hkj
      · rwa [← hparent]
      · have hk' := h.off.apart k hk hn hkj (by omega)
        rw [hkp] at hk'
        rw [← hother k (by omega) hkj]
        exact Std.le_trans hup hk'
  · intro k hk hn hkp
    rw [← hself]
    rcases eq_or_ne k j with rfl | hkj
    · rwa [← hparent]
    · have hk' := h.off.apart k hk hn hkj (by omega)
      rw [hkp] at hk'
      rw [← hother k (by omega) hkj]
      exact Std.le_trans hless hk'

end Up

section Down

variable (h : OrderedOff f n i) (hj : Child n i j)
  (hleast : ∀ k, Child n i k → f j ≤ f k)
include h hj hleast

theorem OrderedOff.down : OrderedOff (f ∘ Equiv.swap i j) n j := by
  obtain ⟨hpos,hjn,hji⟩ := hj
  have hself : f i = (f ∘ Equiv.swap i j) j := by
    rw [Function.comp_apply, Equiv.swap_apply_right]
  have hchild : f j = (f ∘ Equiv.swap i j) i := by
    rw [Function.comp_apply, Equiv.swap_apply_left]
  have hother (k : Nat) (hi : k ≠ i) (hk : k ≠ j) : f k = (f ∘ Equiv.swap i j) k := by
    rw [Function.comp_apply, Equiv.swap_apply_of_ne_of_ne hi hk]
  constructor
  · intro k hk hn hkj hpj
    rcases eq_or_ne k i with rfl | hki
    · rw [← hother _ (by omega) hpj, ← hchild]
      exact h.across hk j hpos hjn hji
    · rw [← hother k hki hkj]
      rcases eq_or_ne ((k - 1) / 2) i with hp | hp
      · rw [hp, ← hchild]
        exact hleast k ⟨hk,hn,hp⟩
      · rw [← hother _ hp hpj]
        exact h.apart k hk hn hki hp
  · intro _ k hk hn hp
    rw [hji, ← hchild, ← hother k (by omega) (by omega)]
    have hk' := h.apart k hk hn (by omega) (by omega)
    rwa [hp] at hk'

theorem OrderedOff.sunk [Std.IsLinearPreorder π] (hless : f j ≤ f i) (hdone : OrderedBelow f' n j)
    (hbefore : ∀ k < j, f' k = (f ∘ Equiv.swap i j) k)
    (hfrom : ∃ k, (k = j ∨ Child n j k) ∧ f' j = (f ∘ Equiv.swap i j) k) :
    OrderedBelow f' n i ∧ f' i = f j := by
  obtain ⟨hpos,hjn,hji⟩ := hj
  have hself : f i = (f ∘ Equiv.swap i j) j := by
    rw [Function.comp_apply, Equiv.swap_apply_right]
  have hother (k : Nat) (hi : k ≠ i) (hk : k ≠ j) : f k = (f ∘ Equiv.swap i j) k := by
    rw [Function.comp_apply, Equiv.swap_apply_of_ne_of_ne hi hk]
  have hmoved : f' i = f j := by
    rw [hbefore i (by omega), Function.comp_apply, Equiv.swap_apply_left]
  have hunder : f j ≤ f' j := by
    obtain ⟨k,hk | ⟨hk,hn,hp⟩,heq⟩ := hfrom
    · rw [heq, hk, ← hself]
      exact hless
    · rw [heq, ← hother k (by omega) (by omega)]
      have hk' := h.apart k hk hn (by omega) (by omega)
      rwa [hp] at hk'
  have hall (k : Nat) (hk : 0 < k) (hn : k < n) (hki : k ≠ i) : f' ((k - 1) / 2) ≤ f' k := by
    rcases eq_or_ne k j with rfl | hkj
    · rwa [hji, hmoved]
    · rcases eq_or_ne ((k - 1) / 2) j with hp | hp
      · have hk' := hdone.below k hk hn hp
        rwa [hp]
      · exact hdone.off.apart k hk hn hkj hp
  refine ⟨⟨⟨fun k hk hn hki _ => hall k hk hn hki,fun hi k hk hn hp => ?_⟩,fun k hk hn hp => ?_⟩,
    hmoved⟩
  · have hk' := hall k hk hn (by omega)
    rw [hp, hmoved] at hk'
    rw [hbefore _ (by omega), ← hother _ (by omega) (by omega)]
    exact Std.le_trans (h.across hi j hpos hjn hji) hk'
  · have hk' := hall k hk hn (by omega)
    rwa [hp] at hk'

end Down

end LiMaoIM.HeapOrder

import LiMaoIM.Foundation.Run
import Mathlib.Algebra.Order.BigOperators.Group.Multiset
import Mathlib.Algebra.BigOperators.Group.Multiset.Basic

namespace LiMaoIM

structure Pool (σ τ : Type) where
  shared : σ
  threads : List τ

namespace Pool

section Total

variable {τ : Type} {w w' : τ → Nat} {t : τ} {ts : Multiset τ}

def total (w : τ → Nat) (ts : Multiset τ) : Nat := (ts.map w).sum

@[simp] theorem total_cons : total w (t ::ₘ ts) = w t + total w ts := by
  rw [total, Multiset.map_cons, Multiset.sum_cons, total]

theorem le_total (h : t ∈ ts) : w t ≤ total w ts :=
  Multiset.single_le_sum (fun _ _ => Nat.zero_le _) _ (Multiset.mem_map_of_mem w h)

theorem total_mono (h : ∀ t ∈ ts, w t ≤ w' t) : total w ts ≤ total w' ts :=
  Multiset.sum_map_le_sum_map w w' h

theorem total_eq_zero (h : ∀ t ∈ ts, w t = 0) : total w ts = 0 := by
  rw [total, Multiset.map_congr rfl h, Multiset.map_const', Multiset.sum_replicate, smul_zero]

end Total

variable {σ τ α : Type} (step : σ → τ → α → Option (σ × τ))

def advance (p : Pool σ τ) (choice : Nat × α) : Outcome (Pool σ τ) :=
  match p.threads[choice.1]? with
  | none => .ok p
  | some t =>
      match step p.shared t choice.2 with
      | none => .ok p
      | some (s,t') => .ok ⟨s,p.threads.set choice.1 t'⟩

inductive Advanced (p p' : Pool σ τ) (a : α) : Prop
  | idle (h : p' = p)
  | moved (t t' : τ) (others : Multiset τ) (hstep : step p.shared t a = some (p'.shared,t'))
      (hbefore : (p.threads : Multiset τ) = t ::ₘ others)
      (hafter : (p'.threads : Multiset τ) = t' ::ₘ others)

theorem advance_cases (p : Pool σ τ) (choice : Nat × α) :
    ∃ p', advance step p choice = .ok p' ∧ Advanced step p p' choice.2 := by
  rw [advance]
  cases hget : p.threads[choice.1]? with
  | none => exact ⟨p,rfl,.idle rfl⟩
  | some t =>
    obtain ⟨hlt,rfl⟩ := List.getElem?_eq_some_iff.mp hget
    cases hstep : step p.shared p.threads[choice.1] choice.2 with
    | none => exact ⟨p,by simp only [hstep],.idle rfl⟩
    | some moved =>
      obtain ⟨s,t'⟩ := moved
      obtain ⟨l₁,l₂,hbefore,-,hafter⟩ : ∃ l₁ l₂, p.threads = l₁ ++ p.threads[choice.1] :: l₂ ∧
          l₁.length = choice.1 ∧ p.threads.set choice.1 t' = l₁ ++ t' :: l₂ :=
        List.exists_of_set hlt
      refine ⟨⟨s,p.threads.set choice.1 t'⟩,by simp only [hstep],
        .moved p.threads[choice.1] t' ↑(l₁ ++ l₂) hstep ?_ ?_⟩
      · conv_lhs => rw [hbefore]
        exact Multiset.coe_eq_coe.mpr List.perm_middle
      · rw [hafter]
        exact Multiset.coe_eq_coe.mpr List.perm_middle

variable {step}

theorem always_of_thread {Inv : σ → Multiset τ → Prop}
    (hstep : ∀ s t a s' t' others, Inv s (t ::ₘ others) → step s t a = some (s',t') →
      Inv s' (t' ::ₘ others))
    {p : Pool σ τ} (hp : Inv p.shared p.threads) (schedule : List (Nat × α)) :
    Run.Always (advance step) (fun p => Inv p.shared p.threads) p schedule := by
  refine Run.always_of_step (fun p choice hinv => ?_) hp
  obtain ⟨p',hadvance,hcases⟩ := advance_cases step p choice
  refine ⟨p',hadvance,?_⟩
  cases hcases with
  | idle h => rwa [h]
  | moved t t' others hmoved hbefore hafter =>
    rw [hafter]
    rw [hbefore] at hinv
    exact hstep _ _ _ _ _ _ hinv hmoved

end Pool
end LiMaoIM

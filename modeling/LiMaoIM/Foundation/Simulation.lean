import LiMaoIM.Foundation.Run

namespace LiMaoIM

open Outcome

variable {σ τ α β : Type} {step : σ → α → Outcome σ} {step' : τ → β → Outcome τ} {view : σ → τ}
  {Inv : σ → Prop} {Accounts : β → σ → α → Prop}

structure Simulation (step : σ → α → Outcome σ) (step' : τ → β → Outcome τ) (view : σ → τ)
    (Inv : σ → Prop) (Accounts : β → σ → α → Prop) : Prop where
  keeps : ∀ s a s', Inv s → step s a = .ok s' → Inv s'
  moves : ∀ s a s', Inv s → step s a = .ok s' → view s' = view s ∨
    ∃ b, step' (view s) b = .ok (view s') ∧ Accounts b s a

namespace Simulation

variable {s s' : σ} {as : List α}

theorem run (h : Simulation step step' view Inv Accounts) (hs : Inv s) (hr : Run.run step s as = .ok s') :
    ∃ bs, Run.run step' (view s) bs = .ok (view s') ∧
      ∀ b ∈ bs, Run.Happens step (Accounts b) s as := by
  induction as using List.reverseRecOn generalizing s' with
  | nil =>
    cases hr
    exact ⟨[],rfl,fun _ hb => absurd hb List.not_mem_nil⟩
  | append_singleton as a ih =>
    obtain ⟨t,hrest,hlast⟩ := Run.run_snoc_iff.mp hr
    obtain ⟨bs,hbs,hall⟩ := ih hrest
    have hearlier (b : β) (hb : b ∈ bs) := (hall b hb).append [a]
    have ht := Run.run_keeps h.keeps hs hrest
    rcases h.moves t a s' ht hlast with hsame | ⟨b,hb,haccounts⟩
    · exact ⟨bs,hsame ▸ hbs,hearlier⟩
    · refine ⟨bs ++ [b],Run.run_snoc hbs hb,fun x hx => ?_⟩
      rcases List.mem_append.mp hx with hx | hx
      · exact hearlier x hx
      · obtain rfl := List.mem_singleton.mp hx
        exact Run.Happens.last hrest haccounts

theorem kept_or_happens (h : Simulation step step' view Inv Accounts) (hs : Inv s) {P : τ → Prop}
    {Q : τ → τ → β → Prop}
    (hstep : ∀ x b x', step' x b = .ok x' → P x → P x' ∨ Q x' x b)
    (hgrow : ∀ x b x', step' x b = .ok x' → ∀ y c, Q x y c → Q x' y c)
    (hP : P (view s)) (hr : Run.run step s as = .ok s') :
    P (view s') ∨
      Run.Happens step (fun t a => ∃ b, Accounts b t a ∧ Q (view s') (view t) b) s as := by
  refine Run.kept_or_happens (P := fun t => P (view t))
    (Q := fun s' t a => ∃ b, Accounts b t a ∧ Q (view s') (view t) b) h.keeps
      (fun t a t' ht ha hPt => ?_) (fun t a t' ht ha u c hu => ?_) hs hP hr
  · rcases h.moves t a t' ht ha with hsame | ⟨b,hb,haccounts⟩
    · exact Or.inl (hsame ▸ hPt)
    · exact (hstep (view t) b (view t') hb hPt).imp_right fun hq => ⟨b,haccounts,hq⟩
  · obtain ⟨b,haccounts,hq⟩ := hu
    rcases h.moves t a t' ht ha with hsame | ⟨b',hb',-⟩
    · exact ⟨b,haccounts,hsame ▸ hq⟩
    · exact ⟨b,haccounts,hgrow (view t) b' (view t') hb' (view u) b hq⟩

end Simulation

end LiMaoIM

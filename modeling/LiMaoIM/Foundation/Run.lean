import LiMaoIM.Foundation.Outcome

namespace LiMaoIM.Run

open Outcome

variable {σ α : Type} (step : σ → α → Outcome σ)

def run : σ → List α → Outcome σ
  | s, [] => .ok s
  | s, a :: as => step s a >>= fun s' => run s' as

def Meets (cond : σ → α → Prop) : σ → List α → Prop
  | _, [] => True
  | s, a :: as => cond s a ∧ ∀ s', step s a = .ok s' → Meets cond s' as

def Always (P : σ → Prop) : σ → List α → Prop
  | s, [] => P s
  | s, a :: as => P s ∧ ∃ s', step s a = .ok s' ∧ Always P s' as

instance decidableMeets (cond : σ → α → Prop) [∀ s a, Decidable (cond s a)] :
    ∀ s as, Decidable (Meets step cond s as)
  | _, [] => isTrue trivial
  | s, a :: as =>
      match h : step s a with
      | .ok s₁ =>
          have := decidableMeets cond s₁ as
          decidable_of_iff (cond s a ∧ Meets step cond s₁ as) (by simp [Meets, h])
      | .error e => decidable_of_iff (cond s a) (by simp [Meets, h])
      | .panic e => decidable_of_iff (cond s a) (by simp [Meets, h])

instance decidableAlways (P : σ → Prop) [∀ s, Decidable (P s)] :
    ∀ s as, Decidable (Always step P s as)
  | s, [] => inferInstanceAs (Decidable (P s))
  | s, a :: as =>
      match h : step s a with
      | .ok s₁ =>
          have := decidableAlways P s₁ as
          decidable_of_iff (P s ∧ Always step P s₁ as) (by simp [Always, h])
      | .error e => isFalse (by simp [Always, h])
      | .panic e => isFalse (by simp [Always, h])

variable {step}

theorem Meets.and {cond cond' : σ → α → Prop} {s : σ} {as : List α} (h : Meets step cond s as)
    (h' : Meets step cond' s as) : Meets step (fun s a => cond s a ∧ cond' s a) s as := by
  induction as generalizing s with
  | nil => exact trivial
  | cons a as ih => exact ⟨⟨h.1,h'.1⟩,fun s' hs => ih (h.2 s' hs) (h'.2 s' hs)⟩

theorem Meets.imp {cond cond' : σ → α → Prop} (hc : ∀ s a, cond s a → cond' s a) {s : σ}
    {as : List α} (h : Meets step cond s as) : Meets step cond' s as := by
  induction as generalizing s with
  | nil => exact trivial
  | cons a as ih => exact ⟨hc s a h.1,fun s' hs => ih (h.2 s' hs)⟩

theorem meets_of_forall {p : α → Prop} {s : σ} {as : List α} (h : ∀ a ∈ as, p a) :
    Meets step (fun _ a => p a) s as := by
  induction as generalizing s with
  | nil => exact trivial
  | cons a as ih =>
    exact ⟨h a List.mem_cons_self,fun _ _ => ih fun b hb => h b (List.mem_cons_of_mem _ hb)⟩

theorem always_of_invariant {Inv P : σ → Prop} {cond : σ → α → Prop}
    (hP : ∀ s, Inv s → P s)
    (hstep : ∀ s a, Inv s → cond s a → ∃ s', step s a = .ok s' ∧ Inv s')
    {s : σ} {as : List α} (hs : Inv s) (hm : Meets step cond s as) : Always step P s as := by
  induction as generalizing s with
  | nil => exact hP s hs
  | cons a as ih =>
    obtain ⟨s',h,hs'⟩ := hstep s a hs hm.1
    exact ⟨hP s hs,s',h,ih hs' (hm.2 s' h)⟩

theorem always_of_step {Inv : σ → Prop}
    (hstep : ∀ s a, Inv s → ∃ s', step s a = .ok s' ∧ Inv s') {s : σ} {as : List α} (hs : Inv s) :
    Always step Inv s as := by
  induction as generalizing s with
  | nil => exact hs
  | cons a as ih =>
    obtain ⟨s',h,hs'⟩ := hstep s a hs
    exact ⟨hs,s',h,ih hs'⟩

theorem run_of_step {Inv : σ → Prop}
    (hstep : ∀ s, Inv s → ∀ a, ∃ s', step s a = .ok s' ∧ Inv s') {s : σ} (hs : Inv s)
    (as : List α) : ∃ s', run step s as = .ok s' ∧ Inv s' := by
  induction as generalizing s with
  | nil => exact ⟨s,rfl,hs⟩
  | cons a as ih =>
    obtain ⟨s₁,h₁,hs₁⟩ := hstep s hs a
    obtain ⟨s',hrun,hs'⟩ := ih hs₁
    refine ⟨s',?_,hs'⟩
    rw [run, h₁]
    exact hrun

theorem Always.imp {P Q : σ → Prop} (hq : ∀ s, P s → Q s) {s : σ} {as : List α}
    (h : Always step P s as) : Always step Q s as := by
  induction as generalizing s with
  | nil => exact hq s h
  | cons a as ih =>
    obtain ⟨hs,s',hstep,hrest⟩ := h
    exact ⟨hq s hs,s',hstep,ih hrest⟩

theorem Always.head {P : σ → Prop} {s : σ} {as : List α} (h : Always step P s as) : P s := by
  cases as with
  | nil => exact h
  | cons a as => exact h.1

theorem Always.last {P : σ → Prop} {s s' : σ} {as : List α} (h : Always step P s as)
    (hr : run step s as = .ok s') : P s' := by
  induction as generalizing s with
  | nil =>
    cases hr
    exact h
  | cons a as ih =>
    obtain ⟨-,s₁,h₁,hrest⟩ := h
    rw [run, h₁, ok_bind] at hr
    exact ih hrest hr

theorem meets_of_always {Inv P : σ → Prop} {cond : σ → α → Prop}
    (hstep : ∀ s a, Inv s → cond s a → ∃ s', step s a = .ok s' ∧ Inv s')
    (hbad : ∀ s a s', Inv s → ¬ cond s a → step s a = .ok s' → ¬ P s')
    {s : σ} {as : List α} (hs : Inv s) (h : Always step P s as) : Meets step cond s as := by
  induction as generalizing s with
  | nil => exact trivial
  | cons a as ih =>
    obtain ⟨-,s₁,h₁,hrest⟩ := h
    have hc : cond s a := by
      by_contra hc
      exact hbad s a s₁ hs hc h₁ hrest.head
    refine ⟨hc,fun s' hs' => ?_⟩
    obtain ⟨s₂,h₂,hinv⟩ := hstep s a hs hc
    obtain rfl : s₂ = s' := Outcome.ok.inj (h₂.symm.trans hs')
    obtain rfl : s₂ = s₁ := Outcome.ok.inj (h₂.symm.trans h₁)
    exact ih hinv hrest

theorem always_iff_meets {Inv P : σ → Prop} {cond : σ → α → Prop}
    (hP : ∀ s, Inv s → P s)
    (hstep : ∀ s a, Inv s → cond s a → ∃ s', step s a = .ok s' ∧ Inv s')
    (hbad : ∀ s a s', Inv s → ¬ cond s a → step s a = .ok s' → ¬ P s')
    {s : σ} {as : List α} (hs : Inv s) : Always step P s as ↔ Meets step cond s as :=
  ⟨meets_of_always hstep hbad hs,always_of_invariant hP hstep hs⟩

theorem run_keeps {Inv : σ → Prop}
    (hstep : ∀ s a s', Inv s → step s a = .ok s' → Inv s') {s s' : σ} {as : List α} (hs : Inv s)
    (hr : run step s as = .ok s') : Inv s' := by
  induction as generalizing s with
  | nil =>
    cases hr
    exact hs
  | cons a as ih =>
    obtain ⟨s₁,h₁,hrest⟩ := bind_eq_ok.mp hr
    exact ih (hstep s a s₁ hs h₁) hrest

theorem run_meets_keeps {Inv : σ → Prop} {cond : σ → α → Prop}
    (hstep : ∀ s a s', Inv s → cond s a → step s a = .ok s' → Inv s') {s s' : σ} {as : List α}
    (hs : Inv s) (hm : Meets step cond s as) (hr : run step s as = .ok s') : Inv s' := by
  induction as generalizing s with
  | nil =>
    cases hr
    exact hs
  | cons a as ih =>
    obtain ⟨s₁,h₁,hrest⟩ := bind_eq_ok.mp hr
    exact ih (hstep s a s₁ hs hm.1 h₁) (hm.2 s₁ h₁) hrest

theorem meets_of_kept {Inv Bad : σ → Prop} {cond : σ → α → Prop}
    (hstep : ∀ s a s', Inv s → step s a = .ok s' → Inv s')
    (hbad : ∀ s a s', Inv s → ¬ cond s a → step s a = .ok s' → Bad s')
    (hkeep : ∀ s a s', Inv s ∧ Bad s → step s a = .ok s' → Inv s' ∧ Bad s')
    {s s' : σ} {as : List α} (hs : Inv s) (hr : run step s as = .ok s') (hgood : ¬ Bad s') :
    Meets step cond s as := by
  induction as generalizing s with
  | nil => exact trivial
  | cons a as ih =>
    obtain ⟨s₁,h₁,hrest⟩ := bind_eq_ok.mp hr
    have hinv := hstep s a s₁ hs h₁
    constructor
    · by_contra hc
      exact hgood (run_keeps hkeep ⟨hinv,hbad s a s₁ hs hc h₁⟩ hrest).2
    · intro s₂ h₂
      obtain rfl : s₁ = s₂ := Outcome.ok.inj (h₁.symm.trans h₂)
      exact ih hinv hrest

theorem run_keeps_trace (Inv : List α → σ → Prop)
    (hstep : ∀ pre s a s', Inv pre s → step s a = .ok s' → Inv (pre ++ [a]) s') {pre : List α}
    {s s' : σ} {as : List α} (hs : Inv pre s) (hr : run step s as = .ok s') :
    Inv (pre ++ as) s' := by
  induction as generalizing pre s with
  | nil =>
    cases hr
    rwa [List.append_nil]
  | cons a as ih =>
    obtain ⟨s₁,h₁,hrest⟩ := bind_eq_ok.mp hr
    have hnext := ih (hstep pre s a s₁ hs h₁) hrest
    rwa [List.append_assoc] at hnext

theorem run_all_keeps (Inv : σ → Prop) {good : α → Prop}
    (hstep : ∀ s a s', Inv s → good a → step s a = .ok s' → Inv s') {s s' : σ} {as : List α}
    (hs : Inv s) (hgood : ∀ a ∈ as, good a) (hr : run step s as = .ok s') : Inv s' :=
  run_meets_keeps hstep hs (meets_of_forall hgood) hr

def endsIn (p : σ → Bool) : Outcome σ → Bool
  | .ok s => p s
  | .error _ => false
  | .panic _ => false

theorem endsIn_eq_true {p : σ → Bool} {x : Outcome σ} :
    endsIn p x = true ↔ ∃ s, x = .ok s ∧ p s = true := by
  cases x with
  | ok s =>
    constructor
    · exact fun h => ⟨s,rfl,h⟩
    · rintro ⟨t,ht,h⟩
      obtain rfl := Outcome.ok.inj ht
      exact h
  | error e =>
    constructor
    · exact fun h => (nomatch h)
    · exact fun ⟨_,ht,_⟩ => (nomatch ht)
  | panic e =>
    constructor
    · exact fun h => (nomatch h)
    · exact fun ⟨_,ht,_⟩ => (nomatch ht)

def Happens (step : σ → α → Outcome σ) (Q : σ → α → Prop) (s : σ) (as : List α) : Prop :=
  ∃ pre a post t, as = pre ++ a :: post ∧ run step s pre = .ok t ∧ Q t a

theorem Happens.cons {Q : σ → α → Prop} {s s₁ : σ} {a : α} {as : List α} (ha : step s a = .ok s₁)
    (h : Happens step Q s₁ as) : Happens step Q s (a :: as) := by
  obtain ⟨pre,b,post,t,rfl,hrun,hq⟩ := h
  refine ⟨a :: pre,b,post,t,rfl,?_,hq⟩
  rw [run, ha]
  exact hrun

theorem run_snoc {s s₁ s₂ : σ} {as : List α} {a : α} (hr : run step s as = .ok s₁)
    (ha : step s₁ a = .ok s₂) : run step s (as ++ [a]) = .ok s₂ := by
  induction as generalizing s with
  | nil =>
    cases hr
    exact bind_eq_ok.mpr ⟨s₂,ha,rfl⟩
  | cons b as ih =>
    obtain ⟨t,hb,hrest⟩ := bind_eq_ok.mp hr
    exact bind_eq_ok.mpr ⟨t,hb,ih hrest⟩

theorem run_snoc_iff {s s₂ : σ} {as : List α} {a : α} :
    run step s (as ++ [a]) = .ok s₂ ↔ ∃ s₁, run step s as = .ok s₁ ∧ step s₁ a = .ok s₂ := by
  refine ⟨fun h => ?_,fun ⟨_,hr,ha⟩ => run_snoc hr ha⟩
  induction as generalizing s with
  | nil =>
    obtain ⟨t,ha,hrest⟩ := bind_eq_ok.mp h
    obtain rfl := Outcome.ok.inj hrest
    exact ⟨s,rfl,ha⟩
  | cons b as ih =>
    obtain ⟨t,hb,hrest⟩ := bind_eq_ok.mp h
    obtain ⟨s₁,hr,ha⟩ := ih hrest
    exact ⟨s₁,bind_eq_ok.mpr ⟨t,hb,hr⟩,ha⟩

theorem Happens.last {Q : σ → α → Prop} {s s₁ : σ} {as : List α} {a : α}
    (hr : run step s as = .ok s₁) (hq : Q s₁ a) : Happens step Q s (as ++ [a]) :=
  ⟨as,a,[],s₁,rfl,hr,hq⟩

theorem Happens.append {Q : σ → α → Prop} {s : σ} {as : List α} (h : Happens step Q s as)
    (bs : List α) : Happens step Q s (as ++ bs) := by
  obtain ⟨pre,a,post,t,rfl,hrun,ha⟩ := h
  exact ⟨pre,a,post ++ bs,t,by simp,hrun,ha⟩

theorem Happens.imp {Q Q' : σ → α → Prop} {s : σ} {as : List α} (h : Happens step Q s as)
    (hq : ∀ t a, Q t a → Q' t a) : Happens step Q' s as := by
  obtain ⟨pre,a,post,t,rfl,hrun,ha⟩ := h
  exact ⟨pre,a,post,t,rfl,hrun,hq t a ha⟩

theorem holds_unless {Inv P : σ → Prop} {Q : σ → α → Prop}
    (hstep : ∀ s a s', Inv s → step s a = .ok s' → Inv s' ∧ (P s → P s' ∨ Q s a)) {s s' : σ}
    {as : List α} (hs : Inv s) (hP : P s) (hr : run step s as = .ok s') :
    P s' ∨ Happens step Q s as := by
  induction as generalizing s with
  | nil =>
    cases hr
    exact Or.inl hP
  | cons a as ih =>
    obtain ⟨s₁,h₁,hrest⟩ := bind_eq_ok.mp hr
    obtain ⟨hinv,hnext⟩ := hstep s a s₁ hs h₁
    rcases hnext hP with hP' | hq
    · exact (ih hinv hP' hrest).imp_right (Happens.cons h₁)
    · exact Or.inr ⟨[],a,as,s,rfl,rfl,hq⟩

theorem kept_or_happens {I P : σ → Prop} {Q : σ → σ → α → Prop}
    (hkeeps : ∀ s a s', I s → step s a = .ok s' → I s')
    (hstep : ∀ s a s', I s → step s a = .ok s' → P s → P s' ∨ Q s' s a)
    (hgrow : ∀ s a s', I s → step s a = .ok s' → ∀ t b, Q s t b → Q s' t b) {s s' : σ}
    {as : List α} (hs : I s) (hP : P s) (hr : run step s as = .ok s') :
    P s' ∨ Happens step (Q s') s as := by
  induction as using List.reverseRecOn generalizing s' with
  | nil =>
    cases hr
    exact Or.inl hP
  | append_singleton as a ih =>
    obtain ⟨t,hrest,hlast⟩ := run_snoc_iff.mp hr
    have ht := run_keeps hkeeps hs hrest
    rcases ih hrest with hPt | hearlier
    · exact (hstep t a s' ht hlast hPt).imp_right (Happens.last hrest)
    · exact Or.inr ((hearlier.append [a]).imp (hgrow t a s' ht hlast))

end LiMaoIM.Run

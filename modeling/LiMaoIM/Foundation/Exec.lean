import LiMaoIM.Foundation.Outcome

namespace LiMaoIM

def Exec (σ α : Type) : Type := σ → Outcome α × σ

namespace Exec

variable {σ α β : Type}

def bind (x : Exec σ α) (f : α → Exec σ β) : Exec σ β := fun s =>
  match x s with
  | (.ok a,s') => f a s'
  | (.error e,s') => (.error e,s')
  | (.panic e,s') => (.panic e,s')

instance : Monad (Exec σ) where
  pure a := fun s => (.ok a,s)
  bind := bind

def lift (x : Outcome α) : Exec σ α := fun s => (x,s)

def get : Exec σ σ := fun s => (.ok s,s)

def state (f : σ → α × σ) : Exec σ α := fun s => (.ok (f s).1,(f s).2)

def ignoreError (d : α) (x : Exec σ α) : Exec σ α := fun s =>
  match x s with
  | (.error _,s') => (.ok d,s')
  | (.ok a,s') => (.ok a,s')
  | (.panic e,s') => (.panic e,s')

def attempt (x : Exec σ α) : Exec σ (Except String α) := fun s =>
  match x s with
  | (.ok a,s') => (.ok (.ok a),s')
  | (.error e,s') => (.ok (.error e),s')
  | (.panic e,s') => (.panic e,s')

def modify (f : σ → σ) : Exec σ Unit := fun s => (.ok (),f s)

variable {x : Exec σ α} {f : α → Exec σ β} {s s' : σ}

theorem bind_of_ok {a : α} (h : x s = (.ok a,s')) : (x >>= f) s = f a s' := by
  show bind x f s = _
  rw [bind, h]

theorem bind_of_error {e : String} (h : x s = (.error e,s')) : (x >>= f) s = (.error e,s') := by
  show bind x f s = _
  rw [bind, h]

theorem bind_of_panic {e : String} (h : x s = (.panic e,s')) : (x >>= f) s = (.panic e,s') := by
  show bind x f s = _
  rw [bind, h]

theorem bind_of_failed {r : Outcome α} (h : x s = (r,s')) (hr : ∀ a, r ≠ .ok a) :
    ((x >>= f) s).2 = s' := by
  cases r with
  | ok a => exact absurd rfl (hr a)
  | error e => rw [bind_of_error h]
  | panic e => rw [bind_of_panic h]

theorem lift_bind_failed {r : Outcome α} (hr : ∀ a, r ≠ .ok a) :
    ∃ r' : Outcome β, ((lift r : Exec σ α) >>= f) s = (r',s) ∧ ∀ b, r' ≠ .ok b := by
  cases r with
  | ok a => exact absurd rfl (hr a)
  | error e =>
    refine ⟨_,bind_of_error rfl,fun b h => ?_⟩
    cases h
  | panic e =>
    refine ⟨_,bind_of_panic rfl,fun b h => ?_⟩
    cases h

theorem bind_pure_state (b : β) : ((x >>= fun _ => pure b) s).2 = (x s).2 := by
  rcases hrun : x s with ⟨r,s'⟩
  cases r with
  | ok a => rw [bind_of_ok hrun]; rfl
  | error e => rw [bind_of_error hrun]
  | panic e => rw [bind_of_panic hrun]

theorem ignoreError_state (a : α) : (ignoreError a x s).2 = (x s).2 := by
  rcases hrun : x s with ⟨r,s'⟩
  rw [ignoreError, hrun]
  cases r with
  | ok a => rfl
  | error e => rfl
  | panic e => rfl

theorem attempt_of_ok {a : α} (h : x s = (.ok a,s')) : attempt x s = (.ok (.ok a),s') := by
  rw [attempt, h]

theorem attempt_of_error {e : String} (h : x s = (.error e,s')) :
    attempt x s = (.ok (.error e),s') := by
  rw [attempt, h]

theorem attempt_of_panic {e : String} (h : x s = (.panic e,s')) :
    attempt x s = (.panic e,s') := by
  rw [attempt, h]

@[simp] theorem pure_apply (a : α) : (pure a : Exec σ α) s = (.ok a,s) := rfl

@[simp] theorem lift_apply (y : Outcome α) : (lift y : Exec σ α) s = (y,s) := rfl

@[simp] theorem state_apply (f : σ → α × σ) : (state f : Exec σ α) s = (.ok (f s).1,(f s).2) := rfl

@[simp] theorem get_bind (f : σ → Exec σ β) : ((get : Exec σ σ) >>= f) s = f s s := rfl

@[simp] theorem modify_bind (g : σ → σ) (f : Unit → Exec σ β) :
    (modify g >>= f) s = f () (g s) := rfl

theorem lift_bind_fst {r : Outcome α} {g : α → Exec σ β}
    (h : ∀ a, r = .ok a → (f a s).1 = (g a s').1) :
    ((lift r >>= f) s).1 = ((lift r >>= g) s').1 := by
  cases r with
  | ok a => exact h a rfl
  | error e => rfl
  | panic e => rfl

theorem bind_fst (h : (x s).1 = (x s').1) (hf : ∀ a t t', (f a t).1 = (f a t').1) :
    ((x >>= f) s).1 = ((x >>= f) s').1 := by
  rcases hrun : x s with ⟨r,t⟩
  rcases hrun' : x s' with ⟨r',t'⟩
  rw [hrun, hrun'] at h
  obtain rfl : r = r' := h
  cases r with
  | ok a =>
    rw [bind_of_ok hrun, bind_of_ok hrun']
    exact hf a t t'
  | error e => rw [bind_of_error hrun, bind_of_error hrun']
  | panic e => rw [bind_of_panic hrun, bind_of_panic hrun']

theorem ignoreError_fst {d : α} (h : (x s).1 = (x s').1) :
    (ignoreError d x s).1 = (ignoreError d x s').1 := by
  rcases hrun : x s with ⟨r,t⟩
  rcases hrun' : x s' with ⟨r',t'⟩
  rw [hrun, hrun'] at h
  obtain rfl : r = r' := h
  rw [ignoreError, ignoreError, hrun, hrun']
  cases r with
  | ok a => rfl
  | error e => rfl
  | panic e => rfl

structure Ensures (x : Exec σ α) (s : σ) (I : σ → Prop) (Q : α → σ → Prop) : Prop where
  keeps : I (x s).2
  post : ∀ a, (x s).1 = .ok a → Q a (x s).2

section Rules

variable {I : σ → Prop} {Q : α → σ → Prop} {R : β → σ → Prop}

theorem Ensures.bind (hx : x.Ensures s I Q)
    (hf : ∀ a s', I s' → Q a s' → (f a).Ensures s' I R) : (x >>= f).Ensures s I R := by
  obtain ⟨hkeep,hpost⟩ := hx
  rcases hrun : x s with ⟨r,s'⟩
  rw [hrun] at hkeep hpost
  cases r with
  | ok a =>
    have hrest := hf a s' hkeep (hpost a rfl)
    constructor
    · rw [bind_of_ok hrun]
      exact hrest.keeps
    · rw [bind_of_ok hrun]
      exact hrest.post
  | error e =>
    have hstop : (x >>= f) s = (.error e,s') := bind_of_error hrun
    constructor
    · rw [hstop]
      exact hkeep
    · rw [hstop]
      intro a ha
      cases ha
  | panic e =>
    have hstop : (x >>= f) s = (.panic e,s') := bind_of_panic hrun
    constructor
    · rw [hstop]
      exact hkeep
    · rw [hstop]
      intro a ha
      cases ha

theorem Ensures.ignoreError {d : α} (hx : x.Ensures s I Q) (hd : ∀ s', I s' → Q d s') :
    (Exec.ignoreError d x).Ensures s I Q := by
  obtain ⟨hkeep,hpost⟩ := hx
  rcases hrun : x s with ⟨r,s'⟩
  rw [hrun] at hkeep hpost
  cases r with
  | ok a =>
    have hok : Exec.ignoreError d x s = (.ok a,s') := by rw [Exec.ignoreError, hrun]
    constructor
    · rw [hok]
      exact hkeep
    · rw [hok]
      exact hpost
  | error e =>
    have hok : Exec.ignoreError d x s = (.ok d,s') := by rw [Exec.ignoreError, hrun]
    constructor
    · rw [hok]
      exact hkeep
    · rw [hok]
      rintro a ⟨⟩
      exact hd s' hkeep
  | panic e =>
    have hstop : Exec.ignoreError d x s = (.panic e,s') := by rw [Exec.ignoreError, hrun]
    constructor
    · rw [hstop]
      exact hkeep
    · rw [hstop]
      rintro a ⟨⟩

theorem Ensures.attempt {S : Except String α → σ → Prop} (hx : x.Ensures s I Q)
    (hok : ∀ a s', I s' → Q a s' → S (.ok a) s') (herror : ∀ e s', I s' → S (.error e) s') :
    (Exec.attempt x).Ensures s I S := by
  obtain ⟨hkeep,hpost⟩ := hx
  rcases hrun : x s with ⟨r,s'⟩
  rw [hrun] at hkeep hpost
  cases r with
  | ok a =>
    have hdone := attempt_of_ok hrun
    constructor
    · rw [hdone]
      exact hkeep
    · rw [hdone]
      rintro b ⟨⟩
      exact hok a s' hkeep (hpost a rfl)
  | error e =>
    have hdone := attempt_of_error hrun
    constructor
    · rw [hdone]
      exact hkeep
    · rw [hdone]
      rintro b ⟨⟩
      exact herror e s' hkeep
  | panic e =>
    have hdone := attempt_of_panic hrun
    constructor
    · rw [hdone]
      exact hkeep
    · rw [hdone]
      rintro b ⟨⟩

theorem Ensures.lift {y : Outcome α} (hs : I s) (hy : ∀ a, y = .ok a → Q a s) :
    (Exec.lift y : Exec σ α).Ensures s I Q :=
  ⟨hs,hy⟩

theorem Ensures.get_bind {g : σ → Exec σ β} (h : (g s).Ensures s I R) :
    ((get : Exec σ σ) >>= g).Ensures s I R := by
  constructor
  · rw [Exec.get_bind]
    exact h.keeps
  · rw [Exec.get_bind]
    exact h.post

theorem Ensures.pure {a : α} (hs : I s) (ha : Q a s) : (Pure.pure a : Exec σ α).Ensures s I Q := by
  refine ⟨hs,fun b hb => ?_⟩
  cases hb
  exact ha

end Rules

section Exits

def Returns (x : Exec σ α) : Prop := ∀ s e, (x s).1 ≠ .panic e

def Succeeds (x : Exec σ α) : Prop := ∀ s, ∃ a s', x s = (.ok a,s')

theorem Succeeds.returns (hx : Succeeds x) : Returns x := by
  intro s e he
  obtain ⟨a,s',hrun⟩ := hx s
  rw [hrun] at he
  cases he

theorem Succeeds.pure (a : α) : Succeeds (Pure.pure a : Exec σ α) := fun s => ⟨a,s,rfl⟩

theorem Succeeds.get : Succeeds (Exec.get : Exec σ σ) := fun s => ⟨s,s,rfl⟩

theorem Succeeds.modify (g : σ → σ) : Succeeds (Exec.modify g) := fun s => ⟨(),g s,rfl⟩

theorem Succeeds.bind (hx : Succeeds x) (hf : ∀ a, Succeeds (f a)) : Succeeds (x >>= f) := by
  intro s
  obtain ⟨a,s',hrun⟩ := hx s
  obtain ⟨b,s'',hrest⟩ := hf a s'
  exact ⟨b,s'',(bind_of_ok hrun).trans hrest⟩

theorem Returns.attempt (hx : Returns x) : Succeeds (Exec.attempt x) := by
  intro s
  rcases hrun : x s with ⟨r,s'⟩
  cases r with
  | ok a => exact ⟨.ok a,s',attempt_of_ok hrun⟩
  | error e => exact ⟨.error e,s',attempt_of_error hrun⟩
  | panic e =>
    have hpanic := hx s e
    rw [hrun] at hpanic
    exact absurd rfl hpanic

theorem Returns.error (e : String) : Returns (Exec.lift (.error e) : Exec σ α) := by
  intro s e' he
  cases he

theorem Returns.bind (hx : Returns x) (hf : ∀ a, Returns (f a)) : Returns (x >>= f) := by
  intro s e
  rcases hrun : x s with ⟨r,s'⟩
  cases r with
  | ok a =>
    rw [bind_of_ok hrun]
    exact hf a s' e
  | error e' =>
    rw [bind_of_error hrun]
    intro he
    cases he
  | panic e' =>
    have hpanic := hx s e'
    rw [hrun] at hpanic
    exact absurd rfl hpanic

theorem Returns.ignoreError (a : α) (hx : Returns x) : Succeeds (Exec.ignoreError a x) := by
  intro s
  rcases hrun : x s with ⟨r,s'⟩
  rw [Exec.ignoreError, hrun]
  cases r with
  | ok b => exact ⟨b,s',rfl⟩
  | error e => exact ⟨a,s',rfl⟩
  | panic e =>
    have hpanic := hx s e
    rw [hrun] at hpanic
    exact absurd rfl hpanic

theorem attempt_bind {g : Except String α → Exec σ β} (hx : ∀ s e, (x s).1 ≠ .error e) :
    (Exec.attempt x >>= g) = x >>= fun a => g (.ok a) := by
  funext s
  rcases hrun : x s with ⟨r,s'⟩
  cases r with
  | ok a => rw [bind_of_ok (attempt_of_ok hrun), bind_of_ok hrun]
  | error e =>
    have herror := hx s e
    rw [hrun] at herror
    exact absurd rfl herror
  | panic e => rw [bind_of_panic (attempt_of_panic hrun), bind_of_panic hrun]

end Exits

def Leaves (view : σ → β) (x : Exec σ α) : Prop := ∀ s, view (x s).2 = view s

section Frame

variable {γ : Type} {view : σ → γ} {x : Exec σ α} {f : α → Exec σ β}

theorem Leaves.pure (a : α) : Leaves view (Pure.pure a : Exec σ α) := fun _ => rfl

theorem Leaves.lift (y : Outcome α) : Leaves view (Exec.lift y) := fun _ => rfl

theorem Leaves.modify {g : σ → σ} (hg : ∀ s, view (g s) = view s) : Leaves view (Exec.modify g) :=
  hg

theorem Leaves.get_bind {g : σ → Exec σ β} (hg : ∀ s, Leaves view (g s)) :
    Leaves view (Exec.get >>= g) := fun s => hg s s

theorem Leaves.bind (hx : Leaves view x) (hf : ∀ a, Leaves view (f a)) : Leaves view (x >>= f) := by
  intro s
  have hs := hx s
  rcases hrun : x s with ⟨r,s'⟩
  rw [hrun] at hs
  cases r with
  | ok a =>
    rw [bind_of_ok hrun]
    exact (hf a s').trans hs
  | error e =>
    rw [bind_of_error hrun]
    exact hs
  | panic e =>
    rw [bind_of_panic hrun]
    exact hs

theorem Leaves.attempt (hx : Leaves view x) : Leaves view (Exec.attempt x) := by
  intro s
  have hs := hx s
  rcases hrun : x s with ⟨r,s'⟩
  rw [hrun] at hs
  cases r with
  | ok a =>
    rw [attempt_of_ok hrun]
    exact hs
  | error e =>
    rw [attempt_of_error hrun]
    exact hs
  | panic e =>
    rw [attempt_of_panic hrun]
    exact hs

end Frame

def Appends (view : σ → List β) (x : Exec σ α) (P : β → Prop) : Prop :=
  ∀ s, view (x s).2 = view s ∨ ∃ b, P b ∧ view (x s).2 = view s ++ [b]

section Append

variable {γ : Type} {view : σ → List γ} {P : γ → Prop} {x : Exec σ α} {f : α → Exec σ β}

theorem Leaves.appends (h : Leaves view x) : Appends view x P := fun s => Or.inl (h s)

theorem Leaves.bind_appends (hx : Leaves view x) (hf : ∀ a, Appends view (f a) P) :
    Appends view (x >>= f) P := by
  intro s
  have hs := hx s
  rcases hrun : x s with ⟨r,s'⟩
  rw [hrun] at hs
  cases r with
  | ok a =>
    rw [bind_of_ok hrun,← hs]
    exact hf a s'
  | error e =>
    rw [bind_of_error hrun]
    exact Or.inl hs
  | panic e =>
    rw [bind_of_panic hrun]
    exact Or.inl hs

theorem Appends.bind_leaves (hx : Appends view x P) (hf : ∀ a, Leaves view (f a)) :
    Appends view (x >>= f) P := by
  intro s
  have hs := hx s
  rcases hrun : x s with ⟨r,s'⟩
  rw [hrun] at hs
  cases r with
  | ok a =>
    have hrest : view (f a s').2 = view s' := hf a s'
    rw [bind_of_ok hrun,hrest]
    exact hs
  | error e =>
    rw [bind_of_error hrun]
    exact hs
  | panic e =>
    rw [bind_of_panic hrun]
    exact hs

theorem Appends.ignoreError {a : α} (hx : Appends view x P) :
    Appends view (Exec.ignoreError a x) P := by
  intro s
  rw [ignoreError_state]
  exact hx s

theorem Appends.attempt (hx : Appends view x P) : Appends view (Exec.attempt x) P := by
  intro s
  have hs := hx s
  rcases hrun : x s with ⟨r,s'⟩
  rw [hrun] at hs
  cases r with
  | ok a =>
    rw [attempt_of_ok hrun]
    exact hs
  | error e =>
    rw [attempt_of_error hrun]
    exact hs
  | panic e =>
    rw [attempt_of_panic hrun]
    exact hs

theorem Appends.imp {P' : γ → Prop} (hx : Appends view x P) (h : ∀ c, P c → P' c) :
    Appends view x P' := fun s => (hx s).imp_right fun ⟨c,hc,heq⟩ => ⟨c,h c hc,heq⟩

end Append

end Exec
end LiMaoIM

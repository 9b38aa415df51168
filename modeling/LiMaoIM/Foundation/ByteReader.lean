import LiMaoIM.Foundation.Bytes

namespace LiMaoIM

open Outcome

def ByteReader (α : Type) : Type := Bytes → Outcome (α × Bytes)

namespace ByteReader

variable {α β : Type}

instance : Monad ByteReader where
  pure a := fun bs => .ok (a,bs)
  bind r f := fun bs => r bs >>= fun p => f p.1 p.2

def wrap (msg : String) (r : ByteReader α) : ByteReader α := fun bs =>
  (r bs).mapError (fun e => msg ++ ": " ++ e)

def when (c : Prop) [Decidable c] (d : α) (r : ByteReader α) : ByteReader α :=
  if c then r else pure d

def lift (x : Outcome α) : ByteReader α := fun bs => x >>= fun a => .ok (a,bs)

theorem bind_apply (r : ByteReader α) (f : α → ByteReader β) (bs : Bytes) :
    (r >>= f) bs = r bs >>= fun p => f p.1 p.2 := rfl

@[simp] theorem pure_apply (a : α) (bs : Bytes) : (pure a : ByteReader α) bs = .ok (a,bs) := rfl

theorem bind_eq_ok {r : ByteReader α} {f : α → ByteReader β} {bs rest : Bytes} {b : β} :
    (r >>= f) bs = .ok (b,rest) ↔ ∃ a mid, r bs = .ok (a,mid) ∧ f a mid = .ok (b,rest) := by
  simp only [bind_apply, Outcome.bind_eq_ok, Prod.exists]

theorem wrap_eq_ok {msg : String} {r : ByteReader α} {bs : Bytes} {p : α × Bytes} :
    wrap msg r bs = .ok p ↔ r bs = .ok p := mapError_eq_ok

def Reads (r : ByteReader α) (bs : Bytes) (a : α) : Prop :=
  ∀ rest, r (bs ++ rest) = .ok (a,rest)

def Finishes (r : ByteReader α) (bs : Bytes) (a : α) : Prop := r bs = .ok (a,[])

theorem reads_pure (a : α) : Reads (pure a) [] a := fun _ => rfl

theorem reads_lift {x : Outcome α} {a : α} (h : x = .ok a) : Reads (lift x) [] a := by
  intro rest
  rw [lift, h]
  rfl

theorem Reads.bind {r : ByteReader α} {f : α → ByteReader β} {bs bs' : Bytes} {a : α} {b : β}
    (h : Reads r bs a) (h' : Reads (f a) bs' b) : Reads (r >>= f) (bs ++ bs') b := by
  intro rest
  rw [List.append_assoc, bind_apply, h]
  exact h' rest

theorem Reads.andThen {r : ByteReader α} {f : α → ByteReader β} {bs : Bytes} {a : α} {b : β}
    (h : Reads r bs a) (h' : Reads (f a) [] b) : Reads (r >>= f) bs b := by
  simpa using h.bind h'

theorem Reads.wrap {r : ByteReader α} {bs : Bytes} {a : α} (msg : String) (h : Reads r bs a) :
    Reads (wrap msg r) bs a := fun rest => wrap_eq_ok.mpr (h rest)

theorem Reads.when {r : ByteReader α} {bs : Bytes} {a d : α} {c : Prop} [Decidable c]
    (h : c → Reads r bs a) :
    Reads (when c d r) (if c then bs else []) (if c then a else d) := by
  unfold ByteReader.when
  by_cases hc : c
  · simpa only [hc, if_true] using h hc
  · simpa only [hc, if_false] using reads_pure d

theorem Finishes.bind {r : ByteReader α} {f : α → ByteReader β} {bs bs' : Bytes} {a : α} {b : β}
    (h : Reads r bs a) (h' : Finishes (f a) bs' b) : Finishes (r >>= f) (bs ++ bs') b := by
  rw [Finishes, bind_apply, h]
  exact h'

theorem Finishes.wrap {r : ByteReader α} {bs : Bytes} {a : α} (msg : String)
    (h : Finishes r bs a) : Finishes (wrap msg r) bs a := wrap_eq_ok.mpr h

theorem Reads.finishes {r : ByteReader α} {bs : Bytes} {a : α} (h : Reads r bs a) :
    Finishes r bs a := by simpa [Finishes] using h []

theorem Finishes.map {r : ByteReader α} {bs : Bytes} {a : α} (g : α → β) (h : Finishes r bs a) :
    Finishes (r >>= fun x => pure (g x)) bs (g a) := by
  rw [Finishes, bind_apply, h]
  rfl

inductive Field where
  | fixed (n : Nat)
  | counted
  | rest
deriving DecidableEq, Repr

inductive Advance where
  | negative
  | short
  | next (rest : Bytes)

def Field.advance : Field → Bytes → Advance
  | .fixed n, bs => if bs.length < n then .short else .next (bs.drop n)
  | .counted, bs =>
      if bs.length < 2 then .short
      else if 2 ^ 15 ≤ Bytes.uint (bs.take 2) then .negative
      else if bs.length < 2 + Bytes.uint (bs.take 2) then .short
      else .next (bs.drop (2 + Bytes.uint (bs.take 2)))
  | .rest, _ => .next []

def reachesNegative : List Field → Bytes → Bool
  | [], _ => false
  | k :: ks, bs => match k.advance bs with
      | .negative => true
      | .short => false
      | .next rest => reachesNegative ks rest

def Follows (r : ByteReader α) (k : Field) : Prop := ∀ bs, match k.advance bs with
  | .negative => (r bs).Panics
  | .short => ∃ e, r bs = .error e
  | .next rest => ∃ a, r bs = .ok (a,rest)

def HasLayout (r : ByteReader α) (ks : List Field) : Prop :=
  ∀ bs, (r bs).Panics ↔ reachesNegative ks bs = true

theorem Follows.wrap {r : ByteReader α} {k : Field} (msg : String) (h : Follows r k) :
    Follows (wrap msg r) k := by
  intro bs
  have hb := h bs
  split <;> rename_i hk <;> rw [hk] at hb
  · obtain ⟨e,he⟩ := hb
    exact ⟨e,by simp only [ByteReader.wrap, he, mapError]⟩
  · obtain ⟨e,he⟩ := hb
    exact ⟨msg ++ ": " ++ e,by simp only [ByteReader.wrap, he, mapError]⟩
  · obtain ⟨a,ha⟩ := hb
    exact ⟨a,wrap_eq_ok.mpr ha⟩

theorem Follows.map {r : ByteReader α} {k : Field} (g : α → β) (h : Follows r k) :
    Follows (r >>= fun a => pure (g a)) k := by
  intro bs
  have hb := h bs
  rw [bind_apply]
  split <;> rename_i hk <;> rw [hk] at hb
  · obtain ⟨e,he⟩ := hb
    exact ⟨e,by rw [he, panic_bind]⟩
  · obtain ⟨e,he⟩ := hb
    exact ⟨e,by rw [he, error_bind]⟩
  · obtain ⟨a,ha⟩ := hb
    exact ⟨g a,by rw [ha, ok_bind, pure_apply]⟩

theorem hasLayout_pure (a : α) : HasLayout (pure a) [] := by
  intro bs
  simp [Panics, reachesNegative]

theorem Follows.bind {r : ByteReader α} {f : α → ByteReader β} {k : Field} {ks : List Field}
    (h : Follows r k) (hf : ∀ a, HasLayout (f a) ks) : HasLayout (r >>= f) (k :: ks) := by
  intro bs
  have hb := h bs
  rw [bind_apply, bind_panics, reachesNegative]
  cases hk : k.advance bs with
  | negative =>
    rw [hk] at hb
    simp only [iff_true]
    exact Or.inl hb
  | short =>
    rw [hk] at hb
    obtain ⟨e,he⟩ := hb
    simp [he, Panics]
  | next rest =>
    rw [hk] at hb
    obtain ⟨a,ha⟩ := hb
    simpa [ha, Panics] using hf a rest

theorem Follows.bind_when {r : ByteReader α} {f : α → ByteReader β} {k : Field}
    {ks : List Field} {c : Prop} [Decidable c] {d : α} (h : Follows r k)
    (hf : ∀ a, HasLayout (f a) ks) :
    HasLayout (when c d r >>= f) ((if c then [k] else []) ++ ks) := by
  unfold ByteReader.when
  by_cases hc : c
  · rw [if_pos hc, if_pos hc]
    exact h.bind hf
  · rw [if_neg hc, if_neg hc]
    exact hf d

end ByteReader
end LiMaoIM

import LiMaoIM.Foundation.Assoc
import LiMaoIM.Foundation.Pool
import LiMaoIM.Foundation.RWMutex

namespace LiMaoIM.Util

structure InnerLock where
  count : Int
  locked : Bool
deriving DecidableEq

namespace InnerLock

def new : InnerLock := ⟨0,false⟩

def add (il : InnerLock) : InnerLock := { il with count := il.count + 1 }

def done (il : InnerLock) : InnerLock := { il with count := il.count - 1 }

def lock (il : InnerLock) : Option InnerLock :=
  if il.locked then none else some { il with locked := true }

def unlock (il : InnerLock) : Option InnerLock :=
  if il.locked then some { il with locked := false } else none

theorem lock_eq_some {il il' : InnerLock} (h : il.lock = some il') :
    il = ⟨il.count,false⟩ ∧ il' = ⟨il.count,true⟩ := by
  rcases il with ⟨count,locked⟩
  cases locked with
  | false => exact ⟨rfl,(Option.some.inj h).symm⟩
  | true => cases h

theorem unlock_locked {il : InnerLock} (h : 0 < il.locked.toNat) :
    il = ⟨il.count,true⟩ ∧ il.unlock = some ⟨il.count,false⟩ := by
  rcases il with ⟨count,locked⟩
  cases locked with
  | false => exact absurd h (Nat.lt_irrefl 0)
  | true => exact ⟨rfl,rfl⟩

end InnerLock

structure KeyLock (κ : Type) where
  locks : List (κ × Nat)
  inner : Nat → InnerLock
  allocated : Nat
  mutex : RWMutex

inductive Pc (κ : Type) where
  | idle
  | lockRLock (key : κ)
  | lockLookup (key : κ)
  | lockAdd (key : κ) (keyLock : Nat)
  | lockRUnlock (key : κ) (keyLock : Option Nat)
  | lockLock (key : κ)
  | lockLookupAgain (key : κ)
  | lockAddNew (key : κ) (keyLock : Nat)
  | lockUnlock (key : κ) (keyLock : Nat)
  | acquire (key : κ) (keyLock : Nat)
  | unlockRLock (key : κ) (own : Nat)
  | unlockLookup (key : κ) (own : Nat)
  | unlockDone (key : κ) (own keyLock : Nat)
  | unlockRUnlock (own : Nat) (keyLock : Option Nat)
  | release (own keyLock : Nat)
  | cleanLock
  | cleanRange (rest : List κ)
  | fatal

structure Goroutine (κ : Type) where
  pc : Pc κ
  held : List (κ × Nat)

inductive Choice (κ : Type) where
  | lock (key : κ)
  | unlock (key : κ)
  | clean
  | proceed
  | visit (key : κ)

namespace KeyLock

variable {κ : Type} [DecidableEq κ]

def newKeyLock : KeyLock κ := ⟨[],fun _ => .new,0,.unlocked⟩

def update (l : KeyLock κ) (p : Nat) (f : InnerLock → InnerLock) : KeyLock κ :=
  { l with inner := Function.update l.inner p (f (l.inner p)) }

def newInnerLock (l : KeyLock κ) (key : κ) : KeyLock κ :=
  { l with
    locks := Assoc.put key l.allocated l.locks
    inner := Function.update l.inner l.allocated .new
    allocated := l.allocated + 1 }

def proceed (l : KeyLock κ) (g : Goroutine κ) : Option (KeyLock κ × Goroutine κ) :=
  match g.pc with
  | .idle => none
  | .lockRLock key =>
      l.mutex.rLock.map fun m => ({ l with mutex := m },{ g with pc := .lockLookup key })
  | .lockLookup key =>
      match Assoc.get key l.locks with
      | some keyLock => some (l,{ g with pc := .lockAdd key keyLock })
      | none => some (l,{ g with pc := .lockRUnlock key none })
  | .lockAdd key keyLock =>
      some (l.update keyLock .add,{ g with pc := .lockRUnlock key (some keyLock) })
  | .lockRUnlock key (some keyLock) =>
      some ({ l with mutex := l.mutex.rUnlock },{ g with pc := .acquire key keyLock })
  | .lockRUnlock key none =>
      some ({ l with mutex := l.mutex.rUnlock },{ g with pc := .lockLock key })
  | .lockLock key =>
      l.mutex.lock.map fun m => ({ l with mutex := m },{ g with pc := .lockLookupAgain key })
  | .lockLookupAgain key =>
      match Assoc.get key l.locks with
      | some keyLock => some (l,{ g with pc := .lockAddNew key keyLock })
      | none => some (l.newInnerLock key,{ g with pc := .lockAddNew key l.allocated })
  | .lockAddNew key keyLock =>
      some (l.update keyLock .add,{ g with pc := .lockUnlock key keyLock })
  | .lockUnlock key keyLock =>
      some ({ l with mutex := l.mutex.unlock },{ g with pc := .acquire key keyLock })
  | .acquire key keyLock =>
      (l.inner keyLock).lock.map fun il =>
        (l.update keyLock fun _ => il,⟨.idle,(key,keyLock) :: g.held⟩)
  | .unlockRLock key own =>
      l.mutex.rLock.map fun m => ({ l with mutex := m },{ g with pc := .unlockLookup key own })
  | .unlockLookup key own =>
      match Assoc.get key l.locks with
      | some keyLock => some (l,{ g with pc := .unlockDone key own keyLock })
      | none => some (l,{ g with pc := .unlockRUnlock own none })
  | .unlockDone _ own keyLock =>
      some (l.update keyLock .done,{ g with pc := .unlockRUnlock own (some keyLock) })
  | .unlockRUnlock own (some keyLock) =>
      some ({ l with mutex := l.mutex.rUnlock },{ g with pc := .release own keyLock })
  | .unlockRUnlock _ none => some ({ l with mutex := l.mutex.rUnlock },{ g with pc := .idle })
  | .release _ keyLock =>
      match (l.inner keyLock).unlock with
      | some il => some (l.update keyLock fun _ => il,{ g with pc := .idle })
      | none => some (l,{ g with pc := .fatal })
  | .cleanLock =>
      l.mutex.lock.map fun m =>
        ({ l with mutex := m },{ g with pc := .cleanRange (Assoc.keys l.locks) })
  | .cleanRange [] => some ({ l with mutex := l.mutex.unlock },{ g with pc := .idle })
  | .cleanRange (_ :: _) => none
  | .fatal => none

def visit (l : KeyLock κ) (key : κ) : KeyLock κ :=
  match Assoc.get key l.locks with
  | some v => if (l.inner v).count = 0 then { l with locks := Assoc.erase key l.locks } else l
  | none => l

def step (l : KeyLock κ) (g : Goroutine κ) : Choice κ → Option (KeyLock κ × Goroutine κ)
  | .lock key =>
      match g.pc with
      | .idle => some (l,{ g with pc := .lockRLock key })
      | _ => none
  | .unlock key =>
      match g.pc, Assoc.get key g.held with
      | .idle, some own => some (l,⟨.unlockRLock key own,g.held.erase (key,own)⟩)
      | _, _ => none
  | .clean =>
      match g.pc with
      | .idle => some (l,{ g with pc := .cleanLock })
      | _ => none
  | .proceed => l.proceed g
  | .visit key =>
      match g.pc with
      | .cleanRange rest =>
          if key ∈ rest then some (l.visit key,{ g with pc := .cleanRange (rest.erase key) })
          else none
      | _ => none

variable {l l' : KeyLock κ} {g g' : Goroutine κ}

theorem proceed_locks (h : l.proceed g = some (l',g')) : l'.locks = l.locks ∨
    ∃ key, Assoc.get key l.locks = none ∧ l'.locks = Assoc.put key l.allocated l.locks := by
  rcases g with ⟨pc,held⟩
  cases pc with
  | idle | fatal => cases h
  | lockRLock | lockLock | unlockRLock | cleanLock | acquire =>
    obtain ⟨_,-,heq⟩ := Option.map_eq_some_iff.mp h
    obtain ⟨rfl,-⟩ := Prod.mk.inj heq
    exact Or.inl rfl
  | lockAdd | lockAddNew | lockUnlock | unlockDone =>
    obtain ⟨rfl,-⟩ := Prod.mk.inj (Option.some.inj h)
    exact Or.inl rfl
  | lockRUnlock _ keyLock | unlockRUnlock _ keyLock =>
    cases keyLock with
    | none | some =>
      obtain ⟨rfl,-⟩ := Prod.mk.inj (Option.some.inj h)
      exact Or.inl rfl
  | lockLookup | unlockLookup | release =>
    simp only [proceed] at h
    split at h
    all_goals
      obtain ⟨rfl,-⟩ := Prod.mk.inj (Option.some.inj h)
      exact Or.inl rfl
  | lockLookupAgain key =>
    simp only [proceed] at h
    split at h
    · obtain ⟨rfl,-⟩ := Prod.mk.inj (Option.some.inj h)
      exact Or.inl rfl
    · rename_i hget
      obtain ⟨rfl,-⟩ := Prod.mk.inj (Option.some.inj h)
      exact Or.inr ⟨key,hget,rfl⟩
  | cleanRange rest =>
    cases rest with
    | nil =>
      obtain ⟨rfl,-⟩ := Prod.mk.inj (Option.some.inj h)
      exact Or.inl rfl
    | cons => cases h

theorem removed_idle {choice : Choice κ} {key : κ} {p : Nat}
    (h : l.step g choice = some (l',g')) (hget : Assoc.get key l.locks = some p)
    (hlost : Assoc.get key l'.locks ≠ some p) :
    (∃ rest, g.pc = .cleanRange rest) ∧ (l.inner p).count = 0 := by
  rcases g with ⟨pc,held⟩
  cases choice with
  | lock | clean =>
    cases pc with
    | idle =>
      obtain ⟨rfl,-⟩ := Prod.mk.inj (Option.some.inj h)
      exact absurd hget hlost
    | _ => cases h
  | unlock k =>
    cases pc with
    | idle =>
      simp only [step] at h
      cases hown : Assoc.get k held with
      | none => simp [hown] at h
      | some own =>
        simp only [hown, Option.some.injEq, Prod.mk.injEq] at h
        exact absurd (h.1 ▸ hget) hlost
    | _ => cases h
  | proceed =>
    rcases proceed_locks h with heq | ⟨k,hnone,heq⟩
    · exact absurd (heq ▸ hget) hlost
    · rw [heq, Assoc.get_put_ne (by rintro rfl; simp [hnone] at hget)] at hlost
      exact absurd hget hlost
  | visit k =>
    cases pc with
    | cleanRange rest =>
      refine ⟨⟨rest,rfl⟩,?_⟩
      simp only [step] at h
      split at h
      · obtain ⟨rfl,-⟩ := Prod.mk.inj (Option.some.inj h)
        rw [visit] at hlost
        split at hlost
        · rename_i v hv
          split at hlost
          · rename_i hzero
            rcases eq_or_ne key k with rfl | hne
            · rwa [← Option.some.inj (hv.symm.trans hget)]
            · exact absurd ((Assoc.get_erase_ne hne).trans hget) hlost
          · exact absurd hget hlost
        · exact absurd hget hlost
      · cases h
    | _ => cases h

end KeyLock

end LiMaoIM.Util

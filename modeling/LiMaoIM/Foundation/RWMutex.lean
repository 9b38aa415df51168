import Mathlib.Tactic

namespace LiMaoIM

structure RWMutex where
  readers : Nat
  writer : Bool
deriving DecidableEq

namespace RWMutex

def unlocked : RWMutex := ⟨0,false⟩

def rLock (m : RWMutex) : Option RWMutex :=
  if m.writer then none else some { m with readers := m.readers + 1 }

def rUnlock (m : RWMutex) : RWMutex := { m with readers := m.readers - 1 }

def lock (m : RWMutex) : Option RWMutex :=
  if m.writer ∨ m.readers ≠ 0 then none else some { m with writer := true }

def unlock (m : RWMutex) : RWMutex := { m with writer := false }

structure Held (m : RWMutex) (reading writing : Nat) : Prop where
  readers : m.readers = reading
  writer : m.writer.toNat = writing
  apart : reading = 0 ∨ writing = 0

variable {m m' : RWMutex} {reading writing : Nat}

theorem held_unlocked : unlocked.Held 0 0 := ⟨rfl,rfl,Or.inl rfl⟩

theorem Held.writing_le (h : m.Held reading writing) : writing ≤ 1 :=
  h.writer ▸ Bool.toNat_le m.writer

theorem Held.rLock (h : m.Held reading writing) (hlock : m.rLock = some m') :
    m'.Held (reading + 1) writing := by
  rw [RWMutex.rLock] at hlock
  split at hlock
  · cases hlock
  · rename_i hfree
    obtain rfl := Option.some.inj hlock
    have hnone : writing = 0 := by
      rw [← h.writer, Bool.eq_false_of_not_eq_true hfree]
      rfl
    exact ⟨congrArg (· + 1) h.readers,h.writer,Or.inr hnone⟩

theorem Held.rUnlock (h : m.Held (reading + 1) writing) : m.rUnlock.Held reading writing := by
  refine ⟨?_,h.writer,?_⟩
  · rw [RWMutex.rUnlock, h.readers, Nat.add_sub_cancel]
  · rcases h.apart with hr | hw
    · omega
    · exact Or.inr hw

theorem Held.lock (h : m.Held reading writing) (hlock : m.lock = some m') :
    m'.Held reading (writing + 1) := by
  rw [RWMutex.lock] at hlock
  split at hlock
  · cases hlock
  · rename_i hfree
    obtain ⟨hwriter,hreaders⟩ := not_or.mp hfree
    obtain rfl := Option.some.inj hlock
    have hnone : writing = 0 := by
      rw [← h.writer, Bool.eq_false_of_not_eq_true hwriter]
      rfl
    refine ⟨h.readers,?_,Or.inl ?_⟩
    · rw [hnone]
      rfl
    · rw [← h.readers, not_not.mp hreaders]

theorem Held.unlock (h : m.Held reading (writing + 1)) : m.unlock.Held reading writing := by
  have hle := h.writing_le
  obtain rfl : writing = 0 := by omega
  refine ⟨h.readers,rfl,Or.inr rfl⟩

end RWMutex
end LiMaoIM

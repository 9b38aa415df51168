import Mathlib.Data.List.Basic

namespace LiMaoIM.Separator

variable {α : Type} {s : α} {p q : List α × List α}

def join (s : α) (p : List α × List α) : List α := p.1 ++ s :: p.2

def Cut (s : α) (p q : List α × List α) : Prop := ∃ m, q.1 = p.1 ++ s :: m ∧ p.2 = m ++ s :: q.2

theorem Cut.join_eq (h : Cut s p q) : join s p = join s q := by
  obtain ⟨m,hq,hp⟩ := h
  simp [join, hq, hp]

theorem join_eq_iff : join s p = join s q ↔ p = q ∨ Cut s p q ∨ Cut s q p := by
  constructor
  · intro h
    rcases List.append_eq_append_iff.mp h with ⟨x,hq,hx⟩ | ⟨x,hp,hx⟩
    · cases x with
      | nil => exact Or.inl (Prod.ext (by simpa using hq.symm) (by simpa using hx))
      | cons b m =>
        obtain ⟨rfl,hm⟩ := List.cons.inj hx
        exact Or.inr (Or.inl ⟨m,hq,hm⟩)
    · cases x with
      | nil => exact Or.inl (Prod.ext (by simpa using hp) (by simpa using hx.symm))
      | cons b m =>
        obtain ⟨rfl,hm⟩ := List.cons.inj hx
        exact Or.inr (Or.inr ⟨m,hp,hm⟩)
  · rintro (rfl | h | h)
    · rfl
    · exact h.join_eq
    · exact h.join_eq.symm

theorem Cut.mem_fst (h : Cut s p q) : s ∈ q.1 := by
  obtain ⟨m,hq,-⟩ := h
  simp [hq]

theorem splitOn_join [BEq α] [LawfulBEq α] (p : List α × List α) :
    (join s p).splitOn s = p.1.splitOn s ++ p.2.splitOn s :=
  List.splitOn_append_cons_self p.1 p.2

theorem not_mem_of_mem_splitOn [BEq α] [LawfulBEq α] {l part : List α}
    (h : part ∈ l.splitOn s) : s ∉ part := by
  induction l generalizing part with
  | nil =>
    obtain rfl : part = [] := by simpa using h
    exact List.not_mem_nil
  | cons b l ih =>
    rw [List.splitOn_cons_eq_if_modifyHead] at h
    split at h
    · rcases List.mem_cons.mp h with rfl | h
      · exact List.not_mem_nil
      · exact ih h
    · rename_i hb
      obtain ⟨part₀,parts,hsplit⟩ := List.exists_cons_of_ne_nil (List.splitOn_ne_nil s l)
      rw [hsplit, List.modifyHead_cons] at h
      rcases List.mem_cons.mp h with rfl | h
      · have hpart := ih (hsplit ▸ List.mem_cons_self : part₀ ∈ l.splitOn s)
        have hne : s ≠ b := fun heq => hb (by simp [heq])
        simp [hpart, hne]
      · exact ih (hsplit ▸ List.mem_cons_of_mem _ h)

end LiMaoIM.Separator

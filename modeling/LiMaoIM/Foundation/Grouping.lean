import Mathlib.Data.List.Basic
import Mathlib.Data.List.Nodup

namespace LiMaoIM.Grouping

variable {α γ κ : Type} [DecidableEq κ] (key : γ → κ)

def upsert (k : κ) (grow : γ → γ) (new : γ) : List γ → List γ
  | [] => [new]
  | g :: gs => if key g = k then grow g :: gs else g :: upsert k grow new gs

structure Groups (members : γ → List α) (keyOf : α → κ) (as : List α) (gs : List γ) : Prop where
  distinct : (gs.map key).Nodup
  members_eq : ∀ g ∈ gs, members g = as.filter fun a => keyOf a = key g
  nonempty : ∀ g ∈ gs, members g ≠ []
  covered : ∀ a ∈ as, ∃ g ∈ gs, key g = keyOf a
  once : (gs.flatMap members).Perm as

variable {key} {members : γ → List α} {keyOf : α → κ} {as : List α} {gs : List γ}

theorem upsert_spec (key : γ → κ) (k : κ) (grow : γ → γ) (new : γ) (gs : List γ) :
    (∃ l g r, gs = l ++ g :: r ∧ key g = k ∧ upsert key k grow new gs = l ++ grow g :: r) ∨
      (∀ g ∈ gs, key g ≠ k) ∧ upsert key k grow new gs = gs ++ [new] := by
  induction gs with
  | nil => exact .inr ⟨fun g hg => absurd hg List.not_mem_nil,rfl⟩
  | cons g gs ih =>
      rw [upsert]
      by_cases hk : key g = k
      · rw [if_pos hk]
        exact .inl ⟨[],g,gs,rfl,hk,rfl⟩
      · rw [if_neg hk]
        rcases ih with ⟨l,h,r,rfl,hh,heq⟩ | ⟨hne,heq⟩
        · rw [heq]
          exact .inl ⟨g :: l,h,r,rfl,hh,rfl⟩
        · rw [heq]
          refine .inr ⟨fun x hx => ?_,rfl⟩
          rcases List.mem_cons.mp hx with rfl | hx
          · exact hk
          · exact hne x hx

theorem key_of_mem_upsert {k : κ} {grow : γ → γ} {new x : γ} (hx : x ∈ upsert key k grow new gs)
    (hkey : ∀ g, key (grow g) = key g) (hnew : key new = k) : key x = k ∨ x ∈ gs := by
  rcases upsert_spec key k grow new gs with ⟨l,g,r,rfl,hk,heq⟩ | ⟨-,heq⟩
  · rw [heq] at hx
    rcases List.mem_cons.mp (List.perm_middle.mem_iff.mp hx) with rfl | hx
    · exact .inl ((hkey g).trans hk)
    · exact .inr (List.perm_middle.mem_iff.mpr (List.mem_cons_of_mem g hx))
  · rw [heq] at hx
    rcases List.mem_append.mp hx with hx | hx
    · exact .inr hx
    · exact .inl (List.mem_singleton.mp hx ▸ hnew)

theorem Groups.nil : Groups key members keyOf ([] : List α) [] where
  distinct := List.nodup_nil
  members_eq _ hg := absurd hg List.not_mem_nil
  nonempty _ hg := absurd hg List.not_mem_nil
  covered _ ha := absurd ha List.not_mem_nil
  once := List.Perm.nil

theorem Groups.perm {gs' : List γ} (h : Groups key members keyOf as gs) (hp : gs.Perm gs') :
    Groups key members keyOf as gs' where
  distinct := (hp.map key).nodup h.distinct
  members_eq g hg := h.members_eq g (hp.mem_iff.mpr hg)
  nonempty g hg := h.nonempty g (hp.mem_iff.mpr hg)
  covered a ha := by
    obtain ⟨g,hg,heq⟩ := h.covered a ha
    exact ⟨g,hp.mem_iff.mp hg,heq⟩
  once := (hp.symm.flatMap_right members).trans h.once

theorem Groups.members_snoc {g : γ} {a : α} (h : Groups key members keyOf as gs) (hg : g ∈ gs)
    (hne : key g ≠ keyOf a) : members g = (as ++ [a]).filter fun x => keyOf x = key g := by
  rw [List.filter_append, List.filter_singleton, h.members_eq g hg, decide_eq_false (Ne.symm hne)]
  simp

theorem Groups.grow {l r : List γ} {g : γ} {a : α} {grow : γ → γ}
    (h : Groups key members keyOf as (l ++ g :: r)) (hk : key g = keyOf a)
    (hkey : key (grow g) = key g) (hgrow : members (grow g) = members g ++ [a]) :
    Groups key members keyOf (as ++ [a]) (l ++ grow g :: r) := by
  have hne : ∀ x ∈ l ++ r, key x ≠ keyOf a := by
    have hdistinct := h.distinct
    rw [List.map_append, List.map_cons, List.nodup_middle, List.nodup_cons,
      ← List.map_append, List.mem_map] at hdistinct
    exact fun x hx heq => hdistinct.1 ⟨x,hx,heq.trans hk.symm⟩
  have hmem (x : γ) (hx : x ∈ l ++ grow g :: r) : x = grow g ∨ x ∈ l ++ r :=
    List.mem_cons.mp (List.perm_middle.mem_iff.mp hx)
  have hold (x : γ) (hx : x ∈ l ++ r) : x ∈ l ++ g :: r :=
    List.perm_middle.mem_iff.mpr (List.mem_cons_of_mem g hx)
  have hnew (x : γ) (hx : x ∈ l ++ r) : x ∈ l ++ grow g :: r :=
    List.perm_middle.mem_iff.mpr (List.mem_cons_of_mem (grow g) hx)
  have hself : grow g ∈ l ++ grow g :: r := List.perm_middle.mem_iff.mpr List.mem_cons_self
  have hg : g ∈ l ++ g :: r := List.perm_middle.mem_iff.mpr List.mem_cons_self
  refine ⟨?_,fun x hx => ?_,fun x hx => ?_,fun b hb => ?_,?_⟩
  · have hdistinct := h.distinct
    rw [List.map_append, List.map_cons] at hdistinct ⊢
    rwa [hkey]
  · rcases hmem x hx with rfl | hx
    · rw [hgrow, hkey, List.filter_append, List.filter_singleton, ← h.members_eq g hg,
        decide_eq_true hk.symm]
      rfl
    · exact h.members_snoc (hold x hx) (hne x hx)
  · rcases hmem x hx with rfl | hx
    · rw [hgrow]
      exact List.concat_ne_nil a (members g)
    · exact h.nonempty x (hold x hx)
  · rcases List.mem_append.mp hb with hb | hb
    · obtain ⟨x,hx,hxb⟩ := h.covered b hb
      rcases List.mem_cons.mp (List.perm_middle.mem_iff.mp hx) with rfl | hx
      · exact ⟨grow x,hself,hkey.trans hxb⟩
      · exact ⟨x,hnew x hx,hxb⟩
    · rw [List.mem_singleton.mp hb]
      exact ⟨grow g,hself,hkey.trans hk⟩
  · have honce := h.once.append_right [a]
    rw [List.flatMap_append, List.flatMap_cons] at honce ⊢
    refine List.Perm.trans ?_ honce
    rw [hgrow, List.append_assoc, List.append_assoc, List.append_assoc]
    exact (List.perm_append_comm.append_left _).append_left _

theorem Groups.append {a : α} {new : γ} (h : Groups key members keyOf as gs)
    (hne : ∀ g ∈ gs, key g ≠ keyOf a) (hnew : key new = keyOf a) (hmembers : members new = [a]) :
    Groups key members keyOf (as ++ [a]) (gs ++ [new]) := by
  refine ⟨?_,fun x hx => ?_,fun x hx => ?_,fun b hb => ?_,?_⟩
  · rw [List.map_append, List.map_singleton, List.nodup_append_comm, List.singleton_append,
      List.nodup_cons, List.mem_map]
    refine ⟨?_,h.distinct⟩
    rintro ⟨g,hg,heq⟩
    exact hne g hg (heq.trans hnew)
  · rcases List.mem_append.mp hx with hx | hx
    · exact h.members_snoc hx (hne x hx)
    · rw [List.mem_singleton.mp hx, hmembers, hnew, List.filter_append, List.filter_singleton,
        decide_eq_true rfl, List.filter_eq_nil_iff.mpr]
      · rfl
      · intro b hb heq
        obtain ⟨g,hg,hgb⟩ := h.covered b hb
        exact hne g hg (hgb.trans (of_decide_eq_true heq))
  · rcases List.mem_append.mp hx with hx | hx
    · exact h.nonempty x hx
    · rw [List.mem_singleton.mp hx, hmembers]
      exact List.cons_ne_nil a []
  · rcases List.mem_append.mp hb with hb | hb
    · obtain ⟨x,hx,hxb⟩ := h.covered b hb
      exact ⟨x,List.mem_append_left _ hx,hxb⟩
    · rw [List.mem_singleton.mp hb]
      exact ⟨new,List.mem_append_right _ (List.mem_singleton_self new),hnew⟩
  · rw [List.flatMap_append, List.flatMap_singleton, hmembers]
    exact h.once.append_right [a]

theorem Groups.upsert {a : α} (h : Groups key members keyOf as gs) (grow : γ → γ) (new : γ)
    (hkey : ∀ g, key (grow g) = key g) (hgrow : ∀ g, members (grow g) = members g ++ [a])
    (hnew : key new = keyOf a) (hmembers : members new = [a]) :
    Groups key members keyOf (as ++ [a]) (upsert key (keyOf a) grow new gs) := by
  rcases upsert_spec key (keyOf a) grow new gs with ⟨l,g,r,rfl,hk,heq⟩ | ⟨hne,heq⟩
  · rw [heq]
    exact h.grow hk (hkey g) (hgrow g)
  · rw [heq]
    exact h.append hne hnew hmembers

end LiMaoIM.Grouping

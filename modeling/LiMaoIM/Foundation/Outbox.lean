import Mathlib.Tactic

namespace LiMaoIM.Outbox

section Blocks

variable {α κ : Type} [DecidableEq κ] {key : α → κ}

theorem filter_block {l : List α} (hl : (l.map key).Nodup) {r d k : Nat} (hr : r ≤ d) :
    (l.drop d).filter (fun a => key a ∉ ((l.drop r).take k).map key) =
      l.drop (max d (r + k)) := by
  induction l generalizing r d k with
  | nil => simp
  | cons a l ih =>
    rw [List.map_cons,List.nodup_cons] at hl
    obtain ⟨hfresh,hl⟩ := hl
    cases r with
    | succ r =>
      obtain ⟨d,rfl⟩ : ∃ e, d = e + 1 := ⟨d - 1,by omega⟩
      have hmax : max (d + 1) (r + 1 + k) = max d (r + k) + 1 := by omega
      rw [hmax]
      simpa using ih hl (k := k) (by omega : r ≤ d)
    | zero =>
      cases k with
      | zero => simp
      | succ k =>
        have hrest : (l.drop (d - 1)).filter (fun b => key b ∉ (l.take k).map key) =
            l.drop (max (d - 1) k) := by
          simpa using ih hl (r := 0) (k := k) (Nat.zero_le (d - 1))
        have hskip (e : Nat) :
            (l.drop e).filter (fun b => key b ∉ ((a :: l).take (k + 1)).map key) =
              (l.drop e).filter (fun b => key b ∉ (l.take k).map key) := by
          refine List.filter_congr fun b hb => ?_
          have hne : key b ≠ key a := fun heq =>
            hfresh (heq ▸ List.mem_map_of_mem (List.mem_of_mem_drop hb))
          simp [hne]
        cases d with
        | zero =>
          have hmax : max 0 (0 + (k + 1)) = k + 1 := by omega
          have hall := hskip 0
          rw [List.drop_zero] at hall
          rw [hmax,List.drop_zero,List.drop_succ_cons,List.filter_cons_of_neg (by simp),hall]
          simpa using hrest
        | succ d =>
          have hmax : max (d + 1) (0 + (k + 1)) = max d k + 1 := by omega
          rw [hmax,List.drop_zero,List.drop_succ_cons,List.drop_succ_cons,hskip]
          exact hrest

theorem mem_take_block {l : List α} {r d k : Nat} (hr : r ≤ d) {a : α}
    (h : a ∈ l.take (max d (r + k))) : a ∈ l.take d ∨ a ∈ (l.drop r).take k := by
  obtain ⟨i,hi,rfl⟩ := List.mem_take_iff_getElem.mp h
  by_cases hd : i < d
  · exact Or.inl (List.mem_take_iff_getElem.mpr ⟨i,by omega,rfl⟩)
  · refine Or.inr (List.mem_take_iff_getElem.mpr ⟨i - r,?_,?_⟩)
    · simp only [List.length_drop]
      omega
    · simp only [List.getElem_drop]
      congr
      omega

end Blocks

inductive Command (α κ : Type) where
  | append (a : α)
  | remove (ks : List κ)

section Accepted

variable {α κ : Type} {log log' : List (Command α κ)}

def accepted : List (Command α κ) → List α
  | [] => []
  | .append a :: log => a :: accepted log
  | .remove _ :: log => accepted log

@[simp] theorem accepted_append (log log' : List (Command α κ)) :
    accepted (log ++ log') = accepted log ++ accepted log' := by
  induction log with
  | nil => rfl
  | cons c log ih =>
    cases c with
    | append a => simp [accepted,ih]
    | remove ks => simp [accepted,ih]

theorem accepted_mono (h : log <+: log') : accepted log <+: accepted log' := by
  obtain ⟨rest,rfl⟩ := h
  exact ⟨accepted rest,(accepted_append log rest).symm⟩

end Accepted

section Queue

variable {α κ : Type} [DecidableEq κ] (key : α → κ)

def Command.run (q : List α) : Command α κ → List α
  | .append a => q ++ [a]
  | .remove ks => q.filter (key · ∉ ks)

def replay (log : List (Command α κ)) : List α := log.foldl (Command.run key) []

def removed (log : List (Command α κ)) : Nat := (accepted log).length - (replay key log).length

structure Scanned (log : List (Command α κ)) (batch : List α) : Prop where
  earlier : ∃ p, p <+: log ∧ batch <+: replay key p

def InOrder (log : List (Command α κ)) : Prop :=
  replay key log = (accepted log).drop (removed key log)

variable {key} {log log' p : List (Command α κ)} {batch : List α}

@[simp] theorem replay_nil : replay key ([] : List (Command α κ)) = [] := rfl

@[simp] theorem replay_append (log : List (Command α κ)) (c : Command α κ) :
    replay key (log ++ [c]) = c.run key (replay key log) := by
  simp [replay]

theorem length_replay_le (log : List (Command α κ)) :
    (replay key log).length ≤ (accepted log).length := by
  induction log using List.reverseRecOn with
  | nil => simp [accepted]
  | append_singleton log c ih =>
    cases c with
    | append a => simpa [Command.run,accepted] using ih
    | remove ks =>
      have hfilter := List.length_filter_le (key · ∉ ks) (replay key log)
      simp only [replay_append,Command.run,accepted_append,accepted,List.append_nil]
      omega

theorem removed_append (a : α) (log : List (Command α κ)) :
    removed key (log ++ [.append a]) = removed key log := by
  have hle : (replay key log).length ≤ (accepted log).length := length_replay_le log
  simp only [removed,replay_append,accepted_append,Command.run,accepted,List.length_append,
    List.length_singleton]
  omega

theorem removed_mono (h : log <+: log') : removed key log ≤ removed key log' := by
  obtain ⟨rest,rfl⟩ := h
  induction rest using List.reverseRecOn with
  | nil => simp
  | append_singleton rest c ih =>
    rw [← List.append_assoc]
    cases c with
    | append a => rwa [removed_append]
    | remove ks =>
      have hfilter := List.length_filter_le (key · ∉ ks) (replay key (log ++ rest))
      simp only [removed,replay_append,Command.run,accepted_append _ [_],accepted,List.append_nil]
        at ih ⊢
      omega

theorem Scanned.mono (h : Scanned key log batch) (hle : log <+: log') :
    Scanned key log' batch := by
  obtain ⟨p,hp,hbatch⟩ := h.earlier
  exact ⟨p,hp.trans hle,hbatch⟩

theorem inOrder_nil : InOrder key ([] : List (Command α κ)) := rfl

theorem InOrder.append (h : InOrder key log) (a : α) : InOrder key (log ++ [.append a]) := by
  have hle : removed key log ≤ (accepted log).length := Nat.sub_le _ _
  rw [InOrder,removed_append,replay_append,accepted_append,List.drop_append_of_le_length hle,← h]
  rfl

theorem Scanned.block (hbatch : batch <+: replay key p) (hp : p <+: log) (horder : InOrder key p) :
    batch = ((accepted log).drop (removed key p)).take batch.length := by
  obtain ⟨rest,hrest⟩ := accepted_mono hp
  have hle : removed key p ≤ (accepted p).length := Nat.sub_le _ _
  obtain ⟨tail,htail⟩ := hbatch
  rw [horder] at htail
  rw [← hrest,List.drop_append_of_le_length hle,← htail,List.append_assoc,List.take_left']
  rfl

theorem InOrder.remove (h : InOrder key log) (hdistinct : ((accepted log).map key).Nodup)
    (hp : p <+: log) (hbatch : batch <+: replay key p) (horder : InOrder key p) :
    InOrder key (log ++ [.remove (batch.map key)]) ∧
      removed key (log ++ [.remove (batch.map key)]) =
        max (removed key log) (removed key p + batch.length) := by
  have hblock := Scanned.block hbatch hp horder
  have hmono : removed key p ≤ removed key log := removed_mono hp
  have hqueue : replay key (log ++ [.remove (batch.map key)]) =
      (accepted log).drop (max (removed key log) (removed key p + batch.length)) := by
    rw [replay_append,Command.run,h,← filter_block hdistinct hmono,← hblock]
  have hlen : removed key p + batch.length ≤ (accepted log).length := by
    have hp' : (accepted p).length ≤ (accepted log).length := (accepted_mono hp).length_le
    have hq := hbatch.length_le
    have hr : (replay key p).length ≤ (accepted p).length := length_replay_le p
    simp only [removed]
    omega
  have hcount : removed key (log ++ [.remove (batch.map key)]) =
      max (removed key log) (removed key p + batch.length) := by
    have hle : removed key log ≤ (accepted log).length := Nat.sub_le _ _
    rw [removed,hqueue]
    simp only [accepted_append,accepted,List.append_nil,List.length_drop]
    omega
  refine ⟨?_,hcount⟩
  rw [InOrder,hcount,hqueue]
  simp [accepted]

theorem kept_or_removed {a : α} (h : a ∈ accepted log) :
    a ∈ replay key log ∨ ∃ ks, .remove ks ∈ log ∧ key a ∈ ks := by
  induction log using List.reverseRecOn with
  | nil => exact absurd h List.not_mem_nil
  | append_singleton log c ih =>
    have hold (hmem : a ∈ accepted log) (hkeep : a ∈ replay key log →
        a ∈ c.run key (replay key log) ∨ ∃ ks, c = .remove ks ∧ key a ∈ ks) :
        a ∈ replay key (log ++ [c]) ∨ ∃ ks, .remove ks ∈ log ++ [c] ∧ key a ∈ ks := by
      rcases ih hmem with hin | ⟨ks,hks,hkey⟩
      · rcases hkeep hin with hq | ⟨ks,rfl,hkey⟩
        · exact Or.inl (by simpa using hq)
        · exact Or.inr ⟨ks,by simp,hkey⟩
      · exact Or.inr ⟨ks,List.mem_append_left _ hks,hkey⟩
    cases c with
    | append b =>
      rcases List.mem_append.mp (by simpa only [accepted_append] using h) with hmem | hnew
      · exact hold hmem fun hin => Or.inl (List.mem_append_left _ hin)
      · obtain rfl : a = b := List.mem_singleton.mp hnew
        exact Or.inl (by simp [Command.run])
    | remove ks =>
      refine hold (by simpa [accepted] using h) fun hin => ?_
      by_cases hkey : key a ∈ ks
      · exact Or.inr ⟨ks,rfl,hkey⟩
      · exact Or.inl (List.mem_filter.mpr ⟨hin,by simpa using hkey⟩)

end Queue

end LiMaoIM.Outbox

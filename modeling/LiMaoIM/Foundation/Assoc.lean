import LiMaoIM.Foundation.Outcome

namespace LiMaoIM.Assoc

variable {κ ν β : Type} [DecidableEq κ]

def get (k : κ) : List (κ × ν) → Option ν
  | [] => none
  | (a,v) :: l => if a = k then some v else get k l

def put (k : κ) (v : ν) : List (κ × ν) → List (κ × ν)
  | [] => [(k,v)]
  | (a,b) :: l => if a = k then (k,v) :: l else (a,b) :: put k v l

def erase (k : κ) (l : List (κ × ν)) : List (κ × ν) := l.filter fun e => ¬ e.1 = k

def keys (l : List (κ × ν)) : List κ := l.map (·.1)

variable {k k' : κ} {v v' : ν} {l : List (κ × ν)}

omit [DecidableEq κ] in
theorem keys_cons : keys ((k,v) :: l) = k :: keys l := rfl

@[simp] theorem get_put_self : get k (put k v l) = some v := by
  induction l with
  | nil => simp [get, put]
  | cons e l ih =>
    obtain ⟨a,b⟩ := e
    by_cases h : a = k
    · simp [get, put, h]
    · simp [get, put, h, ih]

theorem get_put_ne (h : k' ≠ k) : get k' (put k v l) = get k' l := by
  induction l with
  | nil => simp [get, put, h.symm]
  | cons e l ih =>
    obtain ⟨a,b⟩ := e
    by_cases ha : a = k
    · subst ha
      simp [get, put, h.symm]
    · simp [get, put, ha, ih]

theorem put_put {v' : ν} : put k v' (put k v l) = put k v' l := by
  induction l with
  | nil => simp [put]
  | cons e l ih =>
    obtain ⟨k₀,v₀⟩ := e
    by_cases h : k₀ = k
    · simp [put, h]
    · simp [put, h, ih]

@[simp] theorem get_erase_self : get k (erase k l) = none := by
  induction l with
  | nil => rfl
  | cons e l ih =>
    obtain ⟨a,b⟩ := e
    rw [erase] at ih ⊢
    by_cases ha : a = k
    · simpa [ha] using ih
    · simpa [ha, get] using ih

theorem get_erase_ne (h : k' ≠ k) : get k' (erase k l) = get k' l := by
  induction l with
  | nil => rfl
  | cons e l ih =>
    obtain ⟨a,b⟩ := e
    rw [erase] at ih ⊢
    by_cases ha : a = k
    · subst ha
      simpa [get, h.symm] using ih
    · simp only [List.filter_cons, ha, not_false_eq_true, decide_true, if_true, get]
      rw [ih]

theorem get_eq_none_iff : get k l = none ↔ k ∉ keys l := by
  induction l with
  | nil => simp [get, keys]
  | cons e l ih =>
    obtain ⟨a,b⟩ := e
    by_cases ha : a = k
    · simp [get, keys, ha]
    · have hk : k ≠ a := fun h => ha h.symm
      simpa [get, keys, ha, hk] using ih

theorem mem_of_get (h : get k l = some v) : (k,v) ∈ l := by
  induction l with
  | nil => cases h
  | cons e l ih =>
    obtain ⟨a,b⟩ := e
    by_cases ha : a = k
    · subst ha
      simp only [get, if_true, Option.some.injEq] at h
      simp [h]
    · rw [get, if_neg ha] at h
      exact List.mem_cons_of_mem _ (ih h)

theorem get_of_mem (hn : (keys l).Nodup) (h : (k,v) ∈ l) : get k l = some v := by
  induction l with
  | nil => cases h
  | cons e l ih =>
    obtain ⟨a,b⟩ := e
    obtain ⟨hna,hn'⟩ := List.nodup_cons.mp hn
    rcases List.mem_cons.mp h with heq | hm
    · obtain ⟨rfl,rfl⟩ := Prod.mk.inj heq
      simp [get]
    · have hne : a ≠ k := by
        rintro rfl
        exact hna (List.mem_map.mpr ⟨_,hm,rfl⟩)
      rw [get, if_neg hne, ih hn' hm]

omit [DecidableEq κ] in
theorem keys_perm {l' : List (κ × ν)} (h : l.Perm l') : (keys l).Perm (keys l') := h.map Prod.fst

theorem get_perm {l' : List (κ × ν)} (hn : (keys l).Nodup) (h : l.Perm l') (k : κ) :
    get k l = get k l' := by
  have hkeys := keys_perm h
  cases hget : get k l with
  | some v => rw [get_of_mem (hkeys.nodup_iff.mp hn) (h.mem_iff.mp (mem_of_get hget))]
  | none =>
    rw [get_eq_none_iff] at hget
    exact (get_eq_none_iff.mpr fun hk => hget (hkeys.mem_iff.mpr hk)).symm

theorem put_of_not_mem (h : k ∉ keys l) : put k v l = l ++ [(k,v)] := by
  induction l with
  | nil => rfl
  | cons e l ih =>
    obtain ⟨a,b⟩ := e
    simp only [keys, List.map_cons, List.mem_cons, not_or] at h
    rw [put, if_neg (Ne.symm h.1), ih h.2]
    rfl

theorem put_last (h : k ∉ keys l) : put k v (l ++ [(k,v')]) = l ++ [(k,v)] := by
  induction l with
  | nil => simp [put]
  | cons e l ih =>
    obtain ⟨a,b⟩ := e
    simp only [keys, List.map_cons, List.mem_cons, not_or] at h
    rw [List.cons_append, put, if_neg (Ne.symm h.1), ih h.2]
    rfl

def mapVal {μ : Type} (f : ν → μ) (l : List (κ × ν)) : List (κ × μ) := l.map fun e => (e.1,f e.2)

theorem get_mapVal {μ : Type} (f : ν → μ) : get k (mapVal f l) = (get k l).map f := by
  induction l with
  | nil => rfl
  | cons e l ih =>
    obtain ⟨a,b⟩ := e
    by_cases ha : a = k
    · simp [mapVal, get, ha]
    · simpa [mapVal, get, ha] using ih

theorem put_mapVal {μ : Type} (f : ν → μ) :
    put k (f v) (mapVal f l) = mapVal f (put k v l) := by
  induction l with
  | nil => rfl
  | cons e l ih =>
    obtain ⟨a,b⟩ := e
    by_cases ha : a = k
    · simp [mapVal, put, ha]
    · simpa [mapVal, put, ha] using ih

theorem put_get (h : get k l = some v) : put k v l = l := by
  induction l with
  | nil => cases h
  | cons e l ih =>
    obtain ⟨a,b⟩ := e
    by_cases ha : a = k
    · subst ha
      simp only [get, if_true, Option.some.injEq] at h
      simp [put, h]
    · rw [get, if_neg ha] at h
      rw [put, if_neg ha, ih h]

theorem keys_put_of_mem (h : k ∈ keys l) : keys (put k v l) = keys l := by
  induction l with
  | nil => cases h
  | cons e l ih =>
    obtain ⟨a,b⟩ := e
    by_cases ha : a = k
    · simp [keys, put, ha]
    · have hl : k ∈ keys l := by
        rcases List.mem_cons.mp h with hk | hk
        · exact absurd hk.symm ha
        · exact hk
      have hih := ih hl
      simp only [keys] at hih
      simp only [keys, put, if_neg ha, List.map_cons, hih]

theorem mem_keys_of_get (h : get k l = some v) : k ∈ keys l :=
  List.mem_map.mpr ⟨_,mem_of_get h,rfl⟩

omit [DecidableEq κ] in
theorem keys_mapVal {μ : Type} (f : ν → μ) : keys (mapVal f l) = keys l := by
  simp [keys, mapVal]

theorem mem_put {e : κ × ν} (h : e ∈ put k v l) : e ∈ l ∨ e = (k,v) := by
  induction l with
  | nil => exact Or.inr (by simpa [put] using h)
  | cons x l ih =>
    obtain ⟨a,b⟩ := x
    by_cases ha : a = k
    · rw [put, if_pos ha] at h
      rcases List.mem_cons.mp h with rfl | h
      · exact Or.inr rfl
      · exact Or.inl (List.mem_cons_of_mem _ h)
    · rw [put, if_neg ha] at h
      rcases List.mem_cons.mp h with rfl | h
      · exact Or.inl List.mem_cons_self
      · rcases ih h with h | h
        · exact Or.inl (List.mem_cons_of_mem _ h)
        · exact Or.inr h

theorem nodup_put (h : (keys l).Nodup) (k : κ) (v : ν) : (keys (put k v l)).Nodup := by
  by_cases hk : k ∈ keys l
  · rwa [keys_put_of_mem hk]
  · rw [put_of_not_mem hk, keys, List.map_append]
    refine h.append (List.nodup_singleton _) fun a ha hb => hk ?_
    obtain rfl : a = k := List.mem_singleton.mp hb
    exact ha

theorem nodup_erase (h : (keys l).Nodup) (k : κ) : (keys (erase k l)).Nodup :=
  h.sublist (List.filter_sublist.map Prod.fst)

theorem flatMap_put_perm {g : ν → List β} {b : List β} (h : g v = ((get k l).map g).getD [] ++ b) :
    (put k v l).flatMap (fun e => g e.2) |>.Perm (l.flatMap (fun e => g e.2) ++ b) := by
  induction l with
  | nil => simpa [put, get] using (List.Perm.of_eq h)
  | cons e l ih =>
    obtain ⟨a,w⟩ := e
    by_cases ha : a = k
    · subst ha
      simp only [get, if_true, Option.map_some, Option.getD_some] at h
      simp only [put, if_true, List.flatMap_cons, h, List.append_assoc]
      exact List.Perm.append_left _ List.perm_append_comm
    · rw [get, if_neg ha] at h
      rw [put, if_neg ha, List.flatMap_cons, List.flatMap_cons, List.append_assoc]
      exact List.Perm.append_left _ (ih h)

end LiMaoIM.Assoc

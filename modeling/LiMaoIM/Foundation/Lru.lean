import LiMaoIM.Foundation.Assoc

namespace LiMaoIM

structure Lru (size : Nat) (κ ν : Type) [DecidableEq κ] where
  items : List (κ × ν)
  nodup : (Assoc.keys items).Nodup
  bound : items.length ≤ size

namespace Lru

variable {size : Nat} {κ ν : Type} [DecidableEq κ]

@[ext] theorem ext_items {c c' : Lru size κ ν} (h : c.items = c'.items) : c = c' := by
  cases c
  cases c'
  congr

def empty : Lru size κ ν := ⟨[],List.nodup_nil,Nat.zero_le size⟩

def len (c : Lru size κ ν) : Nat := c.items.length

def keys (c : Lru size κ ν) : List κ := Assoc.keys c.items

def values (c : Lru size κ ν) : List ν := c.items.map (·.2)

def peek (c : Lru size κ ν) (k : κ) : Option ν := Assoc.get k c.items

def recent (k : κ) (v : ν) (l : List (κ × ν)) : List (κ × ν) := Assoc.erase k l ++ [(k,v)]

def evict (size : Nat) (l : List (κ × ν)) : List (κ × ν) := if size < l.length then l.tail else l

variable {k k' : κ} {v v' : ν} {l : List (κ × ν)}

theorem not_mem_keys_erase (k : κ) (l : List (κ × ν)) : k ∉ Assoc.keys (Assoc.erase k l) :=
  Assoc.get_eq_none_iff.mp Assoc.get_erase_self

theorem erase_of_not_mem (h : k ∉ Assoc.keys l) : Assoc.erase k l = l := by
  rw [Assoc.erase, List.filter_eq_self]
  rintro ⟨a,b⟩ hab
  have ha : a ≠ k := by
    rintro rfl
    exact h (List.mem_map_of_mem hab)
  simpa using ha

theorem nodup_recent (h : (Assoc.keys l).Nodup) (k : κ) (v : ν) : (Assoc.keys (recent k v l)).Nodup := by
  rw [recent, Assoc.keys, List.map_append]
  refine (Assoc.nodup_erase h k).append (List.nodup_singleton _) fun a ha hk => ?_
  obtain rfl := List.mem_singleton.mp hk
  exact not_mem_keys_erase a l ha

theorem recent_perm (hn : (Assoc.keys l).Nodup) (h : Assoc.get k l = some v) :
    (recent k v l).Perm l := by
  induction l with
  | nil => cases h
  | cons e l ih =>
    obtain ⟨a,b⟩ := e
    have htail := (List.nodup_cons.mp hn).2
    rw [recent, Assoc.erase, List.filter_cons]
    rcases eq_or_ne a k with rfl | hne
    · have hmem : a ∉ Assoc.keys l := (List.nodup_cons.mp hn).1
      have hrest := erase_of_not_mem hmem
      rw [Assoc.erase] at hrest
      rw [Assoc.get, if_pos rfl] at h
      obtain rfl := Option.some.inj h
      simp only [not_true_eq_false, decide_false, Bool.false_eq_true, if_false, hrest]
      exact List.perm_append_singleton _ _
    · rw [Assoc.get, if_neg hne] at h
      have hrest := ih htail h
      rw [recent, Assoc.erase] at hrest
      simpa [hne] using hrest

theorem length_recent_of_get (hn : (Assoc.keys l).Nodup) (h : Assoc.get k l = some v) (v' : ν) :
    (recent k v' l).length = l.length := by
  have hlen := (recent_perm hn h).length_eq
  rw [recent, List.length_append] at hlen ⊢
  exact hlen

omit [DecidableEq κ] in
theorem nodup_evict (h : (Assoc.keys l).Nodup) : (Assoc.keys (evict size l)).Nodup := by
  rw [evict]
  split
  · exact h.sublist ((List.tail_sublist l).map _)
  · exact h

theorem length_recent_le (k : κ) (v : ν) (l : List (κ × ν)) : (recent k v l).length ≤ l.length + 1 := by
  rw [recent, List.length_append]
  exact Nat.add_le_add_right (List.length_filter_le _ l) 1

omit [DecidableEq κ] in
theorem length_evict (h : l.length ≤ size + 1) : (evict size l).length ≤ size := by
  rw [evict]
  split
  · rw [List.length_tail]
    omega
  · omega

def get (k : κ) (c : Lru size κ ν) : Option ν × Lru size κ ν :=
  match h : Assoc.get k c.items with
  | none => (none,c)
  | some v => (some v,⟨recent k v c.items,nodup_recent c.nodup k v,by
      rw [length_recent_of_get c.nodup h]
      exact c.bound⟩)

def add (k : κ) (v : ν) (c : Lru size κ ν) : Lru size κ ν :=
  ⟨evict size (recent k v c.items),nodup_evict (nodup_recent c.nodup k v),
    length_evict ((length_recent_le k v c.items).trans (Nat.add_le_add_right c.bound 1))⟩

def remove (k : κ) (c : Lru size κ ν) : Lru size κ ν :=
  ⟨Assoc.erase k c.items,Assoc.nodup_erase c.nodup k,(List.length_filter_le _ _).trans c.bound⟩

variable {c : Lru size κ ν}

theorem get_fst (k : κ) (c : Lru size κ ν) : (c.get k).1 = c.peek k := by
  rw [get, peek]
  split
  · rename_i h
    exact h.symm
  · rename_i v h
    exact h.symm

theorem items_get (h : c.peek k = some v) : (c.get k).2.items = recent k v c.items := by
  rw [peek] at h
  rw [get]
  split
  · rename_i hnone
    rw [h] at hnone
    cases hnone
  · rename_i v' hsome
    rw [h] at hsome
    rw [Option.some.inj hsome]

theorem get_none (h : c.peek k = none) : (c.get k).2 = c := by
  rw [peek] at h
  rw [get]
  split
  · rfl
  · rename_i v hsome
    rw [h] at hsome
    cases hsome

theorem assoc_get_append (k' : κ) (l m : List (κ × ν)) :
    Assoc.get k' (l ++ m) = (Assoc.get k' l).or (Assoc.get k' m) := by
  induction l with
  | nil => rfl
  | cons e l ih =>
    obtain ⟨a,b⟩ := e
    rw [List.cons_append, Assoc.get, Assoc.get]
    rcases eq_or_ne a k' with rfl | hne
    · rw [if_pos rfl, if_pos rfl]
      rfl
    · rw [if_neg hne, if_neg hne, ih]

theorem get_recent_self (k : κ) (v : ν) (l : List (κ × ν)) : Assoc.get k (recent k v l) = some v := by
  rw [recent, assoc_get_append, Assoc.get_erase_self]
  simp [Assoc.get]

theorem get_recent_ne (h : k' ≠ k) : Assoc.get k' (recent k v l) = Assoc.get k' l := by
  rw [recent, assoc_get_append, Assoc.get_erase_ne h]
  simp [Assoc.get, h.symm]

theorem peek_get (k k' : κ) (c : Lru size κ ν) : (c.get k).2.peek k' = c.peek k' := by
  cases h : c.peek k with
  | none => rw [get_none h]
  | some v =>
    rw [peek, items_get h]
    rcases eq_or_ne k' k with rfl | hne
    · rw [get_recent_self, h]
    · rw [get_recent_ne hne, peek]

theorem get_result {found : Option ν} {c' : Lru size κ ν} (h : c.get k = (found,c')) :
    found = c.peek k ∧ c'.peek k = found := by
  have hfst := get_fst k c
  have hpeek := peek_get k k c
  rw [h] at hfst hpeek
  exact ⟨hfst,hpeek.trans hfst.symm⟩

theorem len_get (k : κ) (c : Lru size κ ν) : (c.get k).2.len = c.len := by
  cases h : c.peek k with
  | none => rw [get_none h]
  | some v => rw [len, items_get h, length_recent_of_get c.nodup h, len]

omit [DecidableEq κ] in
theorem evict_of_le (h : l.length ≤ size) : evict size l = l := by
  rw [evict, if_neg (Nat.not_lt.mpr h)]

theorem items_add_known (h : c.peek k = some v') (v : ν) :
    (c.add k v).items = recent k v c.items := by
  rw [add]
  refine evict_of_le ?_
  rw [length_recent_of_get c.nodup h]
  exact c.bound

theorem items_add_room (h : c.len < size) (k : κ) (v : ν) : (c.add k v).items = recent k v c.items := by
  rw [add]
  exact evict_of_le ((length_recent_le k v c.items).trans h)

theorem len_add_le (k : κ) (v : ν) (c : Lru size κ ν) : (c.add k v).len ≤ c.len + 1 := by
  have hle : (evict size (recent k v c.items)).length ≤ (recent k v c.items).length := by
    rw [evict]
    split
    · rw [List.length_tail]
      exact Nat.sub_le _ _
    · exact Nat.le_refl _
  exact hle.trans (length_recent_le k v c.items)

theorem values_get (k : κ) (c : Lru size κ ν) : (c.get k).2.values.Perm c.values := by
  cases h : c.peek k with
  | none => rw [get_none h]
  | some v =>
    rw [values, items_get h]
    exact (recent_perm c.nodup h).map _

theorem values_add_known (h : c.peek k = some v) : (c.add k v).values.Perm c.values := by
  rw [values, items_add_known h]
  exact (recent_perm c.nodup h).map _

theorem values_add_last (h : c.peek k = some v') (v : ν) :
    ∃ vs, (c.add k v).values = vs ++ [v] := by
  refine ⟨(Assoc.erase k c.items).map (·.2),?_⟩
  rw [values, items_add_known h, recent, List.map_append]
  rfl

theorem values_add_new (h : c.peek k = none) (hroom : c.len < size) (v : ν) :
    (c.add k v).values = c.values ++ [v] := by
  rw [values, items_add_room hroom, recent, erase_of_not_mem (Assoc.get_eq_none_iff.mp h),
    List.map_append]
  rfl

theorem peek_add_room (h : (∃ v', c.peek k = some v') ∨ c.len < size) (v : ν) (k' : κ) :
    (c.add k v).peek k' = if k' = k then some v else c.peek k' := by
  have hitems : (c.add k v).items = recent k v c.items := by
    rcases h with ⟨v',h⟩ | h
    · exact items_add_known h v
    · exact items_add_room h k v
  rw [peek, hitems]
  split
  · rename_i heq
    rw [heq, get_recent_self]
  · rename_i hne
    rw [get_recent_ne hne, peek]

theorem get_tail (hn : (Assoc.keys l).Nodup) (h : Assoc.get k l.tail = some v) :
    Assoc.get k l = some v := by
  cases l with
  | nil => cases h
  | cons e l =>
    obtain ⟨a,b⟩ := e
    have hne : a ≠ k := by
      rintro rfl
      exact (List.nodup_cons.mp hn).1 (Assoc.mem_keys_of_get h)
    rwa [Assoc.get, if_neg hne]

theorem get_evict (hn : (Assoc.keys l).Nodup) (h : Assoc.get k (evict size l) = some v) :
    Assoc.get k l = some v := by
  rw [evict] at h
  split at h
  · exact get_tail hn h
  · exact h

theorem peek_of_add (h : (c.add k v).peek k' = some v') : k' = k ∧ v' = v ∨ c.peek k' = some v' := by
  have hrecent := get_evict (nodup_recent c.nodup k v) h
  rcases eq_or_ne k' k with rfl | hne
  · rw [get_recent_self] at hrecent
    exact Or.inl ⟨rfl,(Option.some.inj hrecent).symm⟩
  · rw [get_recent_ne hne] at hrecent
    exact Or.inr hrecent

theorem peek_add_self (hpos : 0 < size) (k : κ) (v : ν) (c : Lru size κ ν) :
    (c.add k v).peek k = some v := by
  have hitems : (c.add k v).items = evict size (recent k v c.items) := rfl
  rw [peek, hitems, evict]
  split
  · rename_i hfull
    rw [recent, List.length_append] at hfull
    rw [recent]
    cases herase : Assoc.erase k c.items with
    | nil =>
      rw [herase] at hfull
      simp only [List.length_nil, List.length_singleton] at hfull
      omega
    | cons e l =>
      have hnone : Assoc.get k l = none := by
        have hk := not_mem_keys_erase k c.items
        rw [herase] at hk
        exact Assoc.get_eq_none_iff.mpr fun hmem => hk (List.mem_cons_of_mem _ hmem)
      rw [List.cons_append, List.tail_cons, assoc_get_append, hnone]
      simp [Assoc.get]
  · exact get_recent_self k v c.items

@[simp] theorem peek_empty (k : κ) : (empty : Lru size κ ν).peek k = none := rfl

theorem peek_remove_self (k : κ) (c : Lru size κ ν) : (c.remove k).peek k = none :=
  Assoc.get_erase_self

theorem peek_remove_ne (h : k' ≠ k) (c : Lru size κ ν) : (c.remove k).peek k' = c.peek k' :=
  Assoc.get_erase_ne h

theorem peek_of_remove (h : (c.remove k).peek k' = some v) : k' ≠ k ∧ c.peek k' = some v := by
  rcases eq_or_ne k' k with rfl | hne
  · rw [peek_remove_self] at h
    cases h
  · rw [peek_remove_ne hne] at h
    exact ⟨hne,h⟩

theorem remove_remove (k : κ) (c : Lru size κ ν) : (c.remove k).remove k = c.remove k :=
  ext_items (erase_of_not_mem (not_mem_keys_erase k c.items))

theorem mem_items : (k,v) ∈ c.items ↔ c.peek k = some v :=
  ⟨Assoc.get_of_mem c.nodup,Assoc.mem_of_get⟩

theorem mem_keys : k ∈ c.keys ↔ ∃ v, c.peek k = some v := by
  constructor
  · intro h
    obtain ⟨⟨a,v⟩,hmem,rfl⟩ := List.mem_map.mp h
    exact ⟨v,mem_items.mp hmem⟩
  · rintro ⟨v,h⟩
    exact Assoc.mem_keys_of_get h

theorem mem_values : v ∈ c.values ↔ ∃ k, c.peek k = some v := by
  constructor
  · intro h
    obtain ⟨⟨k,b⟩,hmem,rfl⟩ := List.mem_map.mp h
    exact ⟨k,mem_items.mp hmem⟩
  · rintro ⟨k,h⟩
    exact List.mem_map.mpr ⟨(k,v),mem_items.mpr h,rfl⟩

theorem len_eq_zero : c.len = 0 ↔ c.items = [] := List.length_eq_zero_iff

theorem peek_of_len (h : c.len = 0) (k : κ) : c.peek k = none := by
  rw [peek, len_eq_zero.mp h]
  rfl

theorem len_pos_of_peek (h : c.peek k = some v) : c.len ≠ 0 := by
  intro hzero
  rw [peek_of_len hzero] at h
  cases h

def readStep (acc : List ν × Lru size κ ν) (k : κ) : List ν × Lru size κ ν :=
  match acc.2.get k with
  | (some v,c) => (acc.1 ++ [v],c)
  | (none,c) => (acc.1,c)

theorem readStep_head (values : List ν) (h : c.items = (k,v) :: l) :
    (readStep (values,c) k).1 = values ++ [v] ∧ (readStep (values,c) k).2.items = l ++ [(k,v)] := by
  have hpeek : c.peek k = some v := by
    rw [peek, h]
    simp [Assoc.get]
  have hmem : k ∉ Assoc.keys l := by
    have hn := c.nodup
    rw [h] at hn
    exact (List.nodup_cons.mp hn).1
  have hget : c.get k = (some v,(c.get k).2) := Prod.ext ((get_fst k c).trans hpeek) rfl
  have hitems := items_get hpeek
  rw [readStep, hget]
  refine ⟨rfl,?_⟩
  simp only
  rw [hitems, h, recent, Assoc.erase, List.filter_cons]
  have hrest := erase_of_not_mem hmem
  rw [Assoc.erase] at hrest
  simp only [not_true_eq_false, decide_false, Bool.false_eq_true, if_false, hrest]

theorem foldl_readStep {done todo : List (κ × ν)} (values : List ν) (h : c.items = todo ++ done) :
    ((Assoc.keys todo).foldl readStep (values,c)).1 = values ++ todo.map (·.2) ∧
      ((Assoc.keys todo).foldl readStep (values,c)).2.items = done ++ todo := by
  induction todo generalizing c done values with
  | nil =>
    refine ⟨(List.append_nil values).symm,?_⟩
    rw [List.append_nil]
    exact h
  | cons e todo ih =>
    obtain ⟨k,v⟩ := e
    obtain ⟨hvalues,hitems⟩ := readStep_head values h
    have hnext : (readStep (values,c) k).2.items = todo ++ (done ++ [(k,v)]) := by
      rw [hitems, ← List.append_assoc]
      rfl
    obtain ⟨ih₁,ih₂⟩ := ih (readStep (values,c) k).1 hnext
    simp only [Assoc.keys_cons, List.foldl_cons]
    constructor
    · rw [ih₁, hvalues, List.append_assoc]
      rfl
    · rw [ih₂, List.append_assoc]
      rfl

def readAll (c : Lru size κ ν) : List ν × Lru size κ ν := c.keys.foldl readStep ([],c)

theorem readAll_eq (c : Lru size κ ν) : c.readAll = (c.values,c) := by
  obtain ⟨hvalues,hitems⟩ := foldl_readStep [] (List.append_nil c.items).symm
  exact Prod.ext hvalues (ext_items hitems)

variable {ν' : Type} {f g : ν → ν'}

def map (f : ν → ν') (c : Lru size κ ν) : Lru size κ ν' :=
  ⟨Assoc.mapVal f c.items,by
    rw [Assoc.keys_mapVal]
    exact c.nodup,by
    rw [Assoc.mapVal, List.length_map]
    exact c.bound⟩

theorem len_map (f : ν → ν') (c : Lru size κ ν) : (c.map f).len = c.len := List.length_map ..

theorem values_map (f : ν → ν') (c : Lru size κ ν) : (c.map f).values = c.values.map f := by
  have hitems : (c.map f).items = Assoc.mapVal f c.items := rfl
  rw [values, values, hitems, Assoc.mapVal, List.map_map, List.map_map]
  rfl

theorem peek_map (f : ν → ν') (k : κ) (c : Lru size κ ν) : (c.map f).peek k = (c.peek k).map f :=
  Assoc.get_mapVal f

theorem recent_map (f : ν → ν') (k : κ) (v : ν) (l : List (κ × ν)) :
    recent k (f v) (Assoc.mapVal f l) = Assoc.mapVal f (recent k v l) := by
  rw [recent, recent, Assoc.mapVal, Assoc.mapVal, List.map_append, Assoc.erase, Assoc.erase,
    List.filter_map]
  rfl

theorem add_map (f : ν → ν') (k : κ) (v : ν) (c : Lru size κ ν) :
    (c.map f).add k (f v) = (c.add k v).map f := by
  apply ext_items
  change evict size (recent k (f v) (Assoc.mapVal f c.items)) =
    Assoc.mapVal f (evict size (recent k v c.items))
  rw [recent_map, evict, evict, Assoc.mapVal, Assoc.mapVal, List.length_map, ← List.map_tail]
  split
  · rfl
  · rfl

theorem get_map (f : ν → ν') (k : κ) (c : Lru size κ ν) :
    (c.map f).get k = ((c.peek k).map f,(c.get k).2.map f) := by
  refine Prod.ext ((get_fst k (c.map f)).trans (peek_map f k c)) ?_
  cases h : c.peek k with
  | none =>
    have hnone : (c.map f).peek k = none := by rw [peek_map, h]; rfl
    rw [get_none h, get_none hnone]
  | some v =>
    have hsome : (c.map f).peek k = some (f v) := by rw [peek_map, h]; rfl
    apply ext_items
    rw [items_get hsome]
    change recent k (f v) (Assoc.mapVal f c.items) = Assoc.mapVal f (c.get k).2.items
    rw [items_get h, recent_map]

theorem map_congr (h : ∀ v ∈ c.values, f v = g v) : c.map f = c.map g := by
  apply ext_items
  refine List.map_congr_left fun e he => ?_
  rw [h e.2 (List.mem_map_of_mem he)]

theorem add_map_congr (h : ∀ k' v, c.peek k' = some v → k' ≠ k → f v = g v) (v' : ν') :
    (c.map f).add k v' = (c.map g).add k v' := by
  apply ext_items
  have hrecent : recent k v' (Assoc.mapVal f c.items) = recent k v' (Assoc.mapVal g c.items) := by
    rw [recent, recent, Assoc.mapVal, Assoc.mapVal, Assoc.erase, Assoc.erase, List.filter_map,
      List.filter_map]
    refine congrArg (· ++ _) (List.map_congr_left fun e he => ?_)
    obtain ⟨hmem,hne⟩ := List.mem_filter.mp he
    rw [h e.1 e.2 (mem_items.mp hmem) (by simpa using hne)]
  change evict size (recent k v' (Assoc.mapVal f c.items)) =
    evict size (recent k v' (Assoc.mapVal g c.items))
  rw [hrecent]

theorem add_map_update [DecidableEq ν] (h : ∀ k' x, c.peek k' = some x → k' ≠ k → x ≠ v) (v' : ν') :
    (c.add k v).map (Function.update f v v') = (c.map f).add k v' := by
  have hadd := add_map (Function.update f v v') k v c
  rw [Function.update_self] at hadd
  rw [← hadd]
  exact add_map_congr (fun k' x hx hne => Function.update_of_ne (h k' x hx hne) ..) v'

end Lru
end LiMaoIM

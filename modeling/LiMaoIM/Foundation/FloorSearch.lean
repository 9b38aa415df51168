import LiMaoIM.Foundation.Outcome

namespace LiMaoIM.FloorSearch

variable {α : Type} [LinearOrder α] (key : Nat → α) (target : α)

def search : Nat → Nat → Nat → Nat × Bool
  | 0, lo, _ => (lo,false)
  | fuel + 1, lo, hi =>
      if lo < hi then
        let mid := (lo + hi + 1) >>> 1
        if target < key mid then search fuel lo (mid - 1)
        else if key mid < target then search fuel mid hi
        else (mid,true)
      else (lo,false)

def Ascending (lo hi : Nat) : Prop := ∀ i j, lo ≤ i → i < j → j ≤ hi → key i < key j

structure IsFloor (lo hi r : Nat) : Prop where
  lo_le : lo ≤ r
  le_hi : r ≤ hi
  le_target : key r ≤ target
  lt_above : ∀ j, r < j → j ≤ hi → target < key j

variable {key target}

theorem mid_bounds {lo hi : Nat} (h : lo < hi) :
    lo < (lo + hi + 1) >>> 1 ∧ (lo + hi + 1) >>> 1 ≤ hi := by
  rw [Nat.shiftRight_eq_div_pow]
  omega

theorem search_isFloor {fuel lo hi : Nat} (hle : lo ≤ hi) (hf : hi - lo ≤ fuel)
    (ha : Ascending key lo hi) (hlo : key lo ≤ target) :
    IsFloor key target lo hi (search key target fuel lo hi).1 := by
  induction fuel generalizing lo hi with
  | zero =>
    have he : lo = hi := by omega
    subst he
    rw [search]
    exact ⟨le_rfl,le_rfl,hlo,fun j h1 h2 => absurd (h1.trans_le h2) (lt_irrefl _)⟩
  | succ fuel ih =>
    rw [search]
    by_cases hlt : lo < hi
    · rw [if_pos hlt]
      obtain ⟨hm1,hm2⟩ := mid_bounds hlt
      obtain ⟨mid,hmid⟩ : ∃ m, (lo + hi + 1) >>> 1 = m := ⟨_,rfl⟩
      simp only [hmid] at hm1 hm2 ⊢
      split
      · rename_i hgt
        have hsub : Ascending key lo (mid - 1) := fun i j h1 h2 h3 => ha i j h1 h2 (by omega)
        obtain ⟨h1,h2,h3,h4⟩ := ih (by omega) (by omega) hsub hlo
        refine ⟨h1,by omega,h3,fun j hj hjhi => ?_⟩
        rcases Nat.lt_trichotomy j mid with hjm | rfl | hjm
        · exact h4 j hj (by omega)
        · exact hgt
        · exact hgt.trans (ha mid j (by omega) hjm hjhi)
      · split
        · rename_i hlt'
          have hsub : Ascending key mid hi := fun i j h1 h2 h3 => ha i j (by omega) h2 h3
          obtain ⟨h1,h2,h3,h4⟩ := ih hm2 (by omega) hsub hlt'.le
          exact ⟨by omega,h2,h3,h4⟩
        · rename_i hgt hlt'
          have he : key mid = target := le_antisymm (not_lt.mp hgt) (not_lt.mp hlt')
          refine ⟨by omega,hm2,he.le,fun j hj hjhi => ?_⟩
          rw [← he]
          exact ha mid j (by omega) hj hjhi
    · rw [if_neg hlt]
      exact ⟨le_rfl,hle,hlo,fun j h1 h2 => by omega⟩

theorem search_last {fuel lo hi : Nat} (hle : lo ≤ hi) (hf : hi - lo ≤ fuel)
    (ha : ∀ j, lo ≤ j → j ≤ hi → key j ≤ target)
    (he : ∀ j, lo ≤ j → j ≤ hi → key j = target → j = hi) :
    (search key target fuel lo hi).1 = hi := by
  induction fuel generalizing lo with
  | zero =>
    rw [search]
    omega
  | succ fuel ih =>
    rw [search]
    by_cases hlt : lo < hi
    · rw [if_pos hlt]
      obtain ⟨hm1,hm2⟩ := mid_bounds hlt
      obtain ⟨mid,hmid⟩ : ∃ m, (lo + hi + 1) >>> 1 = m := ⟨_,rfl⟩
      simp only [hmid] at hm1 hm2 ⊢
      have hmle := ha mid (by omega) hm2
      rw [if_neg (not_lt.mpr hmle)]
      split
      · exact ih hm2 (by omega) (fun j h1 h2 => ha j (by omega) h2)
          (fun j h1 h2 => he j (by omega) h2)
      · rename_i hnlt
        exact he mid (by omega) hm2 (le_antisymm hmle (not_lt.mp hnlt))
    · rw [if_neg hlt]
      simp only
      omega

variable (key target) in
def searchFrom (lo hi : Nat) : (Nat × Bool) × List Nat :=
  if h : lo < hi then
    let mid := (lo + hi + 1) >>> 1
    if target < key mid then
      let r := searchFrom lo (mid - 1)
      (r.1,mid :: r.2)
    else if key mid < target then
      let r := searchFrom mid hi
      (r.1,mid :: r.2)
    else ((mid,true),[mid])
  else ((lo,false),[])
termination_by hi - lo
decreasing_by
  · have hm := mid_bounds h
    omega
  · have hm := mid_bounds h
    omega

theorem searchFrom_fst {fuel lo hi : Nat} (hf : hi - lo ≤ fuel) :
    (searchFrom key target lo hi).1 = search key target fuel lo hi := by
  induction fuel generalizing lo hi with
  | zero =>
    rw [searchFrom, dif_neg (by omega), search]
  | succ fuel ih =>
    rw [searchFrom, search]
    by_cases hlt : lo < hi
    · obtain ⟨hm1,hm2⟩ := mid_bounds hlt
      rw [dif_pos hlt, if_pos hlt]
      obtain ⟨mid,hmid⟩ : ∃ m, (lo + hi + 1) >>> 1 = m := ⟨_,rfl⟩
      simp only [hmid] at hm1 hm2 ⊢
      split
      · exact ih (by omega)
      · split
        · exact ih (by omega)
        · rfl
    · rw [dif_neg hlt, if_neg hlt]

structure Probes (lo hi : Nat) (r : (Nat × Bool) × List Nat) : Prop where
  result : lo ≤ r.1.1 ∧ r.1.1 ≤ hi
  reads : ∀ i ∈ r.2, lo < i ∧ i ≤ hi
  length_le : r.2.length ≤ hi - lo

theorem Probes.probe {lo hi lo' hi' mid : Nat} {r : (Nat × Bool) × List Nat}
    (h : Probes lo' hi' r) (hlo : lo ≤ lo') (hhi : hi' ≤ hi) (hmid : lo < mid ∧ mid ≤ hi)
    (hshort : hi' - lo' < hi - lo) : Probes lo hi (r.1,mid :: r.2) := by
  obtain ⟨⟨h1,h2⟩,hreads,hlen⟩ := h
  refine ⟨⟨hlo.trans h1,h2.trans hhi⟩,fun i hi' => ?_,?_⟩
  · rcases List.mem_cons.mp hi' with rfl | hmem
    · exact hmid
    · obtain ⟨h3,h4⟩ := hreads i hmem
      exact ⟨hlo.trans_lt h3,h4.trans hhi⟩
  · rw [List.length_cons]
    omega

theorem searchFrom_probes {lo hi : Nat} (hle : lo ≤ hi) :
    Probes lo hi (searchFrom key target lo hi) := by
  induction lo, hi using searchFrom.induct key target with
  | case1 lo hi h mid hgt ih =>
    have hm : lo < mid ∧ mid ≤ hi := mid_bounds h
    have hmid : (lo + hi + 1) >>> 1 = mid := rfl
    rw [searchFrom, dif_pos h]
    simp only [hmid, if_pos hgt]
    exact (ih (by omega)).probe le_rfl (by omega) hm (by omega)
  | case2 lo hi h mid hgt hlt ih =>
    have hm : lo < mid ∧ mid ≤ hi := mid_bounds h
    have hmid : (lo + hi + 1) >>> 1 = mid := rfl
    rw [searchFrom, dif_pos h]
    simp only [hmid, if_neg hgt, if_pos hlt]
    exact (ih hm.2).probe hm.1.le le_rfl hm (by omega)
  | case3 lo hi h mid hgt hlt =>
    obtain ⟨hm1,hm2⟩ := mid_bounds h
    have hmid : (lo + hi + 1) >>> 1 = mid := rfl
    rw [searchFrom, dif_pos h]
    simp only [hmid, if_neg hgt, if_neg hlt] at hm1 hm2 ⊢
    refine ⟨⟨hm1.le,hm2⟩,fun i hi' => ?_,?_⟩
    · rw [List.mem_singleton.mp hi']
      exact ⟨hm1,hm2⟩
    · rw [List.length_singleton]
      omega
  | case4 lo hi h =>
    rw [searchFrom, dif_neg h]
    exact ⟨⟨le_rfl,hle⟩,fun i hi' => absurd hi' List.not_mem_nil,Nat.zero_le _⟩

end LiMaoIM.FloorSearch

import LiMaoIM.Util.KeyLock

namespace LiMaoIM.Util

open Pool

section Accounts

variable {κ : Type}

def Pc.reading : Pc κ → Nat
  | .lockLookup _ | .lockAdd _ _ | .lockRUnlock _ _ => 1
  | .unlockLookup _ _ | .unlockDone _ _ _ | .unlockRUnlock _ _ => 1
  | _ => 0

def Pc.writing : Pc κ → Nat
  | .lockLookupAgain _ | .lockAddNew _ _ | .lockUnlock _ _ | .cleanRange _ => 1
  | _ => 0

def Pc.counted : Pc κ → Option Nat
  | .lockRUnlock _ (some keyLock) | .lockUnlock _ keyLock | .acquire _ keyLock => some keyLock
  | .unlockRLock _ own | .unlockLookup _ own | .unlockDone _ own _ => some own
  | _ => none

def Pc.locking : Pc κ → Option Nat
  | .unlockRLock _ own | .unlockLookup _ own | .unlockDone _ own _ => some own
  | .unlockRUnlock own _ | .release own _ => some own
  | _ => none

def Pc.refers : Pc κ → List (κ × Nat)
  | .lockAdd key keyLock | .lockRUnlock key (some keyLock) => [(key,keyLock)]
  | .lockAddNew key keyLock | .lockUnlock key keyLock | .acquire key keyLock => [(key,keyLock)]
  | .unlockRLock key own | .unlockLookup key own | .unlockDone key own _ => [(key,own)]
  | _ => []

def Pc.FindsOwn : Pc κ → Prop
  | .unlockDone _ own keyLock | .release own keyLock => keyLock = own
  | .unlockRUnlock own keyLock => keyLock = some own
  | .fatal => False
  | _ => True

def Pc.waitsFor : Pc κ → List (κ × Nat)
  | .lockAdd key keyLock | .lockRUnlock key (some keyLock) => [(key,keyLock)]
  | .lockAddNew key keyLock | .lockUnlock key keyLock | .acquire key keyLock => [(key,keyLock)]
  | _ => []

namespace Goroutine

variable (g : Goroutine κ) (p : Nat)

def reading : Nat := g.pc.reading

def writing : Nat := g.pc.writing

def counted : Nat := (g.pc.counted.toList ++ g.held.map Prod.snd).count p

def locking : Nat := (g.pc.locking.toList ++ g.held.map Prod.snd).count p

def sections [DecidableEq κ] (key : κ) (g : Goroutine κ) : Nat := (g.held.map Prod.fst).count key

def refers : List (κ × Nat) := g.pc.refers ++ g.held

def waitsForOrHolds : List (κ × Nat) := g.pc.waitsFor ++ g.held

variable {g}

theorem held_refers {kp : κ × Nat} (h : kp ∈ g.held) : kp ∈ g.refers :=
  List.mem_append_right _ h

theorem waitsForOrHolds_refers {kp : κ × Nat} (h : kp ∈ g.waitsForOrHolds) : kp ∈ g.refers := by
  rcases List.mem_append.mp h with hpc | hheld
  · refine List.mem_append_left _ ?_
    rcases g with ⟨pc,held⟩
    cases pc with
    | lockRUnlock key keyLock =>
      cases keyLock with
      | none => cases hpc
      | some keyLock => exact hpc
    | lockAdd | lockAddNew | lockUnlock | acquire => exact hpc
    | _ => cases hpc
  · exact held_refers hheld

theorem held_counted {kp : κ × Nat} (h : kp ∈ g.held) : 0 < g.counted kp.2 :=
  List.count_pos_iff.mpr (List.mem_append_right _ (List.mem_map_of_mem h))

theorem refers_guarded {kp : κ × Nat} (h : kp ∈ g.refers) :
    0 < g.counted kp.2 ∨ 0 < g.reading ∨ 0 < g.writing := by
  rcases List.mem_append.mp h with hpc | hheld
  · rcases g with ⟨pc,held⟩
    cases pc with
    | lockAdd key keyLock => exact Or.inr (Or.inl Nat.one_pos)
    | lockAddNew key keyLock => exact Or.inr (Or.inr Nat.one_pos)
    | lockRUnlock key keyLock => exact Or.inr (Or.inl Nat.one_pos)
    | lockUnlock key keyLock => exact Or.inr (Or.inr Nat.one_pos)
    | acquire key keyLock =>
      obtain rfl := List.mem_singleton.mp hpc
      exact Or.inl (List.count_pos_iff.mpr List.mem_cons_self)
    | unlockRLock key own =>
      obtain rfl := List.mem_singleton.mp hpc
      exact Or.inl (List.count_pos_iff.mpr List.mem_cons_self)
    | unlockLookup key own => exact Or.inr (Or.inl Nat.one_pos)
    | unlockDone key own keyLock => exact Or.inr (Or.inl Nat.one_pos)
    | _ => cases hpc
  · exact Or.inl (held_counted hheld)

end Goroutine

end Accounts

namespace KeyLock

variable {κ : Type} [DecidableEq κ]

structure Inv (l : KeyLock κ) (gs : Multiset (Goroutine κ)) : Prop where
  mutex : l.mutex.Held (total Goroutine.reading gs) (total Goroutine.writing gs)
  counted : ∀ p, (l.inner p).count = total (fun g => g.counted p) gs
  locking : ∀ p, (l.inner p).locked.toNat = total (fun g => g.locking p) gs
  fresh : ∀ p, l.allocated ≤ p → l.inner p = .new
  bound : ∀ key p, Assoc.get key l.locks = some p → p < l.allocated
  mapped : ∀ g ∈ gs, ∀ kp ∈ g.refers, Assoc.get kp.1 l.locks = some kp.2
  own : ∀ g ∈ gs, g.pc.FindsOwn

namespace Inv

variable {l l' : KeyLock κ} {g g' : Goroutine κ} {others : Multiset (Goroutine κ)}

theorem idle (n : Nat) : Inv (newKeyLock : KeyLock κ) (Multiset.replicate n ⟨.idle,[]⟩) := by
  have hzero (w : Goroutine κ → Nat) (hw : w ⟨.idle,[]⟩ = 0) :
      total w (Multiset.replicate n ⟨.idle,[]⟩) = 0 := by
    apply total_eq_zero
    intro g hg
    rw [Multiset.eq_of_mem_replicate hg, hw]
  constructor
  · rw [hzero _ rfl, hzero _ rfl]
    exact RWMutex.held_unlocked
  · intro p
    rw [hzero _ rfl]
    rfl
  · intro p
    rw [hzero _ rfl]
    rfl
  · exact fun p _ => rfl
  · intro key p h
    cases h
  · intro g hg kp hkp
    rw [Multiset.eq_of_mem_replicate hg] at hkp
    cases hkp
  · intro g hg
    rw [Multiset.eq_of_mem_replicate hg]
    trivial

section Same

variable (h : Inv l (g ::ₘ others)) (hown : g'.pc.FindsOwn)
include h hown

theorem next (hlocks : l'.locks = l.locks) (hallocated : l'.allocated = l.allocated)
    (hmapped : ∀ kp ∈ g'.refers, Assoc.get kp.1 l.locks = some kp.2)
    (hmutex : l'.mutex.Held (g'.reading + total Goroutine.reading others)
      (g'.writing + total Goroutine.writing others))
    (hcounted : ∀ p, (l'.inner p).count + g.counted p = (l.inner p).count + g'.counted p)
    (hlocking : ∀ p, (l'.inner p).locked.toNat + g.locking p =
      (l.inner p).locked.toNat + g'.locking p)
    (hfresh : ∀ p, l.allocated ≤ p → l'.inner p = .new) : Inv l' (g' ::ₘ others) := by
  constructor
  · rwa [total_cons, total_cons]
  · intro p
    have hbefore := h.counted p
    have hchange := hcounted p
    rw [total_cons] at hbefore ⊢
    omega
  · intro p
    have hbefore := h.locking p
    have hchange := hlocking p
    rw [total_cons] at hbefore ⊢
    omega
  · rwa [hallocated]
  · rw [hlocks, hallocated]
    exact h.bound
  · rw [hlocks]
    intro u hu
    rcases Multiset.mem_cons.mp hu with rfl | hu
    · exact hmapped
    · exact h.mapped u (Multiset.mem_cons_of_mem hu)
  · intro u hu
    rcases Multiset.mem_cons.mp hu with rfl | hu
    · exact hown
    · exact h.own u (Multiset.mem_cons_of_mem hu)

theorem lockMutex {m : RWMutex}
    (hmapped : ∀ kp ∈ g'.refers, Assoc.get kp.1 l.locks = some kp.2)
    (hmutex : m.Held (g'.reading + total Goroutine.reading others)
      (g'.writing + total Goroutine.writing others))
    (hcounted : ∀ p, g'.counted p = g.counted p) (hlocking : ∀ p, g'.locking p = g.locking p) :
    Inv { l with mutex := m } (g' ::ₘ others) := by
  refine h.next hown rfl rfl hmapped hmutex (fun p => ?_) (fun p => ?_) h.fresh
  · rw [hcounted p]
  · rw [hlocking p]

section Locking

variable {m : RWMutex} (hmapped : ∀ kp ∈ g'.refers, Assoc.get kp.1 l.locks = some kp.2)
  (hcounted : ∀ p, g'.counted p = g.counted p) (hlocking : ∀ p, g'.locking p = g.locking p)
include hmapped hcounted hlocking

theorem rLock (hm : l.mutex.rLock = some m) (hreading : g'.reading = g.reading + 1)
    (hwriting : g'.writing = g.writing) : Inv { l with mutex := m } (g' ::ₘ others) := by
  refine h.lockMutex hown hmapped ?_ hcounted hlocking
  have hmutex := h.mutex.rLock hm
  rwa [total_cons, total_cons, Nat.add_right_comm, ← hreading, ← hwriting] at hmutex

theorem rUnlock (hreading : g.reading = g'.reading + 1) (hwriting : g'.writing = g.writing) :
    Inv { l with mutex := l.mutex.rUnlock } (g' ::ₘ others) := by
  refine h.lockMutex hown hmapped ?_ hcounted hlocking
  have hmutex := h.mutex
  rw [total_cons, total_cons, hreading, ← hwriting, Nat.add_right_comm] at hmutex
  exact hmutex.rUnlock

theorem lock (hm : l.mutex.lock = some m) (hreading : g'.reading = g.reading)
    (hwriting : g'.writing = g.writing + 1) : Inv { l with mutex := m } (g' ::ₘ others) := by
  refine h.lockMutex hown hmapped ?_ hcounted hlocking
  have hmutex := h.mutex.lock hm
  rwa [total_cons, total_cons, Nat.add_right_comm, ← hreading, ← hwriting] at hmutex

theorem unlock (hreading : g'.reading = g.reading) (hwriting : g.writing = g'.writing + 1) :
    Inv { l with mutex := l.mutex.unlock } (g' ::ₘ others) := by
  refine h.lockMutex hown hmapped ?_ hcounted hlocking
  have hmutex := h.mutex
  rw [total_cons, total_cons, ← hreading, hwriting, Nat.add_right_comm] at hmutex
  exact hmutex.unlock

end Locking

theorem stay (hmapped : ∀ kp ∈ g'.refers, Assoc.get kp.1 l.locks = some kp.2)
    (hreading : g'.reading = g.reading) (hwriting : g'.writing = g.writing)
    (hcounted : ∀ p, g'.counted p = g.counted p) (hlocking : ∀ p, g'.locking p = g.locking p) :
    Inv l (g' ::ₘ others) := by
  refine h.lockMutex hown hmapped ?_ hcounted hlocking
  have hmutex := h.mutex
  rwa [total_cons, total_cons, ← hreading, ← hwriting] at hmutex

theorem update {p : Nat} {f : InnerLock → InnerLock} (hp : p < l.allocated)
    (hmapped : ∀ kp ∈ g'.refers, Assoc.get kp.1 l.locks = some kp.2)
    (hreading : g'.reading = g.reading) (hwriting : g'.writing = g.writing)
    (hcounted : (f (l.inner p)).count + g.counted p = (l.inner p).count + g'.counted p)
    (hlocking : (f (l.inner p)).locked.toNat + g.locking p =
      (l.inner p).locked.toNat + g'.locking p)
    (hother : ∀ q, q ≠ p → g'.counted q = g.counted q ∧ g'.locking q = g.locking q) :
    Inv (l.update p f) (g' ::ₘ others) := by
  refine h.next hown rfl rfl hmapped ?_ (fun q => ?_) (fun q => ?_) (fun q hq => ?_)
  · have hmutex := h.mutex
    rwa [total_cons, total_cons, ← hreading, ← hwriting] at hmutex
  · rcases eq_or_ne q p with rfl | hne
    · simpa only [KeyLock.update, Function.update_self] using hcounted
    · simp only [KeyLock.update, Function.update_of_ne hne, (hother q hne).1]
  · rcases eq_or_ne q p with rfl | hne
    · simpa only [KeyLock.update, Function.update_self] using hlocking
    · simp only [KeyLock.update, Function.update_of_ne hne, (hother q hne).2]
  · have hne : q ≠ p := by
      rintro rfl
      exact absurd hp (Nat.not_lt.mpr hq)
    simp only [KeyLock.update, Function.update_of_ne hne, h.fresh q hq]

end Same

theorem added {pc pc' : Pc κ} {held : List (κ × Nat)} {p : Nat} (h : Inv l (⟨pc,held⟩ ::ₘ others))
    (hown : pc'.FindsOwn) (hp : p < l.allocated)
    (hmapped : ∀ kp ∈ pc'.refers ++ held, Assoc.get kp.1 l.locks = some kp.2)
    (hreading : pc'.reading = pc.reading) (hwriting : pc'.writing = pc.writing)
    (hbefore : pc.counted = none) (hafter : pc'.counted = some p)
    (hlocking : pc'.locking = pc.locking) : Inv (l.update p .add) (⟨pc',held⟩ ::ₘ others) := by
  refine h.update hown hp hmapped hreading hwriting ?_ ?_ fun q hq => ⟨?_,?_⟩
  · simp only [InnerLock.add, Goroutine.counted, hbefore, hafter, Option.toList_none,
      Option.toList_some, List.nil_append, List.singleton_append, List.count_cons_self]
    omega
  · simp only [InnerLock.add, Goroutine.locking, hlocking]
  · simp only [Goroutine.counted, hbefore, hafter, Option.toList_none, Option.toList_some,
      List.nil_append, List.singleton_append, List.count_cons_of_ne hq.symm]
  · simp only [Goroutine.locking, hlocking]

theorem unclaimed {rest : List κ} {v : Nat} (h : Inv l (g ::ₘ others))
    (hpc : g.pc = .cleanRange rest) (hzero : (l.inner v).count = 0) :
    ∀ u ∈ g ::ₘ others, ∀ kp ∈ u.refers, kp.2 ≠ v := by
  have hwriting : g.writing = 1 := by rw [Goroutine.writing, hpc]; rfl
  have hwrite := h.mutex.writing_le
  have hcounted := h.counted v
  rw [total_cons, hwriting] at hwrite
  rw [hzero] at hcounted
  have hread : total Goroutine.reading (g ::ₘ others) = 0 := by
    rcases h.mutex.apart with hr | hw
    · exact hr
    · rw [total_cons, hwriting] at hw
      omega
  rintro u hu kp hkp rfl
  have hnone := le_total (w := fun g : Goroutine κ => g.counted kp.2) hu
  have hunread := le_total (w := Goroutine.reading) hu
  rcases Goroutine.refers_guarded hkp with hc | hr | hw
  · omega
  · omega
  · rcases Multiset.mem_cons.mp hu with rfl | hother
    · rcases List.mem_append.mp hkp with hp | hheld
      · rw [hpc] at hp
        cases hp
      · have hpos := Goroutine.held_counted hheld
        omega
    · have hunwrite := le_total (w := Goroutine.writing) hother
      omega

theorem deleted {rest rest' : List κ} {key : κ} {v : Nat} (h : Inv l (g ::ₘ others))
    (hpc : g.pc = .cleanRange rest) (hget : Assoc.get key l.locks = some v)
    (hzero : (l.inner v).count = 0) :
    Inv { l with locks := Assoc.erase key l.locks }
      ({ g with pc := .cleanRange rest' } ::ₘ others) := by
  have hunclaimed := h.unclaimed hpc hzero
  have hstay : Inv l ({ g with pc := .cleanRange rest' } ::ₘ others) := by
    refine h.stay trivial (fun kp hkp => ?_) ?_ ?_ (fun p => ?_) (fun p => ?_)
    · exact h.mapped g (Multiset.mem_cons_self _ _) kp (Goroutine.held_refers hkp)
    · simp only [Goroutine.reading, hpc, Pc.reading]
    · simp only [Goroutine.writing, hpc, Pc.writing]
    · simp only [Goroutine.counted, hpc, Pc.counted]
    · simp only [Goroutine.locking, hpc, Pc.locking]
  refine ⟨hstay.mutex,hstay.counted,hstay.locking,hstay.fresh,?_,?_,hstay.own⟩
  · intro k p hk
    rcases eq_or_ne k key with rfl | hne
    · rw [Assoc.get_erase_self] at hk
      cases hk
    · rw [Assoc.get_erase_ne hne] at hk
      exact h.bound k p hk
  · intro u hu kp hkp
    have hmap := hstay.mapped u hu kp hkp
    have hne : kp.1 ≠ key := by
      intro heq
      rw [heq, hget] at hmap
      have hv := (Option.some.inj hmap).symm
      rcases Multiset.mem_cons.mp hu with rfl | hother
      · exact hunclaimed g (Multiset.mem_cons_self _ _) kp (Goroutine.held_refers hkp) hv
      · exact hunclaimed u (Multiset.mem_cons_of_mem hother) kp hkp hv
    rwa [Assoc.get_erase_ne hne]

theorem created {key : κ} (h : Inv l (g ::ₘ others)) (hpc : g.pc = .lockLookupAgain key)
    (hget : Assoc.get key l.locks = none) :
    Inv (l.newInnerLock key) ({ g with pc := .lockAddNew key l.allocated } ::ₘ others) := by
  have hkeep (k : κ) (p : Nat) (hk : Assoc.get k l.locks = some p) :
      Assoc.get k (Assoc.put key l.allocated l.locks) = some p := by
    rw [Assoc.get_put_ne, hk]
    rintro rfl
    rw [hget] at hk
    cases hk
  have hnew : l.inner l.allocated = .new := h.fresh _ (le_refl _)
  have hinner : (l.newInnerLock key).inner = l.inner := by
    rw [KeyLock.newInnerLock, ← hnew, Function.update_eq_self]
  have hcounted (p : Nat) :
      ({ g with pc := .lockAddNew key l.allocated } : Goroutine κ).counted p = g.counted p := by
    simp only [Goroutine.counted, hpc, Pc.counted]
  have hlocking (p : Nat) :
      ({ g with pc := .lockAddNew key l.allocated } : Goroutine κ).locking p = g.locking p := by
    simp only [Goroutine.locking, hpc, Pc.locking]
  constructor
  · have hmutex := h.mutex
    rw [total_cons, total_cons] at hmutex ⊢
    simp only [Goroutine.reading, Goroutine.writing, hpc, Pc.reading, Pc.writing] at hmutex ⊢
    exact hmutex
  · intro p
    have hbefore := h.counted p
    rw [total_cons] at hbefore ⊢
    rw [hinner, hcounted, hbefore]
  · intro p
    have hbefore := h.locking p
    rw [total_cons] at hbefore ⊢
    rw [hinner, hlocking, hbefore]
  · intro p hp
    rw [hinner]
    exact h.fresh p (Nat.le_of_succ_le hp)
  · intro k p hk
    rcases eq_or_ne k key with rfl | hne
    · rw [KeyLock.newInnerLock, Assoc.get_put_self] at hk
      obtain rfl := Option.some.inj hk
      exact Nat.lt_succ_self _
    · rw [KeyLock.newInnerLock, Assoc.get_put_ne hne] at hk
      exact Nat.lt_succ_of_lt (h.bound k p hk)
  · intro u hu kp hkp
    rcases Multiset.mem_cons.mp hu with rfl | hother
    · rcases List.mem_append.mp hkp with hp | hheld
      · obtain rfl := List.mem_singleton.mp hp
        exact Assoc.get_put_self
      · exact hkeep _ _ (h.mapped g (Multiset.mem_cons_self _ _) kp (Goroutine.held_refers hheld))
    · exact hkeep _ _ (h.mapped u (Multiset.mem_cons_of_mem hother) kp hkp)
  · intro u hu
    rcases Multiset.mem_cons.mp hu with rfl | hother
    · trivial
    · exact h.own u (Multiset.mem_cons_of_mem hother)

section Phases

variable {held : List (κ × Nat)} {key : κ} {p : Nat}

theorem found {pc pc' : Pc κ} (h : Inv l (⟨pc,held⟩ ::ₘ others))
    (hget : Assoc.get key l.locks = some p) (hown : pc'.FindsOwn)
    (hrefers : pc'.refers = [(key,p)]) (hreading : pc'.reading = pc.reading)
    (hwriting : pc'.writing = pc.writing) (hcounted : pc'.counted = pc.counted)
    (hlocking : pc'.locking = pc.locking) : Inv l (⟨pc',held⟩ ::ₘ others) := by
  refine h.stay hown (fun kp hkp => ?_) hreading hwriting (fun q => ?_) fun q => ?_
  · rw [Goroutine.refers, hrefers] at hkp
    rcases List.mem_cons.mp hkp with rfl | hheld
    · exact hget
    · exact h.mapped _ (Multiset.mem_cons_self _ _) kp (Goroutine.held_refers hheld)
  · rw [Goroutine.counted, Goroutine.counted, hcounted]
  · rw [Goroutine.locking, Goroutine.locking, hlocking]

theorem acquired {il : InnerLock} (h : Inv l (⟨.acquire key p,held⟩ ::ₘ others))
    (hil : (l.inner p).lock = some il) :
    Inv (l.update p fun _ => il) (⟨.idle,(key,p) :: held⟩ ::ₘ others) := by
  have hself := h.mapped _ (Multiset.mem_cons_self _ _)
  have hp := h.bound key p (hself (key,p) List.mem_cons_self)
  obtain ⟨hbefore,rfl⟩ := InnerLock.lock_eq_some hil
  refine h.update ?_ hp ?_ ?_ ?_ ?_ ?_ fun q hq => ⟨?_,?_⟩
  · trivial
  · exact hself
  · rfl
  · rfl
  · rfl
  · rw [hbefore]
    simp only [Goroutine.locking, Pc.locking, Option.toList_none, List.nil_append,
      List.map_cons, List.count_cons_self, Bool.toNat_true, Bool.toNat_false]
    omega
  · rfl
  · exact List.count_cons_of_ne hq.symm

theorem finished (h : Inv l (⟨.unlockDone key p p,held⟩ ::ₘ others)) :
    Inv (l.update p .done) (⟨.unlockRUnlock p (some p),held⟩ ::ₘ others) := by
  have hself := h.mapped _ (Multiset.mem_cons_self _ _)
  have hp := h.bound key p (hself (key,p) List.mem_cons_self)
  refine h.update ?_ hp ?_ ?_ ?_ ?_ ?_ fun q hq => ⟨?_,?_⟩
  · rfl
  · exact fun kp hkp => hself kp (Goroutine.held_refers hkp)
  · rfl
  · rfl
  · simp only [InnerLock.done, Goroutine.counted, Pc.counted, Option.toList_none,
      Option.toList_some, List.nil_append, List.singleton_append, List.count_cons_self]
    omega
  · rfl
  · exact (List.count_cons_of_ne hq.symm).symm
  · rfl

theorem released (h : Inv l (⟨.release p p,held⟩ ::ₘ others)) :
    ∃ il, (l.inner p).unlock = some il ∧
      Inv (l.update p fun _ => il) (⟨.idle,held⟩ ::ₘ others) := by
  have hlocked : 0 < (l.inner p).locked.toNat := by
    have hpos : 0 < (⟨.release p p,held⟩ : Goroutine κ).locking p :=
      List.count_pos_iff.mpr List.mem_cons_self
    have hlocking := h.locking p
    rw [total_cons] at hlocking
    omega
  have hp : p < l.allocated := by
    by_contra hp
    rw [h.fresh p (Nat.le_of_not_lt hp)] at hlocked
    exact Nat.lt_irrefl 0 hlocked
  obtain ⟨hbefore,hunlock⟩ := InnerLock.unlock_locked hlocked
  refine ⟨_,hunlock,h.update ?_ hp ?_ ?_ ?_ ?_ ?_ fun q hq => ⟨?_,?_⟩⟩
  · trivial
  · exact fun kp hkp => h.mapped _ (Multiset.mem_cons_self _ _) kp hkp
  · rfl
  · rfl
  · rfl
  · rw [hbefore]
    simp only [Goroutine.locking, Pc.locking, Option.toList_none, Option.toList_some,
      List.nil_append, List.singleton_append, List.count_cons_self, Bool.toNat_true,
      Bool.toNat_false]
    omega
  · rfl
  · exact (List.count_cons_of_ne hq.symm).symm

end Phases

theorem proceed (h : Inv l (g ::ₘ others)) (hstep : l.proceed g = some (l',g')) :
    Inv l' (g' ::ₘ others) := by
  have hself := h.mapped g (Multiset.mem_cons_self _ _)
  have hfind := h.own g (Multiset.mem_cons_self _ _)
  rcases g with ⟨pc,held⟩
  cases pc with
  | idle => cases hstep
  | lockRLock key =>
    obtain ⟨m,hm,heq⟩ := Option.map_eq_some_iff.mp hstep
    obtain ⟨rfl,rfl⟩ := Prod.mk.inj heq
    refine h.rLock ?_ ?_ ?_ ?_ hm ?_ ?_
    exacts [trivial,hself,fun _ => rfl,fun _ => rfl,rfl,rfl]
  | lockLookup key =>
    simp only [KeyLock.proceed] at hstep
    cases hget : Assoc.get key l.locks with
    | none =>
      simp only [hget, Option.some.injEq, Prod.mk.injEq] at hstep
      obtain ⟨rfl,rfl⟩ := hstep
      exact h.stay trivial hself rfl rfl (fun _ => rfl) (fun _ => rfl)
    | some keyLock =>
      simp only [hget, Option.some.injEq, Prod.mk.injEq] at hstep
      obtain ⟨rfl,rfl⟩ := hstep
      exact h.found hget trivial rfl rfl rfl rfl rfl
  | lockAdd key keyLock =>
    obtain ⟨rfl,rfl⟩ := Prod.mk.inj (Option.some.inj hstep)
    have hp := h.bound key keyLock (hself (key,keyLock) List.mem_cons_self)
    refine h.added ?_ hp ?_ ?_ ?_ ?_ ?_ ?_
    exacts [trivial,hself,rfl,rfl,rfl,rfl,rfl]
  | lockRUnlock key keyLock =>
    cases keyLock with
    | none =>
      obtain ⟨rfl,rfl⟩ := Prod.mk.inj (Option.some.inj hstep)
      exact h.rUnlock trivial hself (fun _ => rfl) (fun _ => rfl) rfl rfl
    | some keyLock =>
      obtain ⟨rfl,rfl⟩ := Prod.mk.inj (Option.some.inj hstep)
      exact h.rUnlock trivial hself (fun _ => rfl) (fun _ => rfl) rfl rfl
  | lockLock key =>
    obtain ⟨m,hm,heq⟩ := Option.map_eq_some_iff.mp hstep
    obtain ⟨rfl,rfl⟩ := Prod.mk.inj heq
    refine h.lock ?_ ?_ ?_ ?_ hm ?_ ?_
    exacts [trivial,hself,fun _ => rfl,fun _ => rfl,rfl,rfl]
  | lockLookupAgain key =>
    simp only [KeyLock.proceed] at hstep
    cases hget : Assoc.get key l.locks with
    | none =>
      simp only [hget, Option.some.injEq, Prod.mk.injEq] at hstep
      obtain ⟨rfl,rfl⟩ := hstep
      exact h.created rfl hget
    | some keyLock =>
      simp only [hget, Option.some.injEq, Prod.mk.injEq] at hstep
      obtain ⟨rfl,rfl⟩ := hstep
      exact h.found hget trivial rfl rfl rfl rfl rfl
  | lockAddNew key keyLock =>
    obtain ⟨rfl,rfl⟩ := Prod.mk.inj (Option.some.inj hstep)
    have hp := h.bound key keyLock (hself (key,keyLock) List.mem_cons_self)
    refine h.added ?_ hp ?_ ?_ ?_ ?_ ?_ ?_
    exacts [trivial,hself,rfl,rfl,rfl,rfl,rfl]
  | lockUnlock key keyLock =>
    obtain ⟨rfl,rfl⟩ := Prod.mk.inj (Option.some.inj hstep)
    exact h.unlock trivial hself (fun _ => rfl) (fun _ => rfl) rfl rfl
  | acquire key keyLock =>
    obtain ⟨il,hil,heq⟩ := Option.map_eq_some_iff.mp hstep
    obtain ⟨rfl,rfl⟩ := Prod.mk.inj heq
    exact h.acquired hil
  | unlockRLock key own =>
    obtain ⟨m,hm,heq⟩ := Option.map_eq_some_iff.mp hstep
    obtain ⟨rfl,rfl⟩ := Prod.mk.inj heq
    refine h.rLock ?_ ?_ ?_ ?_ hm ?_ ?_
    exacts [trivial,hself,fun _ => rfl,fun _ => rfl,rfl,rfl]
  | unlockLookup key own =>
    have hget : Assoc.get key l.locks = some own := hself (key,own) List.mem_cons_self
    simp only [KeyLock.proceed, hget, Option.some.injEq, Prod.mk.injEq] at hstep
    obtain ⟨rfl,rfl⟩ := hstep
    exact h.stay rfl hself rfl rfl (fun _ => rfl) (fun _ => rfl)
  | unlockDone key own keyLock =>
    obtain ⟨rfl,rfl⟩ := Prod.mk.inj (Option.some.inj hstep)
    obtain rfl : keyLock = own := hfind
    exact h.finished
  | unlockRUnlock own keyLock =>
    obtain rfl : keyLock = some own := hfind
    obtain ⟨rfl,rfl⟩ := Prod.mk.inj (Option.some.inj hstep)
    exact h.rUnlock rfl hself (fun _ => rfl) (fun _ => rfl) rfl rfl
  | release own keyLock =>
    obtain rfl : keyLock = own := hfind
    obtain ⟨il,hunlock,hinv⟩ := h.released
    simp only [KeyLock.proceed, hunlock, Option.some.injEq, Prod.mk.injEq] at hstep
    obtain ⟨rfl,rfl⟩ := hstep
    exact hinv
  | cleanLock =>
    obtain ⟨m,hm,heq⟩ := Option.map_eq_some_iff.mp hstep
    obtain ⟨rfl,rfl⟩ := Prod.mk.inj heq
    refine h.lock ?_ ?_ ?_ ?_ hm ?_ ?_
    exacts [trivial,hself,fun _ => rfl,fun _ => rfl,rfl,rfl]
  | cleanRange rest =>
    cases rest with
    | nil =>
      obtain ⟨rfl,rfl⟩ := Prod.mk.inj (Option.some.inj hstep)
      exact h.unlock trivial hself (fun _ => rfl) (fun _ => rfl) rfl rfl
    | cons key rest => cases hstep
  | fatal => cases hstep

theorem step {choice : Choice κ} (h : Inv l (g ::ₘ others))
    (hstep : l.step g choice = some (l',g')) : Inv l' (g' ::ₘ others) := by
  have hself := h.mapped g (Multiset.mem_cons_self _ _)
  rcases g with ⟨pc,held⟩
  cases choice with
  | lock key =>
    cases pc with
    | idle =>
      obtain ⟨rfl,rfl⟩ := Prod.mk.inj (Option.some.inj hstep)
      exact h.stay trivial hself rfl rfl (fun _ => rfl) (fun _ => rfl)
    | _ => cases hstep
  | unlock key =>
    cases pc with
    | idle =>
      simp only [KeyLock.step] at hstep
      cases hget : Assoc.get key held with
      | none => simp [hget] at hstep
      | some own =>
        simp only [hget, Option.some.injEq, Prod.mk.injEq] at hstep
        obtain ⟨rfl,rfl⟩ := hstep
        have hmem := Assoc.mem_of_get hget
        have hperm : (own :: (held.erase (key,own)).map Prod.snd).Perm (held.map Prod.snd) :=
          ((List.perm_cons_erase hmem).map Prod.snd).symm
        refine h.stay trivial (fun kp hkp => ?_) rfl rfl hperm.count_eq hperm.count_eq
        rcases List.mem_cons.mp hkp with rfl | hkp
        · exact hself _ hmem
        · exact hself kp (List.mem_of_mem_erase hkp)
    | _ => cases hstep
  | clean =>
    cases pc with
    | idle =>
      obtain ⟨rfl,rfl⟩ := Prod.mk.inj (Option.some.inj hstep)
      exact h.stay trivial hself rfl rfl (fun _ => rfl) (fun _ => rfl)
    | _ => cases hstep
  | proceed => exact h.proceed hstep
  | visit key =>
    cases pc with
    | cleanRange rest =>
      simp only [KeyLock.step] at hstep
      split at hstep
      · obtain ⟨rfl,rfl⟩ := Prod.mk.inj (Option.some.inj hstep)
        rw [KeyLock.visit]
        split
        · rename_i v hget
          split
          · rename_i hzero
            exact h.deleted rfl hget hzero
          · exact h.stay trivial hself rfl rfl (fun _ => rfl) (fun _ => rfl)
        · exact h.stay trivial hself rfl rfl (fun _ => rfl) (fun _ => rfl)
      · cases hstep
    | _ => cases hstep

theorem exclusive {gs : Multiset (Goroutine κ)} (h : Inv l gs) (key : κ) :
    total (Goroutine.sections key) gs ≤ 1 := by
  cases hget : Assoc.get key l.locks with
  | none =>
    rw [total_eq_zero]
    · exact Nat.zero_le 1
    · intro g hg
      refine List.count_eq_zero.mpr fun hmem => ?_
      obtain ⟨kp,hkp,rfl⟩ := List.mem_map.mp hmem
      rw [h.mapped g hg kp (Goroutine.held_refers hkp)] at hget
      cases hget
  | some p =>
    have hle (g : Goroutine κ) (hg : g ∈ gs) :
        g.sections key ≤ g.locking p := by
      have hsame : ∀ kp ∈ g.held, kp.1 = key → kp.2 = p := by
        rintro kp hkp rfl
        rw [h.mapped g hg kp (Goroutine.held_refers hkp)] at hget
        exact Option.some.inj hget
      rw [Goroutine.sections, Goroutine.locking, List.count_append, List.count, List.countP_map,
        List.count, List.countP_map]
      refine le_trans (List.countP_mono_left fun kp hkp heq => ?_) (Nat.le_add_left _ _)
      have hk := hsame kp hkp (beq_iff_eq.mp heq)
      exact beq_iff_eq.mpr hk
    calc total (Goroutine.sections key) gs
      _ ≤ total (fun g => g.locking p) gs := total_mono hle
      _ = (l.inner p).locked.toNat := (h.locking p).symm
      _ ≤ 1 := Bool.toNat_le _

end Inv

structure Safe (c : Pool (KeyLock κ) (Goroutine κ)) : Prop where
  exclusive : ∀ key, total (Goroutine.sections key) (c.threads : Multiset (Goroutine κ)) ≤ 1
  findsOwn : ∀ g ∈ c.threads, g.pc.FindsOwn
  kept : ∀ choice c', advance step c choice = .ok c' →
    ∀ key p, Assoc.get key c.shared.locks = some p → Assoc.get key c'.shared.locks ≠ some p →
      ∀ g ∈ c.threads, ∀ kp ∈ g.waitsForOrHolds, kp.2 ≠ p

theorem Inv.safe {c : Pool (KeyLock κ) (Goroutine κ)} (h : Inv c.shared c.threads) : Safe c := by
  refine ⟨h.exclusive,fun g hg => h.own g hg,?_⟩
  intro choice c' hadvance key p hget hlost g hg kp hkp
  obtain ⟨c'',hcases,hadvanced⟩ := advance_cases KeyLock.step c choice
  obtain rfl : c'' = c' := Outcome.ok.inj (hcases.symm.trans hadvance)
  cases hadvanced with
  | idle heq => exact absurd (heq ▸ hget) hlost
  | moved t t' others hstep hbefore hafter =>
    obtain ⟨⟨rest,hpc⟩,hzero⟩ := KeyLock.removed_idle hstep hget hlost
    rw [hbefore] at h
    refine h.unclaimed hpc hzero g ?_ kp (Goroutine.waitsForOrHolds_refers hkp)
    rw [← hbefore]
    exact hg

def started (n : Nat) : Pool (KeyLock κ) (Goroutine κ) :=
  ⟨newKeyLock,List.replicate n ⟨.idle,[]⟩⟩

theorem key_lock_exclusive (n : Nat) (schedule : List (Nat × Choice κ)) :
    Run.Always (advance step) Safe (started n) schedule := by
  apply Run.Always.imp (fun c h => Inv.safe h)
  apply always_of_thread (fun l g choice l' g' others h hstep => h.step hstep)
  rw [started, Multiset.coe_replicate]
  exact Inv.idle n

end KeyLock

end LiMaoIM.Util

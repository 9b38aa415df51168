import LiMaoIM.Foundation.IndexedHeap

namespace LiMaoIM

open Outcome HeapOrder

namespace Calls

variable {σ α ρ : Type} (call : σ → α → Outcome (ρ × σ))

def Permits (allowed : σ → α → Prop) : σ → List α → Prop
  | _, [] => True
  | s, a :: as => allowed s a ∧ ∀ r s', call s a = .ok (r,s') → Permits allowed s' as

def Returns (P : σ → α → ρ → σ → Prop) : σ → List α → Prop
  | _, [] => True
  | s, a :: as => ∃ r s', call s a = .ok (r,s') ∧ P s a r s' ∧ Returns P s' as

variable {call}

theorem returns_of_invariant {Inv : σ → Prop} {allowed : σ → α → Prop} {P : σ → α → ρ → σ → Prop}
    (hcall : ∀ s a, Inv s → allowed s a → ∃ r s', call s a = .ok (r,s') ∧ P s a r s' ∧ Inv s')
    {s : σ} {as : List α} (hs : Inv s) (hp : Permits call allowed s as) : Returns call P s as := by
  induction as generalizing s with
  | nil => exact trivial
  | cons a as ih =>
    obtain ⟨r,s',hok,hP,hs'⟩ := hcall s a hs hp.1
    exact ⟨r,s',hok,hP,ih hs' (hp.2 r s' hok)⟩

end Calls

namespace IndexedHeap

variable {μ π : Type}

inductive Op (μ π : Type) where
  | push (x : Nat) (e : Entry μ π)
  | pop
  | remove (i : Nat)
  | peekAndShift (max : π)

def Op.Pushes : Op μ π → Nat → Prop
  | .push x _, y => y = x
  | _, _ => False

def setObject (x : Nat) (e : Entry μ π) (q : IndexedHeap μ π) : IndexedHeap μ π :=
  { q with objects := Function.update q.objects x e }

def Permitted (q : IndexedHeap μ π) : Op μ π → Prop
  | .push x _ => x ∉ q.items
  | .pop => q.items ≠ []
  | .remove i => i < q.items.length
  | .peekAndShift _ => True

def perform [LE π] [DecidableLE π] (q : IndexedHeap μ π) :
    Op μ π → Outcome (Option Nat × IndexedHeap μ π)
  | .push x e => do
      let q ← (q.setObject x e).push x
      pure (none,q)
  | .pop => do
      let (x,q) ← q.pop
      pure (some x,q)
  | .remove i => do
      let (x,q) ← q.remove i
      pure (some x,q)
  | .peekAndShift max => q.peekAndShift max

structure Out (x : Nat) (q q' : IndexedHeap μ π) : Prop where
  perm : q.items.Perm (x :: q'.items)
  index : (q'.objects x).index = -1

def Least [LE π] (x : Nat) (q : IndexedHeap μ π) : Prop := ∀ y ∈ q.items, q.pri x ≤ q.pri y

def Effect [LE π] (q : IndexedHeap μ π) (op : Op μ π) (r : Option Nat)
    (q' : IndexedHeap μ π) : Prop :=
  match op with
  | .push x e => r = none ∧ q'.items.Perm (x :: q.items) ∧
      (q'.objects x).model = e.model ∧ (q'.objects x).pri = e.pri
  | .pop => ∃ x, r = some x ∧ Out x q q' ∧ Least x q
  | .remove i => ∃ x, r = some x ∧ q.items[i]? = some x ∧ Out x q q'
  | .peekAndShift max => (r.isSome ↔ ∃ y ∈ q.items, q.pri y ≤ max) ∧ (r = none → q' = q) ∧
      ∀ x, r = some x → q.pri x ≤ max ∧ Out x q q' ∧ Least x q

structure Performed [LE π] (q : IndexedHeap μ π) (op : Op μ π) (r : Option Nat)
    (q' : IndexedHeap μ π) : Prop where
  ordered : Ordered q'.level q'.items.length
  indexed : Indexed q'
  effect : Effect q op r q'
  model : ∀ y, ¬op.Pushes y → (q'.objects y).model = (q.objects y).model
  pri : ∀ y, ¬op.Pushes y → (q'.objects y).pri = (q.objects y).pri
  outside : ∀ y ∉ q.items, ¬op.Pushes y → q'.objects y = q.objects y

variable {q q' : IndexedHeap μ π} {x : Nat}

theorem Taken.out (h : Taken x q q') : Out x q q' := ⟨h.perm,h.gone⟩

theorem objects_setObject_ne {y : Nat} (hy : y ≠ x) (e : Entry μ π) (q : IndexedHeap μ π) :
    (q.setObject x e).objects y = q.objects y := by
  simp only [setObject, Function.update_of_ne hy]

theorem objects_setObject_self (x : Nat) (e : Entry μ π) (q : IndexedHeap μ π) :
    (q.setObject x e).objects x = e := by
  simp only [setObject, Function.update_self]

variable [LE π]

theorem Taken.performed {op : Op μ π} {r : Option Nat} (h : Taken x q q')
    (ho : Ordered q'.level q'.items.length) (he : Effect q op r q') : Performed q op r q' :=
  ⟨ho,h.sound.indexed,he,fun y _ => h.same.model y,fun y _ => h.same.pri y,
    fun y hy _ => h.outside y hy⟩

theorem head_of_peekAndShift [DecidableLE π] {max : π}
    (h : q.peekAndShift max = .ok (some x,q')) : q.items.head? = some x := by
  rw [peekAndShift] at h
  cases hhead : q.items.head? with
  | none =>
    rw [hhead] at h
    cases h
  | some y =>
    rw [hhead] at h
    dsimp only at h
    split at h
    · cases h
    · obtain ⟨⟨z,q₁⟩,-,hsome⟩ := bind_eq_ok.mp h
      cases hsome
      rfl

theorem valid_of_nil (objects : Nat → Entry μ π) {capacity : Nat} (h : 0 < capacity) :
    Valid ⟨objects,[],capacity⟩ :=
  ⟨⟨⟨.nil,fun i x hx => by cases hx⟩,h,Nat.zero_le _⟩,fun k _ hk => by cases hk⟩

variable [Std.IsLinearPreorder π]

theorem Valid.least (hq : Valid q) (hx : q.items.head? = some x) : Least x q := by
  intro y hy
  obtain ⟨k,hk,rfl⟩ := List.mem_iff_getElem.mp hy
  have hpos : 0 < q.items.length := Nat.lt_of_le_of_lt (Nat.zero_le _) hk
  rw [List.head?_eq_getElem?, List.getElem?_eq_getElem hpos] at hx
  have hroot := hq.ordered.root_le hk
  rwa [level_of_lt hk, level_of_lt hpos, Option.some.inj hx] at hroot

variable [DecidableLE π]

theorem Valid.performs_push (hq : Valid q) (hx : x ∉ q.items) (e : Entry μ π) :
    ∃ q', q.perform (.push x e) = .ok (none,q') ∧ Performed q (.push x e) none q' ∧ Valid q' := by
  have hset := hq.setObject hx e
  obtain ⟨q',hpush,hpushed,hordered⟩ := push_pushed hset.sound hx
  have hself := objects_setObject_self x e q
  refine ⟨q',?_,?_,hpushed.sound,hordered hset.ordered⟩
  · rw [perform, IndexedHeap.setObject, hpush]
    rfl
  refine ⟨hordered hset.ordered,hpushed.sound.indexed,⟨rfl,?_,?_,?_⟩,?_,?_,?_⟩
  · exact hpushed.perm.trans List.perm_append_comm
  · exact (hpushed.same.model x).trans (congrArg Entry.model hself)
  · exact (hpushed.same.pri x).trans (congrArg Entry.pri hself)
  · intro y hy
    exact (hpushed.same.model y).trans (congrArg Entry.model (objects_setObject_ne hy e q))
  · intro y hy
    exact (hpushed.same.pri y).trans (congrArg Entry.pri (objects_setObject_ne hy e q))
  · intro y hmem hy
    exact (hpushed.outside y hmem hy).trans (objects_setObject_ne hy e q)

theorem Valid.performs_peekAndShift (hq : Valid q) (max : π) :
    ∃ r q', q.perform (.peekAndShift max) = .ok (r,q') ∧
      Performed q (.peekAndShift max) r q' ∧ Valid q' := by
  rcases peekAndShift_taken hq.sound max with ⟨hnone,hlate⟩ | ⟨x,q',hshift,hle,ht,hordered⟩
  · refine ⟨none,q,hnone,⟨hq.ordered,hq.sound.indexed,⟨?_,fun _ => rfl,?_⟩,fun _ _ => rfl,
      fun _ _ => rfl,fun _ _ _ => rfl⟩,hq⟩
    · constructor
      · intro h
        cases h
      · rintro ⟨y,hy,hle⟩
        exact absurd hle (hq.all_late hlate hy)
    · intro x hx
      cases hx
  · have ho := hordered hq.ordered
    have hx := head_of_peekAndShift hshift
    refine ⟨some x,q',hshift,ht.performed ho ⟨?_,?_,?_⟩,ht.sound,ho⟩
    · exact ⟨fun _ => ⟨x,ht.perm.mem_iff.mpr List.mem_cons_self,hle⟩,fun _ => rfl⟩
    · intro h
      cases h
    · intro y hy
      obtain rfl := Option.some.inj hy
      exact ⟨hle,ht.out,hq.least hx⟩

theorem Valid.performs (hq : Valid q) {op : Op μ π} (hp : q.Permitted op) :
    ∃ r q', q.perform op = .ok (r,q') ∧ Performed q op r q' ∧ Valid q' := by
  cases op with
  | push x e => exact ⟨none,hq.performs_push hp e⟩
  | pop =>
    have hx := List.head?_eq_some_head hp
    obtain ⟨q',hpop,ht,hordered⟩ := pop_taken hq.sound hx
    have ho := hordered hq.ordered
    refine ⟨some _,q',?_,ht.performed ho ⟨_,rfl,ht.out,hq.least hx⟩,ht.sound,ho⟩
    rw [perform, hpop]
    rfl
  | remove i =>
    have hx := List.getElem?_eq_getElem hp
    obtain ⟨q',hremove,ht,hordered⟩ := remove_taken hq.sound hx
    have ho := hordered hq.ordered
    refine ⟨some _,q',?_,ht.performed ho ⟨_,rfl,hx,ht.out⟩,ht.sound,ho⟩
    rw [perform, hremove]
    rfl
  | peekAndShift max => exact hq.performs_peekAndShift max

end IndexedHeap
end LiMaoIM

import LiMaoIM.Foundation.IndexedHeap
import LiMaoIM.Foundation.Utf8

namespace LiMaoIM.Lim

open Outcome

structure ForwardRecvPacketReq where
  no : Bytes
  users : List Bytes
  message : Bytes
  fromDeviceFlag : Int32
deriving DecidableEq

structure NodeInFlightDataModel where
  no : Bytes
  nodeID : Int32
  req : ForwardRecvPacketReq
deriving DecidableEq

structure NodeInFlightData where
  model : NodeInFlightDataModel
  pri : Int64
  index : Int

-- the slice holds pointers: items are the handles of objects, whose fields change in place
structure NodeInFlightDataPqueue where
  objects : Nat → NodeInFlightData
  items : List Nat
  cap : Nat

namespace NodeInFlightDataPqueue

def indexOutOfRange : String := "runtime error: index out of range"

def sliceBoundsOutOfRange : String := "runtime error: slice bounds out of range"

def item (q : NodeInFlightDataPqueue) (i : Nat) : Outcome Nat :=
  match q.items[i]? with
  | some h => .ok h
  | none => .panic indexOutOfRange

def pri (q : NodeInFlightDataPqueue) (h : Nat) : Int64 := (q.objects h).pri

def setIndex (h : Nat) (index : Int) (q : NodeInFlightDataPqueue) : NodeInFlightDataPqueue :=
  { q with objects := Function.update q.objects h { q.objects h with index := index } }

def swap (i j : Nat) (q : NodeInFlightDataPqueue) : Outcome NodeInFlightDataPqueue := do
  let a ← q.item i
  let b ← q.item j
  pure (({ q with items := (q.items.set i b).set j a }.setIndex b i).setIndex a j)

def up (j : Nat) (q : NodeInFlightDataPqueue) : Outcome NodeInFlightDataPqueue :=
  if (j - 1) / 2 = j then pure q
  else do
    let child ← q.item j
    let parent ← q.item ((j - 1) / 2)
    if q.pri parent ≤ q.pri child then pure q
    else do
      let q ← q.swap ((j - 1) / 2) j
      up ((j - 1) / 2) q
termination_by j
decreasing_by omega

def rightFirst (j1 n : Nat) (q : NodeInFlightDataPqueue) : Outcome Bool :=
  if j1 + 1 < n then do
    let left ← q.item j1
    let right ← q.item (j1 + 1)
    pure (decide (q.pri right ≤ q.pri left))
  else pure false

def down (i n : Nat) (q : NodeInFlightDataPqueue) : Outcome NodeInFlightDataPqueue :=
  if n ≤ 2 * i + 1 then pure q
  else do
    let right ← q.rightFirst (2 * i + 1) n
    let child ← q.item (2 * i + 1 + right.toNat)
    let parent ← q.item i
    if q.pri parent ≤ q.pri child then pure q
    else do
      let q ← q.swap i (2 * i + 1 + right.toNat)
      down (2 * i + 1 + right.toNat) n q
termination_by n - i
decreasing_by omega

def push (x : Nat) (q : NodeInFlightDataPqueue) : Outcome NodeInFlightDataPqueue :=
  let n := q.items.length
  let cap := if q.cap < n + 1 then q.cap * 2 else q.cap
  if cap < n + 1 then .panic sliceBoundsOutOfRange
  else ({ q with items := q.items ++ [x], cap := cap }.setIndex x n).up n

def removeLast (q : NodeInFlightDataPqueue) : Outcome (Nat × NodeInFlightDataPqueue) := do
  let x ← q.item (q.items.length - 1)
  pure (x,{ q with items := q.items.dropLast }.setIndex x (-1))

def pop (q : NodeInFlightDataPqueue) : Outcome (Nat × NodeInFlightDataPqueue) := do
  let n := q.items.length
  let q ← q.swap 0 (n - 1)
  let q ← q.down 0 (n - 1)
  let q := if n < q.cap / 2 ∧ 25 < q.cap then { q with cap := q.cap / 2 } else q
  q.removeLast

def remove (i : Nat) (q : NodeInFlightDataPqueue) : Outcome (Nat × NodeInFlightDataPqueue) := do
  let n := q.items.length
  let q ← if n - 1 ≠ i then do
      let q ← q.swap i (n - 1)
      let q ← q.down i (n - 1)
      q.up i
    else pure q
  q.removeLast

def peekAndShift (max : Int64) (q : NodeInFlightDataPqueue) :
    Outcome (Option Nat × NodeInFlightDataPqueue) :=
  match q.items.head? with
  | none => pure (none,q)
  | some x =>
      if max < q.pri x then pure (none,q)
      else do
        let (_,q) ← q.pop
        pure (some x,q)

structure Indexed (q : NodeInFlightDataPqueue) : Prop where
  nodup : q.items.Nodup
  index : ∀ (i h : Nat), q.items[i]? = some h → (q.objects h).index = i

structure Roomy (q : NodeInFlightDataPqueue) : Prop where
  positive : 0 < q.cap
  fits : q.items.length ≤ q.cap

structure Valid (q : NodeInFlightDataPqueue) : Prop where
  indexed : Indexed q
  roomy : Roomy q

def heap (q : NodeInFlightDataPqueue) : IndexedHeap NodeInFlightDataModel Int64 :=
  ⟨fun h => ⟨(q.objects h).model,(q.objects h).pri,(q.objects h).index⟩,q.items,q.cap⟩

variable {q q' : NodeInFlightDataPqueue} {i j n h x : Nat}

structure Pushed (x : Nat) (q q' : NodeInFlightDataPqueue) : Prop where
  valid : Valid q'
  perm : q'.items.Perm (q.items ++ [x])
  data : ∀ h, (q'.objects h).model = (q.objects h).model
  outside : ∀ y ∉ q.items, y ≠ x → q'.objects y = q.objects y

structure Taken (x : Nat) (q q' : NodeInFlightDataPqueue) : Prop where
  valid : Valid q'
  perm : q.items.Perm (x :: q'.items)
  data : ∀ h, (q'.objects h).model = (q.objects h).model
  outside : ∀ y ∉ q.items, q'.objects y = q.objects y
  gone : (q'.objects x).index = -1

theorem sound_heap : q.heap.Sound ↔ Valid q :=
  ⟨fun h => ⟨⟨h.indexed.nodup,h.indexed.index⟩,h.positive,h.fits⟩,
    fun h => ⟨⟨h.indexed.nodup,h.indexed.index⟩,h.roomy.positive,h.roomy.fits⟩⟩

theorem objects_of_heap (h : q'.heap.objects x = q.heap.objects x) : q'.objects x = q.objects x := by
  obtain ⟨hmodel,hpri,hindex⟩ := Entry.mk.inj h
  cases hx' : q'.objects x
  cases hx : q.objects x
  rw [hx', hx] at hmodel hpri hindex
  exact NodeInFlightData.mk.injEq .. ▸ ⟨hmodel,hpri,hindex⟩

theorem Pushed.of_heap (h : q.heap.Pushed x q'.heap) : Pushed x q q' :=
  ⟨sound_heap.mp h.sound,h.perm,h.same.model,fun y hy hne => objects_of_heap (h.outside y hy hne)⟩

theorem Taken.of_heap (h : q.heap.Taken x q'.heap) : Taken x q q' :=
  ⟨sound_heap.mp h.sound,h.perm,h.same.model,fun y hy => objects_of_heap (h.outside y hy),h.gone⟩

theorem setIndex_heap (h : Nat) (index : Int) (q : NodeInFlightDataPqueue) :
    (q.setIndex h index).heap = q.heap.setIndex h index := by
  rw [heap, IndexedHeap.setIndex]
  congr 1
  funext x
  rcases eq_or_ne x h with rfl | hne
  · simp only [setIndex, heap, Function.update_self]
  · simp only [setIndex, heap, Function.update_of_ne hne]

theorem item_heap (i : Nat) (q : NodeInFlightDataPqueue) : q.heap.item i = q.item i := by
  rw [IndexedHeap.item, item]
  rfl

theorem swap_heap (i j : Nat) (q : NodeInFlightDataPqueue) :
    q.heap.swap i j = heap <$> q.swap i j := by
  rw [IndexedHeap.swap, swap, item_heap, item_heap, map_of_bind]
  refine bind_congr fun a => ?_
  rw [map_of_bind]
  refine bind_congr fun b => congrArg Outcome.ok (Eq.symm ?_)
  rw [setIndex_heap, setIndex_heap]
  rfl

theorem up_heap (j : Nat) (q : NodeInFlightDataPqueue) :
    q.heap.up j = heap <$> q.up j := by
  induction j using Nat.strong_induction_on generalizing q with
  | _ j ih =>
    rw [IndexedHeap.up, up, item_heap, item_heap]
    split
    · rfl
    · rw [map_of_bind]
      refine bind_congr fun child => ?_
      rw [map_of_bind]
      refine bind_congr fun parent => ?_
      have hpri : (q.heap.pri parent ≤ q.heap.pri child) = (q.pri parent ≤ q.pri child) := rfl
      simp only [hpri]
      split
      · rfl
      · rw [swap_heap, bind_of_map, map_of_bind]
        exact bind_congr fun q₁ => ih ((j - 1) / 2) (by omega) q₁

theorem rightFirst_heap (j1 n : Nat) (q : NodeInFlightDataPqueue) :
    q.heap.rightFirst j1 n = q.rightFirst j1 n := by
  rw [IndexedHeap.rightFirst, rightFirst, item_heap, item_heap]
  rfl

theorem down_heap (i n : Nat) (q : NodeInFlightDataPqueue) :
    q.heap.down i n = heap <$> q.down i n := by
  induction hk : n - i using Nat.strong_induction_on generalizing q i with
  | _ k ih =>
    rw [IndexedHeap.down, down, rightFirst_heap]
    split
    · rfl
    · rename_i hchild
      rw [map_of_bind]
      refine bind_congr fun right => ?_
      rw [map_of_bind, item_heap, item_heap]
      refine bind_congr fun child => ?_
      rw [map_of_bind]
      refine bind_congr fun parent => ?_
      have hpri : (q.heap.pri parent ≤ q.heap.pri child) = (q.pri parent ≤ q.pri child) := rfl
      simp only [hpri]
      split
      · rfl
      · rw [swap_heap, bind_of_map, map_of_bind]
        exact bind_congr fun q₁ => ih _ (by omega) _ q₁ rfl

theorem push_heap (x : Nat) (q : NodeInFlightDataPqueue) :
    q.heap.push x = heap <$> q.push x := by
  have hitems : q.heap.items = q.items := rfl
  have hcap : q.heap.cap = q.cap := rfl
  rw [IndexedHeap.push, push, hitems, hcap]
  generalize (if q.cap < q.items.length + 1 then q.cap * 2 else q.cap) = cap
  split
  · rfl
  · rw [← up_heap, setIndex_heap]
    rfl

theorem removeLast_heap (q : NodeInFlightDataPqueue) :
    q.heap.removeLast = Prod.map id heap <$> q.removeLast := by
  rw [IndexedHeap.removeLast, removeLast, item_heap, map_of_bind]
  refine bind_congr fun x => congrArg (fun p => Outcome.ok (x,p)) (Eq.symm ?_)
  exact setIndex_heap x (-1) _

theorem pop_heap (q : NodeInFlightDataPqueue) :
    q.heap.pop = Prod.map id heap <$> q.pop := by
  have hitems : q.heap.items = q.items := rfl
  rw [IndexedHeap.pop, pop, hitems]
  simp only
  rw [swap_heap, bind_of_map, map_of_bind]
  refine bind_congr fun q₁ => ?_
  rw [down_heap, bind_of_map, map_of_bind]
  refine bind_congr fun q₂ => ?_
  have hcap : q₂.heap.cap = q₂.cap := rfl
  rw [hcap]
  split
  · rw [← removeLast_heap]
    rfl
  · exact removeLast_heap q₂

theorem remove_heap (i : Nat) (q : NodeInFlightDataPqueue) :
    q.heap.remove i = Prod.map id heap <$> q.remove i := by
  have hitems : q.heap.items = q.items := rfl
  rw [IndexedHeap.remove, remove, hitems]
  simp only
  split
  · rw [swap_heap, bind_of_map, map_of_bind]
    refine bind_congr fun q₁ => ?_
    rw [down_heap, bind_of_map, map_of_bind]
    refine bind_congr fun q₂ => ?_
    rw [up_heap, bind_of_map, map_of_bind]
    exact bind_congr fun q₃ => removeLast_heap q₃
  · exact removeLast_heap q

theorem peekAndShift_heap (max : Int64) (q : NodeInFlightDataPqueue) :
    q.heap.peekAndShift max = Prod.map id heap <$> q.peekAndShift max := by
  have hitems : q.heap.items = q.items := rfl
  rw [IndexedHeap.peekAndShift, peekAndShift, hitems]
  cases q.items.head? with
  | none => rfl
  | some x =>
    have hpri : (¬ q.heap.pri x ≤ max) = (max < q.pri x) := propext Int64.not_le
    simp only [hpri]
    split
    · rfl
    · rw [pop_heap, bind_of_map, map_of_bind]
      rfl

theorem Valid.index_of_mem (hq : Valid q) (h : x ∈ q.items) :
    ∃ i : Nat, q.items[i]? = some x ∧ (q.objects x).index = i :=
  (sound_heap.mpr hq).index_of_mem h

theorem push_pushed (hq : Valid q) (hx : x ∉ q.items) :
    ∃ q', q.push x = .ok q' ∧ Pushed x q q' := by
  obtain ⟨p,hpush,hp,-⟩ := IndexedHeap.push_pushed (sound_heap.mpr hq) hx
  rw [push_heap] at hpush
  obtain ⟨q',hq',rfl⟩ := map_eq_ok.mp hpush
  exact ⟨q',hq',.of_heap hp⟩

theorem remove_taken (hq : Valid q) (hx : q.items[i]? = some x) :
    ∃ q', q.remove i = .ok (x,q') ∧ Taken x q q' := by
  obtain ⟨p,hremove,ht,-⟩ := IndexedHeap.remove_taken (sound_heap.mpr hq) hx
  rw [remove_heap] at hremove
  obtain ⟨⟨y,q'⟩,hq',heq⟩ := map_eq_ok.mp hremove
  obtain ⟨rfl,rfl⟩ := Prod.mk.inj heq
  exact ⟨q',hq',.of_heap ht⟩

theorem heap_injective : Function.Injective heap := by
  intro q q' h
  have hobjects : q.objects = q'.objects := funext fun x =>
    objects_of_heap (congrFun (congrArg IndexedHeap.objects h) x)
  cases q
  cases q'
  rw [mk.injEq]
  exact ⟨hobjects,congrArg IndexedHeap.items h,congrArg IndexedHeap.cap h⟩

theorem peekAndShift_taken (hq : Valid q) (max : Int64) :
    q.peekAndShift max = .ok (none,q) ∨
      ∃ x q', q.peekAndShift max = .ok (some x,q') ∧ Taken x q q' := by
  rcases IndexedHeap.peekAndShift_taken (sound_heap.mpr hq) max with
    ⟨hnone,-⟩ | ⟨x,p,hshift,-,ht,-⟩
  · left
    rw [peekAndShift_heap] at hnone
    obtain ⟨⟨y,q'⟩,hq',heq⟩ := map_eq_ok.mp hnone
    obtain ⟨rfl,hsame⟩ := Prod.mk.inj heq
    rw [hq', heap_injective hsame]
  · rw [peekAndShift_heap] at hshift
    obtain ⟨⟨y,q'⟩,hq',heq⟩ := map_eq_ok.mp hshift
    obtain ⟨rfl,rfl⟩ := Prod.mk.inj heq
    exact Or.inr ⟨x,q',hq',.of_heap ht⟩

end NodeInFlightDataPqueue
end LiMaoIM.Lim

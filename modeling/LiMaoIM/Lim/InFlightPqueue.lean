import LiMaoIM.Foundation.HeapCalls
import LiMaoIM.Lim.NodeInFlightPqueue
import LiMaoIM.Lim.RetryQueue

namespace LiMaoIM.Lim

open Outcome IndexedHeap HeapOrder

namespace NodeInFlightDataPqueue

def newNodeInFlightDataPqueue (capacity : Nat) : NodeInFlightDataPqueue :=
  ⟨fun _ => ⟨⟨[],0,⟨[],[],[],0⟩⟩,0,0⟩,[],capacity⟩

abbrev Op : Type := IndexedHeap.Op NodeInFlightDataModel Int64

def setObject (x : Nat) (e : Entry NodeInFlightDataModel Int64) (q : NodeInFlightDataPqueue) :
    NodeInFlightDataPqueue :=
  { q with objects := Function.update q.objects x ⟨e.model,e.pri,e.index⟩ }

def Permitted (q : NodeInFlightDataPqueue) : Op → Prop
  | .push x _ => x ∉ q.items
  | .pop => q.items ≠ []
  | .remove i => i < q.items.length
  | .peekAndShift _ => True

def perform (q : NodeInFlightDataPqueue) : Op → Outcome (Option Nat × NodeInFlightDataPqueue)
  | .push x e => do
      let q ← (q.setObject x e).push x
      pure (none,q)
  | .pop => do
      let (x,q) ← q.pop
      pure (some x,q)
  | .remove i => do
      let (x,q) ← q.remove i
      pure (some x,q)
  | .peekAndShift max => q.peekAndShift max

theorem setObject_heap (x : Nat) (e : Entry NodeInFlightDataModel Int64)
    (q : NodeInFlightDataPqueue) : (q.setObject x e).heap = q.heap.setObject x e := by
  rw [heap, IndexedHeap.setObject]
  congr 1
  funext y
  rcases eq_or_ne y x with rfl | hne
  · simp only [setObject, heap, Function.update_self]
  · simp only [setObject, heap, Function.update_of_ne hne]

theorem permitted_heap {q : NodeInFlightDataPqueue} {op : Op} :
    q.heap.Permitted op ↔ q.Permitted op := by
  cases op <;> exact Iff.rfl

theorem perform_heap (q : NodeInFlightDataPqueue) (op : Op) :
    q.heap.perform op = Prod.map id heap <$> q.perform op := by
  cases op with
  | push x e =>
    rw [IndexedHeap.perform, perform, ← setObject_heap, push_heap, bind_of_map, map_of_bind]
    rfl
  | pop =>
    rw [IndexedHeap.perform, perform, pop_heap, bind_of_map, map_of_bind]
    rfl
  | remove i =>
    rw [IndexedHeap.perform, perform, remove_heap, bind_of_map, map_of_bind]
    rfl
  | peekAndShift max => exact peekAndShift_heap max q

def Performed (q : NodeInFlightDataPqueue) (op : Op) (r : Option Nat)
    (q' : NodeInFlightDataPqueue) : Prop := q.heap.Performed op r q'.heap

theorem perform_performed {q : NodeInFlightDataPqueue} (hq : q.heap.Valid) {op : Op}
    (hp : q.Permitted op) :
    ∃ r q', q.perform op = .ok (r,q') ∧ q.Performed op r q' ∧ q'.heap.Valid := by
  obtain ⟨r,p,hperform,hp,hv⟩ := hq.performs (permitted_heap.mpr hp)
  rw [perform_heap] at hperform
  obtain ⟨⟨r',q'⟩,hok,heq⟩ := map_eq_ok.mp hperform
  obtain ⟨rfl,rfl⟩ := Prod.mk.inj heq
  exact ⟨r',q',hok,hp,hv⟩

end NodeInFlightDataPqueue

theorem inFlightPqueue_operations (capacity : Nat) (h : 1 ≤ capacity) :
    (∀ ops, Calls.Permits perform Permitted (newInFlightPqueue capacity) ops →
      Calls.Returns perform Performed (newInFlightPqueue capacity) ops) ∧
    ∀ ops, Calls.Permits NodeInFlightDataPqueue.perform NodeInFlightDataPqueue.Permitted
        (NodeInFlightDataPqueue.newNodeInFlightDataPqueue capacity) ops →
      Calls.Returns NodeInFlightDataPqueue.perform NodeInFlightDataPqueue.Performed
        (NodeInFlightDataPqueue.newNodeInFlightDataPqueue capacity) ops := by
  have hmessage (q : InFlightPqueue) (op : Op Message Int64) (hq : q.Valid) (hp : q.Permitted op) :=
    hq.performs hp
  have hnode (q : NodeInFlightDataPqueue) (op : NodeInFlightDataPqueue.Op) (hq : q.heap.Valid)
      (hp : q.Permitted op) := NodeInFlightDataPqueue.perform_performed hq hp
  constructor
  · intro ops hp
    exact Calls.returns_of_invariant hmessage (valid_of_nil _ h) hp
  · intro ops hp
    exact Calls.returns_of_invariant hnode (valid_of_nil _ h) hp

theorem inFlightPqueue_operations_push_peek :
    let x := (newInFlightPqueue 1).objects 0
    Calls.Returns perform Performed (newInFlightPqueue 1)
      [.push 0 { x with pri := 5 },.peekAndShift 4,.peekAndShift 7] :=
  (inFlightPqueue_operations 1 (by decide)).1 _
    ⟨List.not_mem_nil,fun _ _ _ => ⟨trivial,fun _ _ _ => ⟨trivial,fun _ _ _ => trivial⟩⟩⟩

end LiMaoIM.Lim

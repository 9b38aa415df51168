import LiMaoIM.Foundation.Assoc
import LiMaoIM.Foundation.Run
import LiMaoIM.Lim.NodeInFlightPqueue

namespace LiMaoIM.Lim

open Outcome

def NodeInFlightDataModel.reread (m : NodeInFlightDataModel) : NodeInFlightDataModel where
  no := Utf8.toValid m.no
  nodeID := m.nodeID
  req :=
    { m.req with
      no := Utf8.toValid m.req.no
      users := m.req.users.map Utf8.toValid }

def addNodeInFlightData (data stored : List NodeInFlightDataModel) : List NodeInFlightDataModel :=
  if data.length ≤ 0 then stored else data.map NodeInFlightDataModel.reread

structure NodeInFlightQueue where
  infFlights : List (Bytes × NodeInFlightDataModel)
  inFlightPQ : NodeInFlightDataPqueue
  inFlightData : List (Bytes × Nat)
  next : Nat

structure Attempt where
  now : Int64
  forwarded : Bool

namespace NodeInFlightQueue

def notInFlight : String := "ID not in flight"

def new : NodeInFlightQueue :=
  ⟨[],⟨fun _ => ⟨⟨[],0,⟨[],[],[],0⟩⟩,0,0⟩,[],1024⟩,[],0⟩

def data (q : NodeInFlightQueue) (h : Nat) : NodeInFlightData := q.inFlightPQ.objects h

def no (q : NodeInFlightQueue) (h : Nat) : Bytes := (q.data h).model.no

def models (q : NodeInFlightQueue) : List NodeInFlightDataModel :=
  q.inFlightData.map fun e => (q.data e.2).model

def setObject (h : Nat) (d : NodeInFlightData) (q : NodeInFlightQueue) : NodeInFlightQueue :=
  { q with inFlightPQ := { q.inFlightPQ with objects := Function.update q.inFlightPQ.objects h d } }

def alloc (m : NodeInFlightDataModel) (q : NodeInFlightQueue) : NodeInFlightQueue :=
  { q.setObject q.next ⟨m,0,0⟩ with next := q.next + 1 }

def addToInFlightPQ (h : Nat) (q : NodeInFlightQueue) : Outcome NodeInFlightQueue := do
  let pq ← q.inFlightPQ.push h
  pure { q with inFlightPQ := pq }

def pushInFlightMessage (h : Nat) (q : NodeInFlightQueue) : NodeInFlightQueue :=
  match Assoc.get (q.no h) q.inFlightData with
  | some _ => q
  | none => { q with inFlightData := Assoc.put (q.no h) h q.inFlightData }

def startInFlightTimeout (timeout now : Int64) (h : Nat) (q : NodeInFlightQueue) :
    Outcome NodeInFlightQueue :=
  ((q.setObject h { q.data h with pri := now + timeout }).pushInFlightMessage h).addToInFlightPQ h

def popInFlightMessage (no : Bytes) (q : NodeInFlightQueue) : Outcome (Nat × NodeInFlightQueue) :=
  match Assoc.get no q.inFlightData with
  | none => .error notInFlight
  | some h => .ok (h,{ q with inFlightData := Assoc.erase no q.inFlightData })

def removeFromInFlightPQ (h : Nat) (q : NodeInFlightQueue) : Outcome NodeInFlightQueue :=
  if (q.data h).index = -1 then pure q
  else do
    let (_,pq) ← q.inFlightPQ.remove (q.data h).index.toNat
    pure { q with inFlightPQ := pq }

def finishMessage (no : Bytes) (q : NodeInFlightQueue) : Outcome NodeInFlightQueue := do
  let (h,q) ← q.popInFlightMessage no
  q.removeFromInFlightPQ h

def startDeliveryNodeData (timeout : Int64) (a : Attempt) (h : Nat) (q : NodeInFlightQueue) :
    Outcome NodeInFlightQueue := do
  let q ← q.startInFlightTimeout timeout a.now h
  if a.forwarded then
    match q.finishMessage (q.no h) with
    | .error _ => pure q
    | finished => finished
  else pure q

def processInFlightQueue (timeout t : Int64) : List Attempt → NodeInFlightQueue →
    Outcome (List NodeInFlightDataModel × NodeInFlightQueue)
  -- no further attempt is given: the round is still going on
  | [], q => pure ([],q)
  | a :: attempts, q => do
      let (data,pq) ← q.inFlightPQ.peekAndShift t
      let q := { q with inFlightPQ := pq }
      match data with
      | none => pure ([],q)
      | some h =>
          match q.popInFlightMessage (q.no h) with
          | .panic e => .panic e
          | .error _ => pure ([],q)
          | .ok (_,q) => do
              let model := (q.data h).model
              let q ← q.startDeliveryNodeData timeout a h
              let (forwarded,q) ← processInFlightQueue timeout t attempts q
              pure (if a.forwarded then model :: forwarded else forwarded,q)

def startAll (timeout : Int64) : List (NodeInFlightDataModel × Int64) → NodeInFlightQueue →
    Outcome NodeInFlightQueue
  | [], q => pure q
  | (m,now) :: rest, q => do
      let q ← (q.alloc m).startInFlightTimeout timeout now q.next
      startAll timeout rest q

def start (timeout : Int64) (clock : Nat → Int64) (stored : List NodeInFlightDataModel)
    (q : NodeInFlightQueue) : Outcome (NodeInFlightQueue × List NodeInFlightDataModel) := do
  let q ← q.startAll timeout (stored.zipIdx.map fun e => (e.1,clock e.2))
  pure (q,[])

def stop (stored : List NodeInFlightDataModel) (q : NodeInFlightQueue) :
    List NodeInFlightDataModel :=
  let datas := q.infFlights.map (·.2)
  if 0 < datas.length then addNodeInFlightData datas stored else stored

end NodeInFlightQueue

structure NodeDelivery where
  queue : NodeInFlightQueue
  stored : List NodeInFlightDataModel
  pending : List NodeInFlightDataModel

inductive DeliveryEvent where
  | deliver (m : NodeInFlightDataModel) (a : Attempt)
  | process (t : Int64) (attempts : List Attempt)

def NodeDelivery.start (timeout : Int64) (clock : Nat → Int64)
    (stored : List NodeInFlightDataModel) : Outcome NodeDelivery := do
  let (q,rest) ← NodeInFlightQueue.new.start timeout clock stored
  pure ⟨q,rest,stored⟩

def deliveryStep (timeout : Int64) (s : NodeDelivery) : DeliveryEvent → Outcome NodeDelivery
  | .deliver m a => do
      let q ← (s.queue.alloc m).startDeliveryNodeData timeout a s.queue.next
      pure { s with queue := q, pending := if a.forwarded then s.pending else s.pending ++ [m] }
  | .process t attempts => do
      let (forwarded,q) ← s.queue.processInFlightQueue timeout t attempts
      pure { s with queue := q, pending := s.pending.diff forwarded }

def Restored (timeout : Int64) (clock : Nat → Int64) (s : NodeDelivery) : Prop :=
  ∃ s', NodeDelivery.start timeout clock (s.queue.stop s.stored) = .ok s' ∧
    s'.queue.models.Perm s.pending

namespace NodeInFlightQueue

structure Valid (q : NodeInFlightQueue) : Prop where
  pqueue : q.inFlightPQ.Valid
  listed : ∀ no h, Assoc.get no q.inFlightData = some h → h ∈ q.inFlightPQ.items ∧ q.no h = no
  allocated : ∀ h ∈ q.inFlightPQ.items, h < q.next
  unsaved : q.infFlights = []

variable {q q' : NodeInFlightQueue} {h : Nat}

theorem valid_new : Valid new := by
  refine ⟨⟨⟨List.nodup_nil,fun i h hi => ?_⟩,by decide,by decide⟩,fun no h hno => ?_,
    fun h hh => ?_,rfl⟩
  · cases hi
  · cases hno
  · cases hh

theorem Valid.setObject (hq : Valid q) (hh : h ∉ q.inFlightPQ.items) (d : NodeInFlightData) :
    Valid (q.setObject h d) := by
  have hsame : ∀ x ∈ q.inFlightPQ.items,
      (q.setObject h d).inFlightPQ.objects x = q.inFlightPQ.objects x := by
    intro x hx
    have hne : x ≠ h := by
      rintro rfl
      exact hh hx
    exact Function.update_of_ne hne ..
  obtain ⟨hpositive,hfits⟩ := hq.pqueue.roomy
  refine ⟨⟨⟨hq.pqueue.indexed.nodup,fun i x hi => ?_⟩,hpositive,hfits⟩,fun no x hx => ?_,
    hq.allocated,hq.unsaved⟩
  · rw [hsame x (List.mem_of_getElem? hi)]
    exact hq.pqueue.indexed.index i x hi
  · obtain ⟨hmem,hno⟩ := hq.listed no x hx
    refine ⟨hmem,?_⟩
    rw [NodeInFlightQueue.no, data, hsame x hmem]
    exact hno

theorem Valid.fresh (hq : Valid q) : q.next ∉ q.inFlightPQ.items := fun hmem =>
  Nat.lt_irrefl _ (hq.allocated _ hmem)

theorem Valid.alloc (hq : Valid q) (m : NodeInFlightDataModel) : Valid (q.alloc m) := by
  have hset := hq.setObject hq.fresh ⟨m,0,0⟩
  exact ⟨hset.pqueue,hset.listed,fun h hh => Nat.lt_succ_of_lt (hset.allocated h hh),hset.unsaved⟩

theorem data_alloc (m : NodeInFlightDataModel) (q : NodeInFlightQueue) :
    ((q.alloc m).data q.next).model = m := by
  have hself : (q.alloc m).data q.next = ⟨m,0,0⟩ := Function.update_self ..
  rw [hself]

structure Started (h : Nat) (q q' : NodeInFlightQueue) : Prop where
  valid : Valid q'
  items : q'.inFlightPQ.items.Perm (q.inFlightPQ.items ++ [h])
  data : ∀ x, (q'.data x).model = (q.data x).model
  listed : q'.inFlightData = match Assoc.get (q.no h) q.inFlightData with
    | some _ => q.inFlightData
    | none => Assoc.put (q.no h) h q.inFlightData
  next : q'.next = q.next

theorem model_setObject (h x : Nat) (pri : Int64) (q : NodeInFlightQueue) :
    ((q.setObject h { q.data h with pri := pri }).data x).model = (q.data x).model := by
  rcases eq_or_ne x h with rfl | hne
  · have hself : (q.setObject x { q.data x with pri := pri }).data x =
        { q.data x with pri := pri } := Function.update_self ..
    rw [hself]
  · have hother : (q.setObject h { q.data h with pri := pri }).data x = q.data x :=
      Function.update_of_ne hne ..
    rw [hother]

theorem pushInFlightMessage_eq (h : Nat) (q : NodeInFlightQueue) :
    q.pushInFlightMessage h = { q with
      inFlightData := match Assoc.get (q.no h) q.inFlightData with
        | some _ => q.inFlightData
        | none => Assoc.put (q.no h) h q.inFlightData } := by
  rw [pushInFlightMessage]
  cases Assoc.get (q.no h) q.inFlightData with
  | none | some => rfl

theorem get_pushInFlightMessage {no : Bytes} {x : Nat}
    (hx : Assoc.get no (q.pushInFlightMessage h).inFlightData = some x) :
    Assoc.get no q.inFlightData = some x ∨ x = h ∧ no = q.no h := by
  rw [pushInFlightMessage] at hx
  cases hget : Assoc.get (q.no h) q.inFlightData with
  | some y =>
    rw [hget] at hx
    exact Or.inl hx
  | none =>
    simp only [hget] at hx
    rcases eq_or_ne no (q.no h) with rfl | hne
    · rw [Assoc.get_put_self] at hx
      exact Or.inr ⟨(Option.some.inj hx).symm,rfl⟩
    · rw [Assoc.get_put_ne hne] at hx
      exact Or.inl hx

theorem Valid.pushed {pq : NodeInFlightDataPqueue} (hq : Valid q) (hlt : h < q.next)
    (hp : q.inFlightPQ.Pushed h pq) :
    Valid { q.pushInFlightMessage h with inFlightPQ := pq } := by
  have hno : ∀ x, (pq.objects x).model.no = q.no x := fun x =>
    congrArg NodeInFlightDataModel.no (hp.data x)
  refine ⟨hp.valid,fun no x hx => ?_,fun x hx => ?_,?_⟩
  · rcases get_pushInFlightMessage hx with hold | ⟨rfl,rfl⟩
    · obtain ⟨hmem,hxno⟩ := hq.listed no x hold
      exact ⟨hp.perm.mem_iff.mpr (List.mem_append_left _ hmem),(hno x).trans hxno⟩
    · exact ⟨hp.perm.mem_iff.mpr (List.mem_append_right _ List.mem_cons_self),hno x⟩
  · rw [pushInFlightMessage_eq]
    rcases List.mem_append.mp (hp.perm.mem_iff.mp hx) with hmem | hself
    · exact hq.allocated x hmem
    · rw [List.mem_singleton.mp hself]
      exact hlt
  · rw [pushInFlightMessage_eq]
    exact hq.unsaved

theorem Valid.startInFlightTimeout (hq : Valid q) (hh : h ∉ q.inFlightPQ.items) (hlt : h < q.next)
    (timeout now : Int64) :
    ∃ q', q.startInFlightTimeout timeout now h = .ok q' ∧ Started h q q' := by
  have hset := hq.setObject hh { q.data h with pri := now + timeout }
  have hmodel := fun x => model_setObject h x (now + timeout) q
  have hno := congrArg NodeInFlightDataModel.no (hmodel h)
  obtain ⟨pq,hpush,hp⟩ := NodeInFlightDataPqueue.push_pushed hset.pqueue hh
  refine ⟨{ (q.setObject h { q.data h with pri := now + timeout }).pushInFlightMessage h with
    inFlightPQ := pq },?_,hset.pushed hlt hp,hp.perm,fun x => (hp.data x).trans (hmodel x),?_,?_⟩
  · rw [NodeInFlightQueue.startInFlightTimeout, addToInFlightPQ]
    refine bind_eq_ok.mpr ⟨pq,?_,rfl⟩
    rw [pushInFlightMessage_eq]
    exact hpush
  · rw [pushInFlightMessage_eq, NodeInFlightQueue.no, hno]
    rfl
  · rw [pushInFlightMessage_eq]
    rfl

theorem Valid.erase (hq : Valid q) (no : Bytes) :
    Valid { q with inFlightData := Assoc.erase no q.inFlightData } := by
  refine ⟨hq.pqueue,fun no' x hx => ?_,hq.allocated,hq.unsaved⟩
  rcases eq_or_ne no' no with rfl | hne
  · rw [Assoc.get_erase_self] at hx
    cases hx
  · rw [Assoc.get_erase_ne hne] at hx
    exact hq.listed no' x hx

structure Removed (h : Nat) (q q' : NodeInFlightQueue) : Prop where
  valid : Valid q'
  items : q.inFlightPQ.items.Perm (h :: q'.inFlightPQ.items)
  data : ∀ x, (q'.data x).model = (q.data x).model
  next : q'.next = q.next

theorem Removed.of_pqueue (hq : Valid q) {pq : NodeInFlightDataPqueue}
    (ht : q.inFlightPQ.Taken h pq) (hdata : ∀ no, Assoc.get no q.inFlightData ≠ some h) :
    Removed h q { q with inFlightPQ := pq } := by
  refine ⟨⟨ht.valid,fun no x hx => ?_,fun x hx => ?_,hq.unsaved⟩,ht.perm,ht.data,rfl⟩
  · obtain ⟨hmem,hno⟩ := hq.listed no x hx
    have hne : x ≠ h := by
      rintro rfl
      exact hdata no hx
    refine ⟨(List.mem_cons.mp (ht.perm.mem_iff.mp hmem)).resolve_left hne,?_⟩
    exact (congrArg NodeInFlightDataModel.no (ht.data x)).trans hno
  · exact hq.allocated x (ht.perm.mem_iff.mpr (List.mem_cons_of_mem h hx))

theorem Removed.fresh (hq : Valid q) (hr : Removed h q q') :
    h ∉ q'.inFlightPQ.items ∧ h < q'.next := by
  constructor
  · exact (List.nodup_cons.mp (hr.items.nodup_iff.mp hq.pqueue.indexed.nodup)).1
  · rw [hr.next]
    exact hq.allocated h (hr.items.mem_iff.mpr List.mem_cons_self)

theorem Valid.unlisted_erase (hq : Valid q) (h : Nat) (no : Bytes) :
    Assoc.get no (Assoc.erase (q.no h) q.inFlightData) ≠ some h := by
  intro hx
  rcases eq_or_ne no (q.no h) with rfl | hne
  · rw [Assoc.get_erase_self] at hx
    cases hx
  · rw [Assoc.get_erase_ne hne] at hx
    exact hne (hq.listed no h hx).2.symm

theorem Valid.finishMessage (hq : Valid q) (no : Bytes) :
    q.finishMessage no = .error notInFlight ∧ Assoc.get no q.inFlightData = none ∨
      ∃ h q', q.finishMessage no = .ok q' ∧ Assoc.get no q.inFlightData = some h ∧
        q'.inFlightData = Assoc.erase no q.inFlightData ∧ Removed h q q' := by
  rw [NodeInFlightQueue.finishMessage, popInFlightMessage]
  cases hget : Assoc.get no q.inFlightData with
  | none => exact Or.inl ⟨rfl,rfl⟩
  | some h =>
    obtain ⟨hmem,hno⟩ := hq.listed no h hget
    obtain ⟨i,hi,hindex⟩ := NodeInFlightDataPqueue.Valid.index_of_mem hq.pqueue hmem
    obtain ⟨pq,hremove,ht⟩ := NodeInFlightDataPqueue.remove_taken hq.pqueue hi
    have herased : ∀ no', Assoc.get no' (Assoc.erase no q.inFlightData) ≠ some h := by
      intro no'
      rw [← hno]
      exact hq.unlisted_erase h no'
    have hr := Removed.of_pqueue (hq.erase no) ht herased
    refine Or.inr ⟨h,_,?_,rfl,rfl,hr.valid,hr.items,hr.data,hr.next⟩
    have hpresent : (q.inFlightPQ.objects h).index ≠ -1 := by omega
    have hnat : (q.inFlightPQ.objects h).index.toNat = i := by omega
    simp only [ok_bind, removeFromInFlightPQ, data, if_neg hpresent, hnat, hremove, pure_eq]

theorem Valid.startDeliveryNodeData (hq : Valid q) (hh : h ∉ q.inFlightPQ.items) (hlt : h < q.next)
    (timeout : Int64) (a : Attempt) :
    ∃ q', q.startDeliveryNodeData timeout a h = .ok q' ∧ Valid q' := by
  obtain ⟨q₁,hstart,hs⟩ := hq.startInFlightTimeout hh hlt timeout a.now
  simp only [NodeInFlightQueue.startDeliveryNodeData, hstart, ok_bind]
  cases a.forwarded with
  | false => exact ⟨q₁,rfl,hs.valid⟩
  | true =>
    rcases hs.valid.finishMessage (q₁.no h) with ⟨hmissing,-⟩ | ⟨x,q₂,hfinish,-,-,hr⟩
    · simp only [hmissing, if_true]
      exact ⟨q₁,rfl,hs.valid⟩
    · simp only [hfinish, if_true]
      exact ⟨q₂,rfl,hr.valid⟩

theorem Valid.peekAndShift (hq : Valid q) (t : Int64) :
    q.inFlightPQ.peekAndShift t = .ok (none,q.inFlightPQ) ∨
      ∃ x pq, q.inFlightPQ.peekAndShift t = .ok (some x,pq) ∧ x ∈ q.inFlightPQ.items ∧
        NodeInFlightQueue.no { q with inFlightPQ := pq } x = q.no x ∧
        (Assoc.get (q.no x) q.inFlightData = none → Valid { q with inFlightPQ := pq }) ∧
        Removed x { q with inFlightData := Assoc.erase (q.no x) q.inFlightData }
          { q with inFlightPQ := pq, inFlightData := Assoc.erase (q.no x) q.inFlightData } := by
  rcases NodeInFlightDataPqueue.peekAndShift_taken hq.pqueue t with
    hnone | ⟨x,pq,hshift,ht⟩
  · exact Or.inl hnone
  · right
    refine ⟨x,pq,hshift,ht.perm.mem_iff.mpr List.mem_cons_self,
      congrArg NodeInFlightDataModel.no (ht.data x),fun hget => ?_,?_⟩
    · refine (Removed.of_pqueue hq ht fun no hx => ?_).valid
      rw [← (hq.listed no x hx).2, hget] at hx
      cases hx
    · exact Removed.of_pqueue (hq.erase (q.no x)) ht (hq.unlisted_erase x)

theorem Valid.processInFlightQueue (hq : Valid q) (timeout t : Int64) (attempts : List Attempt) :
    ∃ r, q.processInFlightQueue timeout t attempts = .ok r ∧ Valid r.2 := by
  induction attempts generalizing q with
  | nil => exact ⟨([],q),rfl,hq⟩
  | cons a attempts ih =>
    rw [NodeInFlightQueue.processInFlightQueue]
    rcases hq.peekAndShift t with hnone | ⟨x,pq,hshift,-,hno,hvalid,hr⟩
    · rw [hnone]
      exact ⟨([],q),rfl,hq⟩
    · rw [hshift]
      simp only [ok_bind]
      rw [hno, popInFlightMessage]
      cases hget : Assoc.get (q.no x) q.inFlightData with
      | none => exact ⟨_,rfl,hvalid hget⟩
      | some y =>
        obtain ⟨hfresh,hlt⟩ := hr.fresh (hq.erase (q.no x))
        obtain ⟨q₁,hdeliver,hq₁⟩ := hr.valid.startDeliveryNodeData hfresh hlt timeout a
        obtain ⟨⟨forwarded,q₂⟩,hrest,hq₂⟩ := ih hq₁
        simp only [hdeliver, ok_bind, hrest]
        exact ⟨_,rfl,hq₂⟩

theorem Valid.startAll (hq : Valid q) (timeout : Int64)
    (entries : List (NodeInFlightDataModel × Int64)) :
    ∃ q', q.startAll timeout entries = .ok q' ∧ Valid q' := by
  induction entries generalizing q with
  | nil => exact ⟨q,rfl,hq⟩
  | cons e rest ih =>
    obtain ⟨m,now⟩ := e
    have hfresh : q.next ∉ (q.alloc m).inFlightPQ.items := hq.fresh
    obtain ⟨q₁,hstart,hs⟩ :=
      (hq.alloc m).startInFlightTimeout hfresh (Nat.lt_succ_self _) timeout now
    obtain ⟨q₂,hrest,hq₂⟩ := ih hs.valid
    refine ⟨q₂,?_,hq₂⟩
    rw [NodeInFlightQueue.startAll, hstart]
    exact hrest

end NodeInFlightQueue

structure Unsaved (s : NodeDelivery) : Prop where
  queue : s.queue.Valid
  stored : s.stored = []

theorem NodeDelivery.start_unsaved (timeout : Int64) (clock : Nat → Int64)
    (stored : List NodeInFlightDataModel) :
    ∃ s, NodeDelivery.start timeout clock stored = .ok s ∧ Unsaved s := by
  obtain ⟨q,hstart,hq⟩ := NodeInFlightQueue.valid_new.startAll timeout
    (stored.zipIdx.map fun e => (e.1,clock e.2))
  refine ⟨⟨q,[],stored⟩,?_,hq,rfl⟩
  rw [NodeDelivery.start, NodeInFlightQueue.start, hstart]
  rfl

theorem deliveryStep_unsaved (timeout : Int64) {s : NodeDelivery} (hs : Unsaved s)
    (e : DeliveryEvent) : ∃ s', deliveryStep timeout s e = .ok s' ∧ Unsaved s' := by
  cases e with
  | deliver m a =>
    have hfresh : s.queue.next ∉ (s.queue.alloc m).inFlightPQ.items := hs.queue.fresh
    obtain ⟨q,hdeliver,hq⟩ :=
      (hs.queue.alloc m).startDeliveryNodeData hfresh (Nat.lt_succ_self _) timeout a
    rw [deliveryStep, hdeliver]
    exact ⟨_,rfl,hq,hs.stored⟩
  | process t attempts =>
    obtain ⟨⟨forwarded,q⟩,hprocess,hq⟩ := hs.queue.processInFlightQueue timeout t attempts
    rw [deliveryStep, hprocess]
    exact ⟨_,rfl,hq,hs.stored⟩

theorem restored_iff (timeout : Int64) (clock : Nat → Int64) {s : NodeDelivery} (hs : Unsaved s) :
    Restored timeout clock s ↔ s.pending = [] := by
  have hstop : s.queue.stop s.stored = [] := by
    simp only [NodeInFlightQueue.stop, hs.queue.unsaved, List.map_nil, List.length_nil,
      Nat.lt_irrefl, if_false, hs.stored]
  rw [Restored, hstop]
  constructor
  · rintro ⟨s',hstart,hperm⟩
    obtain rfl := Outcome.ok.inj hstart
    exact hperm.nil_eq.symm
  · intro hpending
    refine ⟨_,rfl,?_⟩
    rw [hpending]
    exact List.Perm.nil

theorem pending_deliveries_restored_iff (timeout : Int64) (clock clock' : Nat → Int64)
    (stored : List NodeInFlightDataModel) (events : List DeliveryEvent) :
    ∃ s₀ s, NodeDelivery.start timeout clock stored = .ok s₀ ∧
      Run.run (deliveryStep timeout) s₀ events = .ok s ∧
        (Restored timeout clock' s ↔ s.pending = []) := by
  obtain ⟨s₀,hstart,hs₀⟩ := NodeDelivery.start_unsaved timeout clock stored
  obtain ⟨s,hrun,hs⟩ := Run.run_of_step (fun _ => deliveryStep_unsaved timeout) hs₀ events
  exact ⟨s₀,s,hstart,hrun,restored_iff timeout clock' hs⟩

def failedDelivery : NodeInFlightDataModel := ⟨[0x31],2,⟨[0x31],[[0x75]],[0x6d],0⟩⟩

theorem failed_delivery_lost : ∃ s₀ s, NodeDelivery.start 0 (fun _ => 0) [] = .ok s₀ ∧
    Run.run (deliveryStep 0) s₀ [.deliver failedDelivery ⟨0,false⟩] = .ok s ∧
      s.pending = [failedDelivery] ∧ ¬ Restored 0 (fun _ => 0) s := by
  obtain ⟨s₀,hstart,hs₀⟩ := NodeDelivery.start_unsaved 0 (fun _ => 0) []
  obtain ⟨s,hdeliver,hs⟩ := deliveryStep_unsaved 0 hs₀ (.deliver failedDelivery ⟨0,false⟩)
  have hempty : s₀.pending = [] := by
    obtain rfl := Outcome.ok.inj hstart
    rfl
  have hpending : s.pending = [failedDelivery] := by
    obtain ⟨q,-,hq⟩ := bind_eq_ok.mp hdeliver
    obtain rfl := Outcome.ok.inj hq
    simp only [hempty, Bool.false_eq_true, if_false, List.nil_append]
  refine ⟨s₀,s,hstart,?_,hpending,?_⟩
  · rw [Run.run, hdeliver]
    rfl
  · rw [restored_iff 0 _ hs, hpending]
    exact List.cons_ne_nil _ _

end LiMaoIM.Lim

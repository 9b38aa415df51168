import LiMaoIM.Lim.RetryQueue

namespace LiMaoIM.Lim.RetryQueue

open Outcome

def InFlight (q : RetryQueue) (k : Bytes) : Prop := Assoc.get k q.inFlightMessages ≠ none

structure Tracked (q : RetryQueue) : Prop where
  pqueue : q.inFlightPQ.Valid
  allocated : ∀ h ∈ q.inFlightPQ.items, h < q.next
  listed : ∀ k h, Assoc.get k q.inFlightMessages = some h → h < q.next ∧ q.key h = k
  covered : ∀ k, q.InFlight k → ∃ h ∈ q.inFlightPQ.items, q.key h = k
  popped : ∀ h < q.next, h ∉ q.inFlightPQ.items → (q.inFlightPQ.objects h).index = -1

structure Extended (msg : Entry Message Int64) (q q' : RetryQueue) : Prop where
  next : q'.next = q.next + 1
  fresh : q'.message q.next = msg.model
  old : ∀ h < q.next, q'.message h = q.message h

variable {q q' : RetryQueue} {h : Nat} {k : Bytes}

theorem tracked_new : Tracked new := by
  refine ⟨inv_new.pqueue,inv_new.allocated,fun k h hk => ?_,fun k hk => ?_,fun h hlt => ?_⟩
  · cases hk
  · exact absurd rfl hk
  · exact absurd hlt (Nat.not_lt_zero h)

theorem inFlight_started (hs : Started h q q') (k : Bytes) :
    q'.InFlight k ↔ q.InFlight k ∨ k = q.key h := by
  rw [InFlight,InFlight,hs.listed]
  cases hget : Assoc.get (q.key h) q.inFlightMessages with
  | some x =>
    constructor
    · exact Or.inl
    · rintro (hk | rfl)
      · exact hk
      · simp only [hget]
        exact Option.some_ne_none x
  | none =>
    simp only
    rcases eq_or_ne k (q.key h) with rfl | hne
    · rw [Assoc.get_put_self]
      exact iff_of_true (Option.some_ne_none _) (Or.inr rfl)
    · rw [Assoc.get_put_ne hne]
      exact ⟨Or.inl,fun hk => hk.resolve_right hne⟩

theorem startInFlightTimeout_outside (hq : q.inFlightPQ.Valid) (hh : h ∉ q.inFlightPQ.items)
    {timeout now : Int64} (hstart : q.startInFlightTimeout timeout now h = .ok q') {y : Nat}
    (hy : y ∉ q.inFlightPQ.items) (hne : y ≠ h) :
    q'.inFlightPQ.objects y = q.inFlightPQ.objects y := by
  have hpriced := hq.setObject hh { q.inFlightPQ.objects h with pri := now + timeout }
  obtain ⟨pq,hpush,hp,-⟩ := IndexedHeap.push_pushed hpriced.sound hh
  rw [startInFlightTimeout,addToInFlightPQ,pushInFlightMessage_eq] at hstart
  obtain ⟨pq',hpush',heq⟩ := bind_eq_ok.mp hstart
  obtain rfl : pq = pq' := Outcome.ok.inj (hpush.symm.trans hpush')
  obtain rfl := Outcome.ok.inj heq
  exact (hp.outside y hy hne).trans (Function.update_of_ne hne _ _)

theorem Tracked.start (hq : Tracked q) (timeout now : Int64) (msg : Entry Message Int64) :
    ∃ q', (q.alloc msg).startInFlightTimeout timeout now q.next = .ok q' ∧ Tracked q' ∧
      Extended msg q q' ∧ ∀ k, q'.InFlight k ↔ q.InFlight k ∨ k = newKey msg := by
  have hfree : q.next ∉ q.inFlightPQ.items := fun hmem => Nat.lt_irrefl _ (hq.allocated _ hmem)
  have hvalid := hq.pqueue.setObject hfree msg
  obtain ⟨q',hstart,hs⟩ := startInFlightTimeout_started (q := q.alloc msg) (h := q.next) hvalid
    hfree timeout now
  have houtside (y : Nat) (hy : y ∉ q.inFlightPQ.items) (hne : y ≠ q.next) :
      q'.inFlightPQ.objects y = q.inFlightPQ.objects y :=
    (startInFlightTimeout_outside (q := q.alloc msg) hvalid hfree hstart hy hne).trans
      (Function.update_of_ne hne _ _)
  have hnew : (q.alloc msg).key q.next = newKey msg := by
    rw [key,message_alloc]
    rfl
  have hmessage (y : Nat) (hy : y < q.next) : q'.message y = q.message y := by
    rw [hs.message,message_alloc_of_lt hy]
  have hmem (y : Nat) : y ∈ q'.inFlightPQ.items ↔ y ∈ q.inFlightPQ.items ∨ y = q.next := by
    rw [hs.items.mem_iff,List.mem_append,List.mem_singleton]
    exact Iff.rfl
  have hnext : q'.next = q.next + 1 := hs.next
  have hinFlight (k : Bytes) : q'.InFlight k ↔ q.InFlight k ∨ k = newKey msg := by
    rw [inFlight_started hs,hnew]
    exact Iff.rfl
  refine ⟨q',hstart,⟨hs.pqueue,fun y hy => ?_,fun k y hk => ?_,fun k hk => ?_,fun y hy hout => ?_⟩,
    ⟨hnext,?_,hmessage⟩,hinFlight⟩
  · rw [hnext]
    rcases (hmem y).mp hy with hy | rfl
    · exact Nat.lt_succ_of_lt (hq.allocated y hy)
    · exact Nat.lt_succ_self _
  · have hold (hk : Assoc.get k q.inFlightMessages = some y) : y < q'.next ∧ q'.key y = k := by
      obtain ⟨hlt,hkey⟩ := hq.listed k y hk
      refine ⟨hnext ▸ Nat.lt_succ_of_lt hlt,?_⟩
      rw [← hkey,key,key,hmessage y hlt]
    rw [hs.listed] at hk
    cases hget : Assoc.get ((q.alloc msg).key q.next) (q.alloc msg).inFlightMessages with
    | some x =>
      rw [hget] at hk
      exact hold hk
    | none =>
      rw [hget] at hk
      rcases eq_or_ne k ((q.alloc msg).key q.next) with rfl | hne
      · rw [Assoc.get_put_self] at hk
        obtain rfl := Option.some.inj hk
        exact ⟨hnext ▸ Nat.lt_succ_self _,congrFun (key_congr hs.message) _⟩
      · rw [Assoc.get_put_ne hne] at hk
        exact hold hk
  · rcases (hinFlight k).mp hk with hk | rfl
    · obtain ⟨y,hy,hkey⟩ := hq.covered k hk
      refine ⟨y,(hmem y).mpr (Or.inl hy),?_⟩
      rw [← hkey,key,key,hmessage y (hq.allocated y hy)]
    · refine ⟨q.next,(hmem _).mpr (Or.inr rfl),?_⟩
      rw [key_congr hs.message,hnew]
  · obtain ⟨hold,hne⟩ := not_or.mp (mt (hmem y).mpr hout)
    rw [houtside y hold hne]
    exact hq.popped y (by omega) hold
  · rw [hs.message,message_alloc]

def forget (k : Bytes) (q : RetryQueue) : RetryQueue :=
  { q with inFlightMessages := Assoc.erase k q.inFlightMessages }

theorem inFlight_forget (k k' : Bytes) : (q.forget k').InFlight k ↔ q.InFlight k ∧ k ≠ k' := by
  rcases eq_or_ne k k' with rfl | hne
  · exact iff_of_false (fun hk => hk Assoc.get_erase_self) fun hk => hk.2 rfl
  · rw [InFlight,forget,Assoc.get_erase_ne hne]
    exact ⟨fun hk => ⟨hk,hne⟩,And.left⟩

theorem Tracked.forget (hq : Tracked q) (k : Bytes) : Tracked (q.forget k) := by
  refine ⟨hq.pqueue,hq.allocated,fun k' x hk => ?_,fun k' hk => ?_,hq.popped⟩
  · rcases eq_or_ne k' k with rfl | hne
    · rw [RetryQueue.forget,Assoc.get_erase_self] at hk
      cases hk
    · rw [RetryQueue.forget,Assoc.get_erase_ne hne] at hk
      exact hq.listed k' x hk
  · exact hq.covered k' ((inFlight_forget k' k).mp hk).1

def withPQ (pq : InFlightPqueue) (q : RetryQueue) : RetryQueue := { q with inFlightPQ := pq }

theorem Tracked.withPQ {pq : InFlightPqueue} (hq : Tracked q) (hk : ¬ q.InFlight (q.key h))
    (ht : q.inFlightPQ.Taken h pq) (hordered : HeapOrder.Ordered pq.level pq.items.length) :
    Tracked (q.withPQ pq) := by
  have hkey : (q.withPQ pq).key = q.key := key_congr (funext ht.same.model)
  have hmem (x : Nat) : x ∈ q.inFlightPQ.items ↔ x = h ∨ x ∈ pq.items := by
    rw [ht.perm.mem_iff,List.mem_cons]
  refine ⟨⟨ht.sound,hordered⟩,fun x hx => hq.allocated x ((hmem x).mpr (Or.inr hx)),
    fun k x hget => by rw [hkey]; exact hq.listed k x hget,fun k hin => ?_,fun x hx hout => ?_⟩
  · obtain ⟨x,hx,hxk⟩ := hq.covered k hin
    refine ⟨x,((hmem x).mp hx).resolve_left ?_,by rw [hkey,hxk]⟩
    rintro rfl
    exact hk (hxk ▸ hin)
  · rcases eq_or_ne x h with rfl | hne
    · exact ht.gone
    · have hold : x ∉ q.inFlightPQ.items := fun hx' => ((hmem x).mp hx').elim hne hout
      exact (congrArg Entry.index (ht.outside x hold)).trans (hq.popped x hx hold)

theorem Tracked.taken {pq : InFlightPqueue} (hq : Tracked q) (ht : q.inFlightPQ.Taken h pq)
    (hordered : HeapOrder.Ordered pq.level pq.items.length) :
    Tracked ((q.forget (q.key h)).withPQ pq) :=
  (hq.forget (q.key h)).withPQ (fun hk => ((inFlight_forget _ _).mp hk).2 rfl) ht hordered

theorem Tracked.finish (hq : Tracked q) (clientID messageID : Int64) :
    (q.finishMessage clientID messageID = .error notInFlight ∧
        ¬ q.InFlight (inFlightKey messageID clientID)) ∨
      ∃ q', q.finishMessage clientID messageID = .ok q' ∧ Tracked q' ∧ q'.next = q.next ∧
        q'.message = q.message ∧
        ∀ k, q'.InFlight k ↔ q.InFlight k ∧ k ≠ inFlightKey messageID clientID := by
  rw [finishMessage,popInFlightMessage]
  cases hget : Assoc.get (inFlightKey messageID clientID) q.inFlightMessages with
  | none => exact Or.inl ⟨rfl,fun hk => hk hget⟩
  | some h =>
    right
    obtain ⟨hlt,hkey⟩ := hq.listed _ h hget
    simp only [ok_bind,removeFromInFlightPQ]
    by_cases hmem : h ∈ q.inFlightPQ.items
    · obtain ⟨i,hi,hindex⟩ := IndexedHeap.Sound.index_of_mem hq.pqueue.sound hmem
      obtain ⟨pq,hremove,ht,hordered⟩ := IndexedHeap.remove_taken hq.pqueue.sound hi
      have hpresent : (q.inFlightPQ.objects h).index ≠ -1 := by omega
      have hnat : (q.inFlightPQ.objects h).index.toNat = i := by omega
      refine ⟨(q.forget (q.key h)).withPQ pq,?_,hq.taken ht (hordered hq.pqueue.ordered),rfl,
        funext ht.same.model,fun k => ?_⟩
      · simp only [if_neg hpresent,hnat,hremove,ok_bind,pure_eq,hkey]
        rfl
      · rw [← hkey]
        exact inFlight_forget k (q.key h)
    · refine ⟨q.forget (inFlightKey messageID clientID),?_,hq.forget _,rfl,rfl,fun k =>
        inFlight_forget k _⟩
      rw [if_pos (hq.popped h hlt hmem)]
      rfl

structure Handed (q : RetryQueue) (handed : List Redelivery) (q' : RetryQueue) : Prop where
  tracked : Tracked q'
  next : q'.next = q.next
  message : q'.message = q.message
  kept : ∀ k, q.InFlight k → q'.InFlight k ∨ ∃ r ∈ handed, q.key r.msg = k
  delivery : ∀ r ∈ handed, r = q.redelivery r.msg ∧ r.msg < q.next

theorem redelivery_congr (hm : q'.message = q.message) (h : Nat) :
    q'.redelivery h = q.redelivery h := by
  rw [redelivery,redelivery,hm]

theorem Tracked.processLoop (hq : Tracked q) (t : Int64) (fuel : Nat) :
    ∃ handed q', q.processLoop t fuel = .ok (handed,q') ∧ Handed q handed q' := by
  induction fuel generalizing q with
  | zero => exact ⟨[],q,rfl,hq,rfl,rfl,fun k hk => Or.inl hk,fun r hr => absurd hr List.not_mem_nil⟩
  | succ fuel ih =>
    rw [RetryQueue.processLoop]
    rcases IndexedHeap.peekAndShift_taken hq.pqueue.sound t with
      ⟨hnone,-⟩ | ⟨h,pq,hshift,-,ht,hordered⟩
    · refine ⟨[],q,?_,hq,rfl,rfl,fun k hk => Or.inl hk,fun r hr => absurd hr List.not_mem_nil⟩
      rw [hnone]
      rfl
    · have hmem : h ∈ q.inFlightPQ.items := ht.perm.mem_iff.mpr List.mem_cons_self
      have hsame : message { q with inFlightPQ := pq } = q.message := funext ht.same.model
      rw [hshift]
      simp only [ok_bind,popInFlightMessage,hsame]
      cases hget : Assoc.get (inFlightKey (q.message h).recvPacket.messageID
          (q.message h).toClientID) q.inFlightMessages with
      | none =>
        have hk : ¬ q.InFlight (q.key h) := fun hk => hk hget
        exact ⟨[],q.withPQ pq,rfl,hq.withPQ hk ht (hordered hq.pqueue.ordered),rfl,hsame,
          fun k hk => Or.inl hk,fun r hr => absurd hr List.not_mem_nil⟩
      | some x =>
        have htaken := hq.taken ht (hordered hq.pqueue.ordered)
        have hmessage : ((q.forget (q.key h)).withPQ pq).message = q.message := hsame
        obtain ⟨handed,q',hrest,hd⟩ := ih htaken
        refine ⟨q.redelivery h :: handed,q',?_,hd.tracked,hd.next,hd.message.trans hmessage,
          fun k hk => ?_,fun r hr => ?_⟩
        · refine bind_eq_ok.mpr ⟨(handed,q'),hrest,?_⟩
          rw [← redelivery_congr hmessage]
          rfl
        · by_cases hkey : k = q.key h
          · exact Or.inr ⟨_,List.mem_cons_self,hkey.symm⟩
          · rcases hd.kept k ((inFlight_forget k _).mpr ⟨hk,hkey⟩) with hk' | ⟨r,hr,hrk⟩
            · exact Or.inl hk'
            · rw [key_congr hmessage] at hrk
              exact Or.inr ⟨r,List.mem_cons_of_mem _ hr,hrk⟩
        · rcases List.mem_cons.mp hr with rfl | hr
          · exact ⟨rfl,hq.allocated h hmem⟩
          · obtain ⟨heq,hlt⟩ := hd.delivery r hr
            rw [redelivery_congr hmessage] at heq
            exact ⟨heq,hlt⟩

theorem Tracked.processInFlightQueue (hq : Tracked q) (t : Int64) :
    ∃ handed q', q.processInFlightQueue t = .ok (handed,q') ∧ Handed q handed q' :=
  hq.processLoop t _

end LiMaoIM.Lim.RetryQueue

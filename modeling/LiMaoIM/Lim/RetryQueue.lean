import LiMaoIM.Foundation.Assoc
import LiMaoIM.Foundation.Decimal
import LiMaoIM.Foundation.IndexedHeap
import LiMaoIM.Foundation.Run
import LiMaoIM.Lim.Send

namespace LiMaoIM.Lim

open Outcome

abbrev InFlightPqueue : Type := IndexedHeap Message Int64

def newInFlightPqueue (capacity : Nat) : InFlightPqueue :=
  ⟨fun _ => ⟨⟨⟨{},{},[],0,0,[],0,[],[],0,[]⟩,[],[],0,0⟩,0,0⟩,[],capacity⟩

structure RetryQueue where
  inFlightPQ : InFlightPqueue
  inFlightMessages : List (Bytes × Nat)
  next : Nat

structure Redelivery where
  msg : Nat
  delivery : Delivery

namespace RetryQueue

def underscore : UInt8 := 0x5f

def inFlightKey (messageID clientID : Int64) : Bytes :=
  Bytes.signed messageID.toInt ++ underscore :: Bytes.signed clientID.toInt

def notInFlight : String := "ID not in flight"

def new : RetryQueue := ⟨newInFlightPqueue 1024,[],0⟩

def message (q : RetryQueue) (h : Nat) : Message := (q.inFlightPQ.objects h).model

def key (q : RetryQueue) (h : Nat) : Bytes :=
  inFlightKey (q.message h).recvPacket.messageID (q.message h).toClientID

def identity (q : RetryQueue) (h : Nat) : Int64 × Int64 :=
  ((q.message h).recvPacket.messageID,(q.message h).toClientID)

def setObject (h : Nat) (e : Entry Message Int64) (q : RetryQueue) : RetryQueue :=
  { q with inFlightPQ := { q.inFlightPQ with objects := Function.update q.inFlightPQ.objects h e } }

def alloc (e : Entry Message Int64) (q : RetryQueue) : RetryQueue :=
  { q.setObject q.next e with next := q.next + 1 }

def addToInFlightPQ (h : Nat) (q : RetryQueue) : Outcome RetryQueue := do
  let pq ← q.inFlightPQ.push h
  pure { q with inFlightPQ := pq }

def pushInFlightMessage (h : Nat) (q : RetryQueue) : RetryQueue :=
  match Assoc.get (q.key h) q.inFlightMessages with
  | some _ => q
  | none => { q with inFlightMessages := Assoc.put (q.key h) h q.inFlightMessages }

def startInFlightTimeout (timeout now : Int64) (h : Nat) (q : RetryQueue) : Outcome RetryQueue :=
  ((q.setObject h { q.inFlightPQ.objects h with pri := now + timeout }).pushInFlightMessage
    h).addToInFlightPQ h

def popInFlightMessage (clientID messageID : Int64) (q : RetryQueue) :
    Outcome (Nat × RetryQueue) :=
  match Assoc.get (inFlightKey messageID clientID) q.inFlightMessages with
  | none => .error notInFlight
  | some h =>
      .ok (h,{ q with
        inFlightMessages := Assoc.erase (inFlightKey messageID clientID) q.inFlightMessages })

def removeFromInFlightPQ (h : Nat) (q : RetryQueue) : Outcome RetryQueue :=
  if (q.inFlightPQ.objects h).index = -1 then pure q
  else do
    let (_,pq) ← q.inFlightPQ.remove (q.inFlightPQ.objects h).index.toNat
    pure { q with inFlightPQ := pq }

def finishMessage (clientID messageID : Int64) (q : RetryQueue) : Outcome RetryQueue := do
  let (h,q) ← q.popInFlightMessage clientID messageID
  q.removeFromInFlightPQ h

def redelivery (q : RetryQueue) (h : Nat) : Redelivery :=
  ⟨h,⟨q.message h,[],[(q.message h).toUID]⟩⟩

def processLoop (t : Int64) : Nat → RetryQueue → Outcome (List Redelivery × RetryQueue)
  | 0, q => pure ([],q)
  | fuel + 1, q => do
      let (msg,pq) ← q.inFlightPQ.peekAndShift t
      let q := { q with inFlightPQ := pq }
      match msg with
      | none => pure ([],q)
      | some h =>
          match q.popInFlightMessage (q.message h).toClientID
              (q.message h).recvPacket.messageID with
          | .panic e => .panic e
          | .error _ => pure ([],q)
          | .ok (_,q) => do
              let (handed,rest) ← processLoop t fuel q
              pure (q.redelivery h :: handed,rest)

def processInFlightQueue (t : Int64) (q : RetryQueue) : Outcome (List Redelivery × RetryQueue) :=
  processLoop t (q.inFlightPQ.items.length + 1) q

end RetryQueue

inductive RetryEvent where
  | start (msg : Entry Message Int64) (now : Int64)
  | finish (clientID messageID : Int64)
  | process (t : Int64)

def retryStep (timeout : Int64) (q : RetryQueue) : RetryEvent → Outcome RetryQueue
  | .start msg now => (q.alloc msg).startInFlightTimeout timeout now q.next
  | .finish clientID messageID =>
      match q.finishMessage clientID messageID with
      | .error _ => pure q
      | finished => finished
  | .process t => do
      let (_,q) ← q.processInFlightQueue t
      pure q

namespace RetryQueue

theorem inFlightKey_inj {m m' c c' : Int64} (h : inFlightKey m c = inFlightKey m' c') :
    m = m' ∧ c = c' := by
  have hnot (i : Int) : underscore ∉ Bytes.signed i := by
    intro hmem
    rcases Bytes.mem_signed hmem with heq | ⟨-,hle⟩
    · exact absurd heq (by decide)
    · exact absurd hle (by decide)
  obtain ⟨hm,hc⟩ := Bytes.last_separator (hnot _) (hnot _) h
  exact ⟨Int64.toInt_inj.mp (Bytes.signed_injective hm),
    Int64.toInt_inj.mp (Bytes.signed_injective hc)⟩

variable {q q' : RetryQueue} {h : Nat}

theorem key_eq_iff {x y : Nat} : q.key x = q.key y ↔ q.identity x = q.identity y := by
  rw [identity, identity, Prod.mk.injEq]
  constructor
  · exact inFlightKey_inj
  · rintro ⟨hm,hc⟩
    rw [key, key, hm, hc]

structure Agrees (q : RetryQueue) : Prop where
  once : (q.inFlightPQ.items.map q.identity).Nodup
  listed : ∀ k h, Assoc.get k q.inFlightMessages = some h ↔ h ∈ q.inFlightPQ.items ∧ q.key h = k

def due (q : RetryQueue) (t : Int64) : List Nat :=
  q.inFlightPQ.items.filter fun h => decide (q.inFlightPQ.pri h ≤ t)

structure Drained (t : Int64) (q : RetryQueue) (handed : List Redelivery) (q' : RetryQueue) :
    Prop where
  left : ∀ h ∈ q'.inFlightPQ.items, ¬ q'.inFlightPQ.pri h ≤ t
  exactly : (handed.map Redelivery.msg).Perm (q.due t)
  delivery : ∀ r ∈ handed, r = q.redelivery r.msg

def Drains (q : RetryQueue) : Prop :=
  ∀ t, ∃ handed q', q.processInFlightQueue t = .ok (handed,q') ∧ Drained t q handed q'

structure Inv (q : RetryQueue) : Prop where
  pqueue : q.inFlightPQ.Valid
  allocated : ∀ h ∈ q.inFlightPQ.items, h < q.next
  agrees : Agrees q

theorem Agrees.inj (hq : Agrees q) {x y : Nat} (hx : x ∈ q.inFlightPQ.items)
    (hy : y ∈ q.inFlightPQ.items) (hkey : q.key x = q.key y) : x = y :=
  List.inj_on_of_nodup_map hq.once hx hy (key_eq_iff.mp hkey)

theorem Agrees.of_listed (hn : q.inFlightPQ.items.Nodup)
    (hl : ∀ k h, Assoc.get k q.inFlightMessages = some h ↔
      h ∈ q.inFlightPQ.items ∧ q.key h = k) : Agrees q := by
  refine ⟨hn.map_on fun x hx y hy hsame => ?_,hl⟩
  have hget := (hl (q.key y) x).mpr ⟨hx,key_eq_iff.mpr hsame⟩
  rw [(hl (q.key y) y).mpr ⟨hy,rfl⟩] at hget
  exact (Option.some.inj hget).symm

theorem inv_new : Inv new := by
  refine ⟨⟨⟨⟨List.nodup_nil,fun i h hi => ?_⟩,by decide,by decide⟩,fun k _ hk => ?_⟩,fun h hh => ?_,
    .of_listed List.nodup_nil fun k h => ?_⟩
  · cases hi
  · exact absurd hk (Nat.not_lt_zero k)
  · cases hh
  · exact iff_of_false (fun hget => by cases hget) fun hmem => by cases hmem.1

theorem key_congr (h : q'.message = q.message) : q'.key = q.key :=
  funext fun x => by rw [key, key, h]

theorem message_setPri (h : Nat) (pri : Int64) (q : RetryQueue) :
    (q.setObject h { q.inFlightPQ.objects h with pri := pri }).message = q.message := by
  funext x
  rcases eq_or_ne x h with rfl | hne
  · simp only [message, setObject, Function.update_self]
  · simp only [message, setObject, Function.update_of_ne hne]

structure Started (h : Nat) (q q' : RetryQueue) : Prop where
  pqueue : q'.inFlightPQ.Valid
  items : q'.inFlightPQ.items.Perm (q.inFlightPQ.items ++ [h])
  message : q'.message = q.message
  listed : q'.inFlightMessages = match Assoc.get (q.key h) q.inFlightMessages with
    | some _ => q.inFlightMessages
    | none => Assoc.put (q.key h) h q.inFlightMessages
  next : q'.next = q.next

theorem pushInFlightMessage_eq (h : Nat) (q : RetryQueue) :
    q.pushInFlightMessage h = { q with
      inFlightMessages := match Assoc.get (q.key h) q.inFlightMessages with
        | some _ => q.inFlightMessages
        | none => Assoc.put (q.key h) h q.inFlightMessages } := by
  rw [pushInFlightMessage]
  cases Assoc.get (q.key h) q.inFlightMessages with
  | none | some => rfl

theorem startInFlightTimeout_started (hq : q.inFlightPQ.Valid) (hh : h ∉ q.inFlightPQ.items)
    (timeout now : Int64) :
    ∃ q', q.startInFlightTimeout timeout now h = .ok q' ∧ Started h q q' := by
  have hpriced := hq.setObject hh { q.inFlightPQ.objects h with pri := now + timeout }
  have hmessage := message_setPri h (now + timeout) q
  obtain ⟨pq,hpush,hp,hordered⟩ := IndexedHeap.push_pushed hpriced.sound hh
  refine ⟨{ (q.setObject h { q.inFlightPQ.objects h with
    pri := now + timeout }).pushInFlightMessage h with inFlightPQ := pq },?_,
    ⟨hp.sound,hordered hpriced.ordered⟩,hp.perm,?_,?_,?_⟩
  · rw [startInFlightTimeout, addToInFlightPQ]
    refine bind_eq_ok.mpr ⟨pq,?_,rfl⟩
    rw [pushInFlightMessage_eq]
    exact hpush
  · exact (funext hp.same.model).trans hmessage
  · rw [pushInFlightMessage_eq, key_congr hmessage]
    rfl
  · rw [pushInFlightMessage_eq]
    rfl

theorem message_alloc (msg : Entry Message Int64) (q : RetryQueue) :
    (q.alloc msg).message q.next = msg.model := by
  simp only [message, alloc, setObject, Function.update_self]

theorem message_alloc_of_lt {msg : Entry Message Int64} (hh : h < q.next) :
    (q.alloc msg).message h = q.message h := by
  simp only [message, alloc, setObject, Function.update_of_ne hh.ne]

def newKey (msg : Entry Message Int64) : Bytes :=
  inFlightKey msg.model.recvPacket.messageID msg.model.toClientID

theorem Inv.start (hq : Inv q) (timeout now : Int64) (msg : Entry Message Int64) :
    ∃ q', retryStep timeout q (.start msg now) = .ok q' ∧
      q'.inFlightPQ.items.Perm (q.inFlightPQ.items ++ [q.next]) ∧ q'.key q.next = newKey msg ∧
      (∀ h ∈ q.inFlightPQ.items, q'.key h = q.key h) ∧
      (Assoc.get (newKey msg) q.inFlightMessages = none →
        Inv q' ∧ q'.inFlightMessages = Assoc.put (newKey msg) q.next q.inFlightMessages) := by
  have hfree : q.next ∉ q.inFlightPQ.items := fun hmem =>
    Nat.lt_irrefl _ (hq.allocated _ hmem)
  obtain ⟨q',hstart,hs⟩ := startInFlightTimeout_started (q := q.alloc msg) (h := q.next)
    (hq.pqueue.setObject hfree msg) hfree timeout now
  have hkey := key_congr hs.message
  have hnew : (q.alloc msg).key q.next = newKey msg := by
    rw [key, message_alloc]
    rfl
  have hold (x : Nat) (hx : x ∈ q.inFlightPQ.items) : q'.key x = q.key x := by
    rw [hkey, key, key, message_alloc_of_lt (hq.allocated x hx)]
  refine ⟨q',hstart,hs.items,by rw [hkey, hnew],hold,fun hfresh => ?_⟩
  have hlisted : q'.inFlightMessages = Assoc.put (newKey msg) q.next q.inFlightMessages := by
    have hfresh' : Assoc.get (newKey msg) (q.alloc msg).inFlightMessages = none := hfresh
    rw [hs.listed, hnew, hfresh']
    rfl
  refine ⟨⟨hs.pqueue,fun x hx => ?_,.of_listed hs.pqueue.sound.indexed.nodup fun k x => ?_⟩,hlisted⟩
  · rw [hs.next]
    rcases List.mem_append.mp (hs.items.mem_iff.mp hx) with hmem | hself
    · exact Nat.lt_succ_of_lt (hq.allocated x hmem)
    · rw [List.mem_singleton.mp hself]
      exact Nat.lt_succ_self _
  · have hmem : x ∈ q'.inFlightPQ.items ↔ x ∈ q.inFlightPQ.items ∨ x = q.next := by
      rw [hs.items.mem_iff, List.mem_append, List.mem_singleton]
      exact Iff.rfl
    rw [hlisted, hmem]
    rcases eq_or_ne k (newKey msg) with rfl | hne
    · rw [Assoc.get_put_self]
      constructor
      · intro heq
        obtain rfl := Option.some.inj heq
        exact ⟨Or.inr rfl,by rw [hkey, hnew]⟩
      · rintro ⟨hold' | rfl,hxk⟩
        · rw [hold x hold'] at hxk
          rw [(hq.agrees.listed (newKey msg) x).mpr ⟨hold',hxk⟩] at hfresh
          cases hfresh
        · rfl
    · rw [Assoc.get_put_ne hne, hq.agrees.listed]
      constructor
      · rintro ⟨hx,hxk⟩
        exact ⟨Or.inl hx,(hold x hx).trans hxk⟩
      · rintro ⟨hx | rfl,hxk⟩
        · exact ⟨hx,(hold x hx).symm.trans hxk⟩
        · rw [hkey, hnew] at hxk
          exact absurd hxk.symm hne

def without (q : RetryQueue) (h : Nat) (pq : InFlightPqueue) : RetryQueue :=
  ⟨pq,Assoc.erase (q.key h) q.inFlightMessages,q.next⟩

theorem Inv.taken {pq : InFlightPqueue} (hq : Inv q) (ht : q.inFlightPQ.Taken h pq)
    (hordered : HeapOrder.Ordered pq.level pq.items.length) :
    Inv (q.without h pq) ∧ (q.without h pq).message = q.message := by
  have hmessage : (q.without h pq).message = q.message := funext ht.same.model
  have hkey := key_congr hmessage
  have hmem (x : Nat) : x ∈ q.inFlightPQ.items ↔ x = h ∨ x ∈ pq.items := by
    rw [ht.perm.mem_iff, List.mem_cons]
  have hgone := (List.nodup_cons.mp (ht.perm.nodup_iff.mp hq.pqueue.sound.indexed.nodup)).1
  refine ⟨⟨⟨ht.sound,hordered⟩,fun x hx => hq.allocated x ((hmem x).mpr (Or.inr hx)),
    .of_listed ht.sound.indexed.nodup fun k x => ?_⟩,hmessage⟩
  rw [hkey, without]
  rcases eq_or_ne k (q.key h) with rfl | hne
  · rw [Assoc.get_erase_self]
    refine iff_of_false (fun hget => by cases hget) ?_
    rintro ⟨hx,hxk⟩
    have hin : x ∈ q.inFlightPQ.items := (hmem x).mpr (Or.inr hx)
    obtain rfl := hq.agrees.inj hin ((hmem h).mpr (Or.inl rfl)) hxk
    exact hgone hx
  · rw [Assoc.get_erase_ne hne, hq.agrees.listed, hmem]
    constructor
    · rintro ⟨rfl | hx,hxk⟩
      · exact absurd hxk.symm hne
      · exact ⟨hx,hxk⟩
    · exact fun hx => ⟨Or.inr hx.1,hx.2⟩

theorem Inv.finish (hq : Inv q) (timeout clientID messageID : Int64) :
    ∃ q', retryStep timeout q (.finish clientID messageID) = .ok q' ∧ Inv q' := by
  rw [retryStep, finishMessage, popInFlightMessage]
  cases hget : Assoc.get (inFlightKey messageID clientID) q.inFlightMessages with
  | none => exact ⟨q,rfl,hq⟩
  | some h =>
    obtain ⟨hmem,hkey⟩ := (hq.agrees.listed _ h).mp hget
    obtain ⟨i,hi,hindex⟩ := IndexedHeap.Sound.index_of_mem hq.pqueue.sound hmem
    obtain ⟨pq,hremove,ht,hordered⟩ := IndexedHeap.remove_taken hq.pqueue.sound hi
    have hpresent : (q.inFlightPQ.objects h).index ≠ -1 := by omega
    have hnat : (q.inFlightPQ.objects h).index.toNat = i := by omega
    refine ⟨q.without h pq,?_,(hq.taken ht (hordered hq.pqueue.ordered)).1⟩
    simp only [ok_bind, removeFromInFlightPQ, if_neg hpresent, hnat, hremove, pure_eq, without,
      hkey]

theorem due_of_taken {pq : InFlightPqueue} {t : Int64} (hdue : q.inFlightPQ.pri h ≤ t)
    (ht : q.inFlightPQ.Taken h pq) : (q.due t).Perm (h :: (q.without h pq).due t) := by
  have hfilter := ht.perm.filter fun x => decide (q.inFlightPQ.pri x ≤ t)
  rw [List.filter_cons, if_pos (decide_eq_true hdue)] at hfilter
  have hsame : (q.without h pq).due t =
      pq.items.filter fun x => decide (q.inFlightPQ.pri x ≤ t) := by
    rw [due]
    exact List.filter_congr fun x _ => by rw [← ht.same.pri x]; rfl
  rw [hsame]
  exact hfilter

theorem Inv.processLoop (hq : Inv q) (t : Int64) (fuel : Nat)
    (hfuel : q.inFlightPQ.items.length < fuel) :
    ∃ handed q', q.processLoop t fuel = .ok (handed,q') ∧ Inv q' ∧ Drained t q handed q' := by
  induction fuel generalizing q with
  | zero => omega
  | succ fuel ih =>
    rw [RetryQueue.processLoop]
    rcases IndexedHeap.peekAndShift_taken hq.pqueue.sound t with
      ⟨hnone,hhead⟩ | ⟨h,pq,hshift,hdue,ht,hordered⟩
    · have hlate (x : Nat) (hx : x ∈ q.inFlightPQ.items) : ¬ q.inFlightPQ.pri x ≤ t :=
        hq.pqueue.all_late hhead hx
      refine ⟨[],q,?_,hq,hlate,?_,fun r hr => by cases hr⟩
      · rw [hnone]
        rfl
      · have hempty : q.due t = [] :=
          List.filter_eq_nil_iff.mpr fun x hx hle => hlate x hx (of_decide_eq_true hle)
        rw [hempty]
        exact .nil
    · obtain ⟨hinv,hmessage⟩ := hq.taken ht (hordered hq.pqueue.ordered)
      have hmem : h ∈ q.inFlightPQ.items := ht.perm.mem_iff.mpr List.mem_cons_self
      have hlen := ht.perm.length_eq
      rw [List.length_cons] at hlen
      obtain ⟨handed,q',hrest,hinv',hd⟩ := ih hinv (by simp only [without]; omega)
      have hsame : message { q with inFlightPQ := pq } = q.message := funext ht.same.model
      have hpop : popInFlightMessage (q.message h).toClientID (q.message h).recvPacket.messageID
          { q with inFlightPQ := pq } = .ok (h,q.without h pq) := by
        have hget := (hq.agrees.listed (q.key h) h).mpr ⟨hmem,rfl⟩
        rw [key] at hget
        rw [popInFlightMessage, hget]
        rfl
      refine ⟨(q.without h pq).redelivery h :: handed,q',?_,hinv',hd.left,?_,fun r hr => ?_⟩
      · rw [hshift]
        simp only [ok_bind, hsame, hpop, hrest, pure_eq]
      · exact (hd.exactly.cons h).trans (due_of_taken hdue ht).symm
      · rcases List.mem_cons.mp hr with rfl | hr
        · rw [redelivery, redelivery, hmessage]
        · rw [hd.delivery r hr, redelivery, redelivery, hmessage]

theorem Inv.drains (hq : Inv q) : Drains q := fun t => by
  obtain ⟨handed,q',hprocess,-,hd⟩ := hq.processLoop t _ (Nat.lt_succ_self _)
  exact ⟨handed,q',hprocess,hd⟩

theorem Inv.process (hq : Inv q) (timeout t : Int64) :
    ∃ q', retryStep timeout q (.process t) = .ok q' ∧ Inv q' := by
  obtain ⟨handed,q',hprocess,hinv,-⟩ := hq.processLoop t _ (Nat.lt_succ_self _)
  exact ⟨q',bind_eq_ok.mpr ⟨(handed,q'),hprocess,rfl⟩,hinv⟩

def FreshKey (q : RetryQueue) : RetryEvent → Prop
  | .start msg _ => Assoc.get (newKey msg) q.inFlightMessages = none
  | _ => True

theorem Inv.step (hq : Inv q) {e : RetryEvent} (timeout : Int64) (he : FreshKey q e) :
    ∃ q', retryStep timeout q e = .ok q' ∧ Inv q' := by
  cases e with
  | start msg now =>
    obtain ⟨q',hstart,-,-,-,hfresh⟩ := hq.start timeout now msg
    exact ⟨q',hstart,(hfresh he).1⟩
  | finish clientID messageID => exact hq.finish timeout clientID messageID
  | process t => exact hq.process timeout t

theorem Inv.duplicated (hq : Inv q) {e : RetryEvent} {timeout : Int64} (he : ¬ FreshKey q e)
    (hstep : retryStep timeout q e = .ok q') : ¬ Agrees q' := by
  cases e with
  | start msg now =>
    obtain ⟨q₁,hstart,hitems,hnew,hold,-⟩ := hq.start timeout now msg
    obtain rfl := Outcome.ok.inj (hstart.symm.trans hstep)
    obtain ⟨x,hx⟩ := Option.ne_none_iff_exists'.mp he
    obtain ⟨hmem,hkey⟩ := (hq.agrees.listed _ x).mp hx
    intro hagrees
    have hsame : q₁.key x = q₁.key q.next := by rw [hold x hmem, hkey, hnew]
    have heq := hagrees.inj (hitems.mem_iff.mpr (List.mem_append_left _ hmem))
      (hitems.mem_iff.mpr (List.mem_append_right _ List.mem_cons_self)) hsame
    exact Nat.lt_irrefl _ (heq ▸ hq.allocated x hmem)
  | finish | process => exact absurd trivial he

end RetryQueue

theorem retry_queue_agrees_iff (timeout : Int64) (events : List RetryEvent) :
    Run.Always (retryStep timeout) (fun q => q.Agrees ∧ q.Drains) .new events ↔
      Run.Meets (retryStep timeout) RetryQueue.FreshKey .new events := by
  refine Run.always_iff_meets (fun q hq => ⟨hq.agrees,hq.drains⟩)
    (fun q e hq he => hq.step timeout he) (fun q e q' hq he hstep hP => ?_) RetryQueue.inv_new
  exact hq.duplicated he hstep hP.1

def repeatedMessage : Entry Message Int64 :=
  ⟨⟨⟨{},{},[],1,0,[],0,[],[],0,[]⟩,[0x75],[],0,2⟩,0,0⟩

theorem repeated_message_drifts :
    ¬ Run.Always (retryStep 5) (fun q => q.Agrees ∧ q.Drains) .new
      [.start repeatedMessage 0,.start repeatedMessage 1] := by
  rintro ⟨-,q₁,h₁,-,q₂,h₂,hagrees,-⟩
  obtain ⟨q,hstart,-,-,-,hfresh⟩ := RetryQueue.inv_new.start 5 0 repeatedMessage
  obtain rfl := Outcome.ok.inj (hstart.symm.trans h₁)
  obtain ⟨hinv,hlisted⟩ := hfresh rfl
  refine hinv.duplicated (fun hkey => ?_) h₂ hagrees
  rw [RetryQueue.FreshKey, hlisted, Assoc.get_put_self] at hkey
  cases hkey

end LiMaoIM.Lim

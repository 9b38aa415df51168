import LiMaoIM.Foundation.Pool
import LiMaoIM.Lim.PendingDeliveries

namespace LiMaoIM.Lim

open Outcome Pool

structure NodeForwarding where
  queue : NodeInFlightQueue
  forwarded : List Nat

inductive Process where
  | idle
  | starting (data : Nat) (round : Option Int64)
  | pushing (data : Nat) (round : Option Int64)
  | adding (data : Nat) (round : Option Int64)
  | forwarding (data : Nat) (round : Option Int64)
  | finishing (data : Nat) (round : Option Int64)
  | removing (data : Nat) (round : Option Int64)
  | scanning (t : Int64)
  | popping (data : Nat) (t : Int64)
  | crashed
deriving DecidableEq

inductive Turn where
  | deliver (m : NodeInFlightDataModel)
  | process (t : Int64)
  | proceed (now : Int64)
  | outcome (succeeded : Bool)

def Process.after : Option Int64 → Process
  | none => .idle
  | some t => .scanning t

namespace NodeForwarding

open NodeInFlightQueue

def setQueue (s : NodeForwarding) (q : NodeInFlightQueue) : NodeForwarding := { s with queue := q }

def UnusedNo (s : NodeForwarding) (no : Bytes) : Prop := ∀ h < s.queue.next, s.queue.no h ≠ no

instance (s : NodeForwarding) (no : Bytes) : Decidable (s.UnusedNo no) :=
  inferInstanceAs (Decidable (∀ h < s.queue.next, s.queue.no h ≠ no))

def proceed (timeout now : Int64) (s : NodeForwarding) :
    Process → Option (NodeForwarding × Process)
  | .starting h round =>
      some (s.setQueue (s.queue.setObject h { s.queue.data h with pri := now + timeout }),
        .pushing h round)
  | .pushing h round => some (s.setQueue (s.queue.pushInFlightMessage h),.adding h round)
  | .adding h round =>
      match s.queue.addToInFlightPQ h with
      | .ok q => some (s.setQueue q,.forwarding h round)
      | _ => some (s,.crashed)
  | .finishing h round =>
      match s.queue.popInFlightMessage (s.queue.no h) with
      | .ok (popped,q) => some (s.setQueue q,.removing popped round)
      | .error _ => some (s,.after round)
      | .panic _ => some (s,.crashed)
  | .removing h round =>
      match s.queue.removeFromInFlightPQ h with
      | .ok q => some (s.setQueue q,.after round)
      | _ => some (s,.crashed)
  | .scanning t =>
      match s.queue.inFlightPQ.peekAndShift t with
      | .ok (none,pq) => some (s.setQueue { s.queue with inFlightPQ := pq },.idle)
      | .ok (some h,pq) => some (s.setQueue { s.queue with inFlightPQ := pq },.popping h t)
      | _ => some (s,.crashed)
  | .popping h t =>
      match s.queue.popInFlightMessage (s.queue.no h) with
      | .ok (_,q) => some (s.setQueue q,.starting h (some t))
      | .error _ => some (s,.idle)
      | .panic _ => some (s,.crashed)
  | _ => none

def step (timeout : Int64) (s : NodeForwarding) (p : Process) :
    Turn → Option (NodeForwarding × Process)
  | .deliver m =>
      if p = .idle ∧ s.UnusedNo m.no then
        some (s.setQueue (s.queue.alloc m),.starting s.queue.next none)
      else none
  | .process t => if p = .idle then some (s,.scanning t) else none
  | .proceed now => s.proceed timeout now p
  | .outcome succeeded =>
      match p with
      | .forwarding h round =>
          if succeeded then some ({ s with forwarded := h :: s.forwarded },.finishing h round)
          else some (s,.after round)
      | _ => none

def turns (timeout : Int64) :
    NodeForwarding → Process → List Turn → Option (NodeForwarding × Process)
  | s, p, [] => some (s,p)
  | s, p, turn :: rest => (s.step timeout p turn).bind fun r => turns timeout r.1 r.2 rest

theorem turns_startDeliveryNodeData {timeout : Int64} {a : Attempt} {s : NodeForwarding} {h : Nat}
    (hvalid : s.queue.Valid) (hfree : h ∉ s.queue.inFlightPQ.items) (hlt : h < s.queue.next)
    (round : Option Int64) :
    ∃ schedule s', turns timeout s (.starting h round) schedule = some (s',.after round) ∧
      s.queue.startDeliveryNodeData timeout a h = .ok s'.queue := by
  obtain ⟨q₁,hstart,hs⟩ := hvalid.startInFlightTimeout hfree hlt timeout a.now
  have hbegin (rest : List Turn) : turns timeout s (.starting h round)
      ([.proceed a.now,.proceed a.now,.proceed a.now] ++ rest) =
        turns timeout (s.setQueue q₁) (.forwarding h round) rest := by
    rw [startInFlightTimeout] at hstart
    simp only [turns, step, proceed, setQueue, List.cons_append, List.nil_append,
      Option.bind_some, hstart]
  simp only [startDeliveryNodeData, hstart, ok_bind]
  cases a.forwarded with
  | false =>
    simp only [Bool.false_eq_true, if_false]
    exact ⟨_,s.setQueue q₁,hbegin [.outcome false],rfl⟩
  | true =>
    simp only [if_true]
    rcases hs.valid.finishMessage (q₁.no h) with ⟨hmissing,hget⟩ | ⟨x,q₂,hfinish,-,-,-⟩
    · refine ⟨_,{ s.setQueue q₁ with forwarded := h :: s.forwarded },
        (hbegin [.outcome true,.proceed a.now]).trans ?_,by rw [hmissing]; rfl⟩
      have hpop : q₁.popInFlightMessage (q₁.no h) = .error notInFlight := by
        rw [popInFlightMessage, hget]
      simp only [turns, step, proceed, setQueue, if_true, Option.bind_some, hpop]
    · refine ⟨_,⟨q₂,h :: s.forwarded⟩,
        (hbegin [.outcome true,.proceed a.now,.proceed a.now]).trans ?_,by rw [hfinish]⟩
      rw [finishMessage] at hfinish
      obtain ⟨⟨popped,q⟩,hpop,hremove⟩ := bind_eq_ok.mp hfinish
      simp only [turns, step, proceed, setQueue, if_true, Option.bind_some, hpop, hremove]

end NodeForwarding

def Process.holds (h : Nat) : Process → Nat
  | .starting x _ | .pushing x _ | .adding x _ | .popping x _ => if x = h then 1 else 0
  | _ => 0

theorem NodeInFlightQueue.data_alloc_of_lt {q : NodeInFlightQueue} {x : Nat}
    (m : NodeInFlightDataModel) (hx : x < q.next) : (q.alloc m).data x = q.data x :=
  Function.update_of_ne hx.ne _ _

namespace NodeForwarding

variable {s s' : NodeForwarding} {p p' : Process} {others : Multiset Process} {h : Nat}
  {round : Option Int64}

def items (s : NodeForwarding) : List Nat := s.queue.inFlightPQ.items

def listing (s : NodeForwarding) (h : Nat) : Option Nat :=
  Assoc.get (s.queue.no h) s.queue.inFlightData

def Listed (s : NodeForwarding) (h : Nat) : Prop := h ∉ s.forwarded → s.listing h = some h

def Settled (s : NodeForwarding) (h : Nat) : Prop := h ∈ s.items ∨ (s.queue.data h).index = -1

def Sound (s : NodeForwarding) : Process → Prop
  | .starting h _ | .pushing h _ => h < s.queue.next
  | .adding h _ | .popping h _ => h < s.queue.next ∧ s.Listed h
  | .forwarding h _ => h < s.queue.next ∧ s.Settled h
  | .finishing h _ | .removing h _ => h < s.queue.next ∧ s.Settled h ∧ h ∈ s.forwarded
  | .crashed => False
  | _ => True

structure Inv (s : NodeForwarding) (ps : Multiset Process) : Prop where
  pqueue : s.queue.inFlightPQ.Valid
  once : ∀ h, s.items.count h + total (Process.holds h) ps ≤ 1
  kept : ∀ h < s.queue.next, h ∉ s.forwarded → 0 < s.items.count h + total (Process.holds h) ps
  allocated : ∀ h, s.queue.next ≤ h → s.items.count h + total (Process.holds h) ps = 0
  named : ∀ no h, Assoc.get no s.queue.inFlightData = some h →
    s.queue.no h = no ∧ h < s.queue.next
  distinct : ∀ h < s.queue.next, ∀ h' < s.queue.next, s.queue.no h = s.queue.no h' → h = h'
  listed : ∀ h ∈ s.items, s.Listed h
  sound : ∀ p ∈ ps, s.Sound p

structure Frame (s s' : NodeForwarding) : Prop where
  next : s.queue.next ≤ s'.queue.next
  no : ∀ h < s.queue.next, s'.queue.no h = s.queue.no h
  forwarded : ∀ h ∈ s.forwarded, h ∈ s'.forwarded
  settled : ∀ h < s.queue.next, s.Settled h → s'.Settled h

namespace Inv

theorem held (hinv : Inv s (p ::ₘ others)) (hp : p.holds h = 1) :
    s.items.count h = 0 ∧ total (Process.holds h) others = 0 := by
  have honce := hinv.once h
  rw [total_cons, hp] at honce
  omega

theorem bound (hinv : Inv s (p ::ₘ others)) (hh : h ∈ s.items) : h < s.queue.next := by
  by_contra hle
  have hnone := hinv.allocated h (Nat.le_of_not_lt hle)
  have hcount := List.count_pos_iff.mpr hh
  omega

theorem sound_of_frame (hframe : Frame s s') (hp : s.Sound p)
    (hlisted : ∀ x < s.queue.next, 0 < p.holds x → s.Listed x → s'.Listed x) : s'.Sound p := by
  cases p with
  | idle | scanning => trivial
  | crashed => exact hp
  | starting x round | pushing x round => exact Nat.lt_of_lt_of_le hp hframe.next
  | adding x round | popping x t =>
    obtain ⟨hlt,hx⟩ := hp
    have hpos : 0 < (Process.adding x none).holds x := by
      rw [Process.holds, if_pos rfl]
      exact Nat.one_pos
    exact ⟨Nat.lt_of_lt_of_le hlt hframe.next,hlisted x hlt hpos hx⟩
  | forwarding x round =>
    exact ⟨Nat.lt_of_lt_of_le hp.1 hframe.next,hframe.settled x hp.1 hp.2⟩
  | finishing x round | removing x round =>
    exact ⟨Nat.lt_of_lt_of_le hp.1 hframe.next,hframe.settled x hp.1 hp.2.1,
      hframe.forwarded x hp.2.2⟩

theorem advance (hinv : Inv s (p ::ₘ others)) (hnext : s'.queue.next = s.queue.next)
    (hframe : Frame s s')
    (hpqueue : s'.queue.inFlightPQ.Valid)
    (hle : ∀ x, s'.items.count x + p'.holds x ≤ s.items.count x + p.holds x)
    (hge : ∀ x, x ∉ s'.forwarded →
      s.items.count x + p.holds x ≤ s'.items.count x + p'.holds x)
    (hnamed : ∀ no x, Assoc.get no s'.queue.inFlightData = some x →
      Assoc.get no s.queue.inFlightData = some x ∨ s.queue.no x = no ∧ x < s.queue.next)
    (hlisted : ∀ x < s.queue.next, p'.holds x = 0 → s.Listed x → s'.Listed x)
    (hadded : ∀ x ∈ s'.items, x ∉ s.items → s'.Listed x) (hown : s'.Sound p') :
    Inv s' (p' ::ₘ others) := by
  have honce (x : Nat) : s'.items.count x + total (Process.holds x) (p' ::ₘ others) ≤ 1 := by
    have hbefore := hinv.once x
    have hx := hle x
    rw [total_cons] at hbefore ⊢
    omega
  constructor
  · exact hpqueue
  · exact honce
  · intro x hx hnot
    have hbefore := hinv.kept x (hnext ▸ hx) fun hmem => hnot (hframe.forwarded x hmem)
    have hx' := hge x hnot
    rw [total_cons] at hbefore ⊢
    omega
  · intro x hx
    have hbefore := hinv.allocated x (hnext ▸ hx)
    have hx' := hle x
    rw [total_cons] at hbefore ⊢
    omega
  · intro no x hx
    have hx' : s.queue.no x = no ∧ x < s.queue.next := by
      rcases hnamed no x hx with hold | hnew
      · exact hinv.named no x hold
      · exact hnew
    rw [hframe.no x hx'.2, hnext]
    exact hx'
  · intro x hx y hy hno
    rw [hnext] at hx hy
    rw [hframe.no x hx, hframe.no y hy] at hno
    exact hinv.distinct x hx y hy hno
  · intro x hx
    by_cases hold : x ∈ s.items
    · have hcount := List.count_pos_iff.mpr hx
      have hx' := honce x
      rw [total_cons] at hx'
      exact hlisted x (hinv.bound hold) (by omega) (hinv.listed x hold)
    · exact hadded x hx hold
  · intro u hu
    rcases Multiset.mem_cons.mp hu with rfl | hother
    · exact hown
    · apply sound_of_frame hframe (hinv.sound u (Multiset.mem_cons_of_mem hother))
      intro x hx hholds
      have hx' := honce x
      have hle' := le_total (w := Process.holds x) hother
      rw [total_cons] at hx'
      exact hlisted x hx (by omega)

theorem stay (hinv : Inv s (p ::ₘ others))
    (hle : ∀ x, p'.holds x ≤ p.holds x) (hge : ∀ x, x ∉ s.forwarded → p.holds x ≤ p'.holds x)
    (hown : s.Sound p') : Inv s (p' ::ₘ others) := by
  refine hinv.advance rfl ⟨le_refl _,fun _ _ => rfl,fun _ hx => hx,fun _ _ hx => hx⟩ hinv.pqueue
    (fun x => Nat.add_le_add_left (hle x) _) (fun x hx => Nat.add_le_add_left (hge x hx) _)
    (fun no x hx => Or.inl hx) (fun x _ _ hx => hx) (fun x hx hnot => absurd hx hnot) hown

theorem succeeded (hinv : Inv s (.forwarding h round ::ₘ others)) :
    Inv { s with forwarded := h :: s.forwarded } (.finishing h round ::ₘ others) := by
  obtain ⟨hlt,hsettled⟩ := hinv.sound _ (Multiset.mem_cons_self _ _)
  refine hinv.advance rfl
    ⟨le_refl _,fun _ _ => rfl,fun _ hx => List.mem_cons_of_mem _ hx,fun _ _ hx => hx⟩ hinv.pqueue
    (fun x => le_refl _) (fun x _ => le_refl _) (fun no x hx => Or.inl hx)
    (fun x _ _ hx hnot => ?_) (fun x hx hnot => absurd hx hnot)
    ⟨hlt,hsettled,List.mem_cons_self⟩
  exact hx fun hmem => hnot (List.mem_cons_of_mem _ hmem)

theorem priced (hinv : Inv s (.starting h round ::ₘ others)) (pri : Int64) :
    Inv (s.setQueue (s.queue.setObject h { s.queue.data h with pri := pri }))
      (.pushing h round ::ₘ others) := by
  have hmodel := fun x => NodeInFlightQueue.model_setObject h x pri s.queue
  have hindex (x : Nat) :
      ((s.queue.setObject h { s.queue.data h with pri := pri }).data x).index =
        (s.queue.data x).index := by
    rcases eq_or_ne x h with rfl | hne
    · have hself : (s.queue.setObject x { s.queue.data x with pri := pri }).data x =
          { s.queue.data x with pri := pri } := Function.update_self ..
      rw [hself]
    · have hother : (s.queue.setObject h { s.queue.data h with pri := pri }).data x =
          s.queue.data x := Function.update_of_ne hne ..
      rw [hother]
  have hno (x : Nat) : (s.queue.setObject h { s.queue.data h with pri := pri }).no x =
      s.queue.no x := congrArg NodeInFlightDataModel.no (hmodel x)
  refine hinv.advance rfl ⟨le_refl _,fun x _ => hno x,fun _ hx => hx,fun x _ hx => ?_⟩
    ⟨⟨hinv.pqueue.indexed.nodup,fun i x hi => ?_⟩,hinv.pqueue.roomy.positive,
      hinv.pqueue.roomy.fits⟩ (fun x => le_refl _)
    (fun x _ => le_refl _) (fun no x hx => Or.inl hx) (fun x _ _ hx hnot => ?_)
    (fun x hx hnot => absurd hx hnot) (hinv.sound _ (Multiset.mem_cons_self _ _))
  · rcases hx with hmem | hgone
    · exact Or.inl hmem
    · exact Or.inr ((hindex x).trans hgone)
  · exact (hindex x).trans (hinv.pqueue.indexed.index i x hi)
  · have hx' := hx hnot
    rw [listing] at hx' ⊢
    rw [setQueue, hno]
    exact hx'

theorem pushed (hinv : Inv s (.pushing h round ::ₘ others)) :
    Inv (s.setQueue (s.queue.pushInFlightMessage h)) (.adding h round ::ₘ others) := by
  have hlt : h < s.queue.next := hinv.sound _ (Multiset.mem_cons_self _ _)
  rw [NodeInFlightQueue.pushInFlightMessage]
  cases hget : Assoc.get (s.queue.no h) s.queue.inFlightData with
  | some x =>
    obtain ⟨hno,hx⟩ := hinv.named _ x hget
    obtain rfl := hinv.distinct x hx h hlt hno
    exact hinv.stay (fun _ => le_refl _) (fun _ _ => le_refl _) ⟨hlt,fun _ => hget⟩
  | none =>
    refine hinv.advance rfl ⟨le_refl _,fun _ _ => rfl,fun _ hx => hx,fun _ _ hx => hx⟩ hinv.pqueue
      (fun x => le_refl _) (fun x _ => le_refl _) (fun no x hx => ?_)
      (fun x hx _ hlisted hnot => ?_)
      (fun x hx hnot => absurd hx hnot) ⟨hlt,fun _ => Assoc.get_put_self⟩
    · rcases eq_or_ne no (s.queue.no h) with rfl | hne
      · rw [setQueue, Assoc.get_put_self] at hx
        obtain rfl := Option.some.inj hx
        exact Or.inr ⟨rfl,hlt⟩
      · rw [setQueue, Assoc.get_put_ne hne] at hx
        exact Or.inl hx
    · have hx' := hlisted hnot
      rw [listing] at hx'
      refine (Assoc.get_put_ne ?_).trans hx'
      intro heq
      have hsame : s.queue.no x = s.queue.no h := heq
      rw [hsame, hget] at hx'
      cases hx'

theorem added (hinv : Inv s (.adding h round ::ₘ others)) :
    ∃ q, s.queue.addToInFlightPQ h = .ok q ∧ q.inFlightPQ.items.Perm (s.items ++ [h]) ∧
      Inv (s.setQueue q) (.forwarding h round ::ₘ others) := by
  obtain ⟨hlt,hlisted⟩ := hinv.sound _ (Multiset.mem_cons_self _ _)
  have hfree : h ∉ s.queue.inFlightPQ.items :=
    List.count_eq_zero.mp (hinv.held (by rw [Process.holds, if_pos rfl])).1
  obtain ⟨pq,hpush,hp⟩ := NodeInFlightDataPqueue.push_pushed hinv.pqueue hfree
  have hno (x : Nat) : NodeInFlightQueue.no { s.queue with inFlightPQ := pq } x = s.queue.no x :=
    congrArg NodeInFlightDataModel.no (hp.data x)
  have hlistings (x : Nat) (hx : s.Listed x) :
      Listed (s.setQueue { s.queue with inFlightPQ := pq }) x := by
    intro hnot
    rw [listing, setQueue, hno]
    exact hx hnot
  have hcount (x : Nat) : pq.items.count x = s.items.count x + if h = x then 1 else 0 := by
    rw [hp.perm.count_eq, List.count_append, List.count_singleton, items]
    simp only [beq_iff_eq]
  have hmem (x : Nat) : x ∈ pq.items ↔ x ∈ s.items ∨ x = h := by
    rw [hp.perm.mem_iff, List.mem_append, List.mem_singleton, items]
  refine ⟨{ s.queue with inFlightPQ := pq },by rw [NodeInFlightQueue.addToInFlightPQ, hpush]; rfl,
    hp.perm,hinv.advance rfl ⟨le_refl _,fun x _ => hno x,fun _ hx => hx,fun x _ hx => ?_⟩ hp.valid
    (fun x => ?_) (fun x _ => ?_) (fun no x hx => Or.inl hx) (fun x _ _ hx => hlistings x hx)
    (fun x hx hnot => ?_) ⟨hlt,Or.inl ((hmem h).mpr (Or.inr rfl))⟩⟩
  · by_cases hx' : x ∈ pq.items
    · exact Or.inl hx'
    · rw [hmem, not_or] at hx'
      rcases hx with hmem | hgone
      · exact absurd hmem hx'.1
      · refine Or.inr ?_
        rw [← hgone]
        exact congrArg NodeInFlightData.index (hp.outside x hx'.1 hx'.2)
  · exact (hcount x).le
  · exact (hcount x).ge
  · rcases (hmem x).mp hx with hold | rfl
    · exact absurd hold hnot
    · exact hlistings x hlisted

theorem holds_after (round : Option Int64) (x : Nat) : (Process.after round).holds x = 0 := by
  cases round with
  | none | some => rfl

theorem sound_after (s : NodeForwarding) (round : Option Int64) : s.Sound (.after round) := by
  cases round with
  | none | some => trivial

theorem erased (hinv : Inv s (p ::ₘ others)) (hlt : h < s.queue.next)
    (hsame : ∀ x, p'.holds x = p.holds x)
    (hother : ∀ x, p'.holds x = 0 → x ∉ s.forwarded → x ≠ h)
    (hown : Sound (s.setQueue { s.queue with
      inFlightData := Assoc.erase (s.queue.no h) s.queue.inFlightData }) p') :
    Inv (s.setQueue { s.queue with
      inFlightData := Assoc.erase (s.queue.no h) s.queue.inFlightData }) (p' ::ₘ others) := by
  refine hinv.advance rfl ⟨le_refl _,fun _ _ => rfl,fun _ hx => hx,fun _ _ hx => hx⟩ hinv.pqueue
    (fun x => (congrArg _ (hsame x)).le) (fun x _ => (congrArg _ (hsame x)).ge)
    (fun no x hx => ?_) (fun x hx hzero hlisted hnot => ?_) (fun x hx hnot => absurd hx hnot) hown
  · rcases eq_or_ne no (s.queue.no h) with rfl | hne
    · rw [setQueue, Assoc.get_erase_self] at hx
      cases hx
    · rw [setQueue, Assoc.get_erase_ne hne] at hx
      exact Or.inl hx
  · refine (Assoc.get_erase_ne ?_).trans (hlisted hnot)
    exact fun heq => hother x hzero hnot (hinv.distinct x hx h hlt heq)

theorem finished (hinv : Inv s (.finishing h round ::ₘ others)) :
    s.queue.popInFlightMessage (s.queue.no h) = .error NodeInFlightQueue.notInFlight ∨
      ∃ q, s.queue.popInFlightMessage (s.queue.no h) = .ok (h,q) ∧
        q.inFlightPQ = s.queue.inFlightPQ ∧ Inv (s.setQueue q) (.removing h round ::ₘ others) := by
  obtain ⟨hlt,hsettled,hforwarded⟩ := hinv.sound _ (Multiset.mem_cons_self _ _)
  rw [NodeInFlightQueue.popInFlightMessage]
  cases hget : Assoc.get (s.queue.no h) s.queue.inFlightData with
  | none => exact Or.inl rfl
  | some x =>
    obtain ⟨hno,hx⟩ := hinv.named _ x hget
    obtain rfl := hinv.distinct x hx h hlt hno
    refine Or.inr ⟨_,rfl,rfl,hinv.erased hlt (fun _ => rfl) (fun y _ hy => ?_)
      ⟨hlt,hsettled,hforwarded⟩⟩
    rintro rfl
    exact hy hforwarded

theorem popped {t : Int64} (hinv : Inv s (.popping h t ::ₘ others)) :
    s.queue.popInFlightMessage (s.queue.no h) = .error NodeInFlightQueue.notInFlight ∧
      Inv s (.idle ::ₘ others) ∨
    ∃ q, s.queue.popInFlightMessage (s.queue.no h) = .ok (h,q) ∧
      q.inFlightPQ = s.queue.inFlightPQ ∧ Inv (s.setQueue q) (.starting h (some t) ::ₘ others) := by
  obtain ⟨hlt,hlisted⟩ := hinv.sound _ (Multiset.mem_cons_self _ _)
  rw [NodeInFlightQueue.popInFlightMessage]
  cases hget : Assoc.get (s.queue.no h) s.queue.inFlightData with
  | none =>
    refine Or.inl ⟨rfl,hinv.stay (fun _ => Nat.zero_le _) (fun x hx => ?_) trivial⟩
    rw [Process.holds, if_neg]
    · exact le_refl _
    · rintro rfl
      have hx' := hlisted hx
      rw [listing, hget] at hx'
      cases hx'
  | some x =>
    obtain ⟨hno,hx⟩ := hinv.named _ x hget
    obtain rfl := hinv.distinct x hx h hlt hno
    refine Or.inr ⟨_,rfl,rfl,hinv.erased hlt (fun _ => rfl) (fun y hy _ => ?_) hlt⟩
    rintro rfl
    rw [Process.holds, if_pos rfl] at hy
    exact absurd hy Nat.one_ne_zero

theorem taken {pq : NodeInFlightDataPqueue} (hinv : Inv s (p ::ₘ others))
    (ht : s.queue.inFlightPQ.Taken h pq) (hfree : ∀ x, p.holds x = 0)
    (hle : ∀ x, p'.holds x ≤ if h = x then 1 else 0)
    (hge : h ∉ s.forwarded → p'.holds h = 1)
    (hown : Frame s (s.setQueue { s.queue with inFlightPQ := pq }) →
      Sound (s.setQueue { s.queue with inFlightPQ := pq }) p') :
    Inv (s.setQueue { s.queue with inFlightPQ := pq }) (p' ::ₘ others) := by
  have hno (x : Nat) : NodeInFlightQueue.no { s.queue with inFlightPQ := pq } x = s.queue.no x :=
    congrArg NodeInFlightDataModel.no (ht.data x)
  have hcount (x : Nat) : s.items.count x = pq.items.count x + if h = x then 1 else 0 := by
    rw [items, ht.perm.count_eq, List.count_cons]
    simp only [beq_iff_eq]
  have hframe : Frame s (s.setQueue { s.queue with inFlightPQ := pq }) := by
    refine ⟨le_refl _,fun x _ => hno x,fun _ hx => hx,fun x _ hx => ?_⟩
    by_cases hmem : x ∈ s.items
    · rcases List.mem_cons.mp (ht.perm.mem_iff.mp hmem) with rfl | hrest
      · exact Or.inr ht.gone
      · exact Or.inl hrest
    · refine Or.inr ?_
      rw [← hx.resolve_left hmem]
      exact congrArg NodeInFlightData.index (ht.outside x hmem)
  refine hinv.advance rfl hframe ht.valid (fun x => ?_) (fun x hx => ?_) (fun no x hx => Or.inl hx)
    (fun x _ _ hx hnot => ?_) (fun x hx hnot => ?_) (hown hframe)
  · rw [hcount, hfree]
    exact Nat.add_le_add_left (hle x) _
  · rw [hcount, hfree]
    rcases eq_or_ne h x with rfl | hne
    · rw [if_pos rfl, hge hx]
      exact le_refl _
    · rw [if_neg hne]
      exact Nat.le_add_right _ _
  · rw [listing, setQueue, hno]
    exact hx hnot
  · exact absurd (ht.perm.mem_iff.mpr (List.mem_cons_of_mem _ hx)) hnot

theorem removed (hinv : Inv s (.removing h round ::ₘ others)) :
    ∃ q, s.queue.removeFromInFlightPQ h = .ok q ∧ q.inFlightPQ.items.Perm (s.items.erase h) ∧
      Inv (s.setQueue q) (.after round ::ₘ others) := by
  obtain ⟨hlt,hsettled,hforwarded⟩ := hinv.sound _ (Multiset.mem_cons_self _ _)
  rw [NodeInFlightQueue.removeFromInFlightPQ]
  split
  · rename_i hgone
    have hnot : h ∉ s.items := by
      intro hmem
      obtain ⟨i,-,hi⟩ := NodeInFlightDataPqueue.Valid.index_of_mem hinv.pqueue hmem
      rw [NodeInFlightQueue.data, hi] at hgone
      omega
    refine ⟨s.queue,rfl,?_,hinv.stay (fun x => (holds_after round x).le) (fun x _ => Nat.zero_le _)
      (sound_after s round)⟩
    rw [List.erase_of_not_mem hnot]
    exact .refl _
  · rename_i hpresent
    have hmem : h ∈ s.items := hsettled.resolve_right hpresent
    obtain ⟨i,hi,hindex⟩ := NodeInFlightDataPqueue.Valid.index_of_mem hinv.pqueue hmem
    obtain ⟨pq,hremove,ht⟩ := NodeInFlightDataPqueue.remove_taken hinv.pqueue hi
    have hnat : (s.queue.data h).index.toNat = i := by
      rw [NodeInFlightQueue.data, hindex]
      exact Int.toNat_natCast i
    refine ⟨{ s.queue with inFlightPQ := pq },by rw [hnat, hremove]; rfl,?_,
      hinv.taken ht (fun _ => rfl) (fun x => (holds_after round x).le.trans (Nat.zero_le _))
        (fun hnot => absurd hforwarded hnot) fun _ => sound_after _ round⟩
    have herase := ht.perm.erase h
    rw [List.erase_cons_head] at herase
    exact herase.symm

theorem shifted {t : Int64} (hinv : Inv s (.scanning t ::ₘ others)) :
    s.queue.inFlightPQ.peekAndShift t = .ok (none,s.queue.inFlightPQ) ∨
      ∃ x pq, s.queue.inFlightPQ.peekAndShift t = .ok (some x,pq) ∧ s.items.Perm (x :: pq.items) ∧
        Inv (s.setQueue { s.queue with inFlightPQ := pq }) (.popping x t ::ₘ others) := by
  rcases NodeInFlightDataPqueue.peekAndShift_taken hinv.pqueue t with
    hnone | ⟨x,pq,hshift,ht⟩
  · exact Or.inl hnone
  · have hmem : x ∈ s.items := ht.perm.mem_iff.mpr List.mem_cons_self
    refine Or.inr ⟨x,pq,hshift,ht.perm,hinv.taken ht (fun _ => rfl)
      (fun y => le_refl _) (fun _ => if_pos rfl) fun hframe => ⟨hinv.bound hmem,fun hnot => ?_⟩⟩
    rw [listing, hframe.no x (hinv.bound hmem)]
    exact hinv.listed x hmem hnot

section Allocation

variable {m : NodeInFlightDataModel} {x y : Nat}

theorem no_alloc_of_lt (hx : x < s.queue.next) : (s.queue.alloc m).no x = s.queue.no x :=
  congrArg (fun d => d.model.no) (NodeInFlightQueue.data_alloc_of_lt m hx)

theorem no_alloc (s : NodeForwarding) (m : NodeInFlightDataModel) :
    (s.queue.alloc m).no s.queue.next = m.no :=
  congrArg NodeInFlightDataModel.no (NodeInFlightQueue.data_alloc m s.queue)

theorem frame_alloc (s : NodeForwarding) (m : NodeInFlightDataModel) :
    Frame s (s.setQueue (s.queue.alloc m)) := by
  refine ⟨Nat.le_succ _,fun _ hx => no_alloc_of_lt hx,fun _ hx => hx,fun x hx hsettled => ?_⟩
  rcases hsettled with hmem | hgone
  · exact Or.inl hmem
  · exact Or.inr ((congrArg NodeInFlightData.index
      (NodeInFlightQueue.data_alloc_of_lt m hx)).trans hgone)

theorem listed_alloc (hx : x < s.queue.next) (h : s.Listed x) :
    (s.setQueue (s.queue.alloc m)).Listed x := by
  intro hnot
  rw [listing, setQueue, no_alloc_of_lt hx]
  exact h hnot

theorem distinct_alloc {gs : Multiset Process} (hinv : Inv s gs) (hunused : s.UnusedNo m.no)
    (hx : x < s.queue.next + 1) (hy : y < s.queue.next + 1)
    (heq : (s.queue.alloc m).no x = (s.queue.alloc m).no y) : x = y := by
  rcases Nat.lt_succ_iff_lt_or_eq.mp hx with hxlt | rfl
  · rcases Nat.lt_succ_iff_lt_or_eq.mp hy with hylt | rfl
    · rw [no_alloc_of_lt hxlt, no_alloc_of_lt hylt] at heq
      exact hinv.distinct x hxlt y hylt heq
    · rw [no_alloc_of_lt hxlt, no_alloc] at heq
      exact absurd heq (hunused x hxlt)
  · rcases Nat.lt_succ_iff_lt_or_eq.mp hy with hylt | rfl
    · rw [no_alloc_of_lt hylt, no_alloc] at heq
      exact absurd heq.symm (hunused y hylt)
    · rfl

end Allocation

theorem allocated_new (hinv : Inv s (.idle ::ₘ others)) {m : NodeInFlightDataModel}
    (hunused : s.UnusedNo m.no) :
    Inv (s.setQueue (s.queue.alloc m)) (.starting s.queue.next none ::ₘ others) := by
  have hnone := hinv.allocated s.queue.next (le_refl _)
  have htotal (x : Nat) : total (Process.holds x) (.starting s.queue.next none ::ₘ others) =
      (if s.queue.next = x then 1 else 0) + total (Process.holds x) (.idle ::ₘ others) := by
    rw [total_cons, total_cons]
    exact congrArg _ (Nat.zero_add _).symm
  constructor
  · refine ⟨⟨hinv.pqueue.indexed.nodup,fun i x hi => ?_⟩,hinv.pqueue.roomy.positive,
      hinv.pqueue.roomy.fits⟩
    have hx := hinv.bound (List.mem_of_getElem? hi)
    exact (congrArg NodeInFlightData.index (NodeInFlightQueue.data_alloc_of_lt m hx)).trans
      (hinv.pqueue.indexed.index i x hi)
  · intro x
    have hx := hinv.once x
    rw [htotal]
    split
    · rename_i heq
      rw [← heq]
      exact Nat.add_left_comm _ _ _ ▸ (congrArg (1 + ·) hnone).le
    · rwa [Nat.zero_add]
  · intro x hx hnot
    rw [htotal]
    split
    · omega
    · rename_i hne
      rw [Nat.zero_add]
      exact hinv.kept x (Nat.lt_of_le_of_ne (Nat.le_of_lt_succ hx) (Ne.symm hne)) hnot
  · intro x hx
    have hlt : s.queue.next < x := hx
    rw [htotal, if_neg hlt.ne, Nat.zero_add]
    exact hinv.allocated x hlt.le
  · intro no x hx
    obtain ⟨hxno,hxlt⟩ := hinv.named no x hx
    exact ⟨(no_alloc_of_lt hxlt).trans hxno,Nat.lt_succ_of_lt hxlt⟩
  · exact fun x hx y hy heq => distinct_alloc hinv hunused hx hy heq
  · exact fun x hx => listed_alloc (hinv.bound hx) (hinv.listed x hx)
  · intro u hu
    rcases Multiset.mem_cons.mp hu with rfl | hother
    · exact Nat.lt_succ_self _
    · exact sound_of_frame (frame_alloc s m) (hinv.sound u (Multiset.mem_cons_of_mem hother))
        fun x hx _ => listed_alloc hx

end Inv

def HeapChange (before after : List Nat) : Process → Process → Prop
  | .adding h _, _ => after.Perm (before ++ [h])
  | .removing h _, _ => after.Perm (before.erase h)
  | .scanning _, .popping h _ => before.Perm (h :: after)
  | _, _ => after = before

theorem Inv.proceed {timeout now : Int64} (hinv : Inv s (p ::ₘ others))
    (hstep : s.proceed timeout now p = some (s',p')) :
    Inv s' (p' ::ₘ others) ∧ HeapChange s.items s'.items p p' := by
  cases p with
  | idle | forwarding | crashed => cases hstep
  | starting h round =>
    obtain ⟨rfl,rfl⟩ := Prod.mk.inj (Option.some.inj hstep)
    exact ⟨hinv.priced (now + timeout),rfl⟩
  | pushing h round =>
    obtain ⟨rfl,rfl⟩ := Prod.mk.inj (Option.some.inj hstep)
    refine ⟨hinv.pushed,?_⟩
    have hsame : (s.queue.pushInFlightMessage h).inFlightPQ = s.queue.inFlightPQ := by
      rw [NodeInFlightQueue.pushInFlightMessage]
      cases Assoc.get (s.queue.no h) s.queue.inFlightData with
      | none | some => rfl
    exact congrArg NodeInFlightDataPqueue.items hsame
  | adding h round =>
    obtain ⟨q,hadd,hperm,hnext⟩ := hinv.added
    simp only [NodeForwarding.proceed, hadd, Option.some.injEq, Prod.mk.injEq] at hstep
    obtain ⟨rfl,rfl⟩ := hstep
    exact ⟨hnext,hperm⟩
  | finishing h round =>
    rcases hinv.finished with herror | ⟨q,hpop,hsame,hnext⟩
    · simp only [NodeForwarding.proceed, herror, Option.some.injEq, Prod.mk.injEq] at hstep
      obtain ⟨rfl,rfl⟩ := hstep
      exact ⟨hinv.stay (fun x => (holds_after round x).le) (fun x _ => Nat.zero_le _)
        (sound_after s round),rfl⟩
    · simp only [NodeForwarding.proceed, hpop, Option.some.injEq, Prod.mk.injEq] at hstep
      obtain ⟨rfl,rfl⟩ := hstep
      exact ⟨hnext,congrArg NodeInFlightDataPqueue.items hsame⟩
  | removing h round =>
    obtain ⟨q,hremove,hperm,hnext⟩ := hinv.removed
    simp only [NodeForwarding.proceed, hremove, Option.some.injEq, Prod.mk.injEq] at hstep
    obtain ⟨rfl,rfl⟩ := hstep
    exact ⟨hnext,hperm⟩
  | scanning t =>
    rcases hinv.shifted with hnone | ⟨x,pq,hshift,hperm,hnext⟩
    · simp only [NodeForwarding.proceed, hnone, Option.some.injEq, Prod.mk.injEq] at hstep
      obtain ⟨rfl,rfl⟩ := hstep
      exact ⟨hinv.stay (fun _ => le_refl _) (fun _ _ => le_refl _) trivial,rfl⟩
    · simp only [NodeForwarding.proceed, hshift, Option.some.injEq, Prod.mk.injEq] at hstep
      obtain ⟨rfl,rfl⟩ := hstep
      exact ⟨hnext,hperm⟩
  | popping h t =>
    rcases hinv.popped with ⟨herror,hnext⟩ | ⟨q,hpop,hsame,hnext⟩
    · simp only [NodeForwarding.proceed, herror, Option.some.injEq, Prod.mk.injEq] at hstep
      obtain ⟨rfl,rfl⟩ := hstep
      exact ⟨hnext,rfl⟩
    · simp only [NodeForwarding.proceed, hpop, Option.some.injEq, Prod.mk.injEq] at hstep
      obtain ⟨rfl,rfl⟩ := hstep
      exact ⟨hnext,congrArg NodeInFlightDataPqueue.items hsame⟩

theorem Inv.step {timeout : Int64} {turn : Turn} (hinv : Inv s (p ::ₘ others))
    (hstep : s.step timeout p turn = some (s',p')) :
    Inv s' (p' ::ₘ others) ∧ HeapChange s.items s'.items p p' := by
  cases turn with
  | deliver m =>
    simp only [NodeForwarding.step] at hstep
    split at hstep
    · rename_i hidle
      obtain ⟨rfl,hunused⟩ := hidle
      obtain ⟨rfl,rfl⟩ := Prod.mk.inj (Option.some.inj hstep)
      exact ⟨hinv.allocated_new hunused,rfl⟩
    · cases hstep
  | process t =>
    simp only [NodeForwarding.step] at hstep
    split at hstep
    · rename_i hidle
      obtain rfl := hidle
      obtain ⟨rfl,rfl⟩ := Prod.mk.inj (Option.some.inj hstep)
      exact ⟨hinv.stay (fun _ => le_refl _) (fun _ _ => le_refl _) trivial,rfl⟩
    · cases hstep
  | proceed now => exact hinv.proceed hstep
  | outcome succeeded =>
    cases p with
    | forwarding h round =>
      simp only [NodeForwarding.step] at hstep
      split at hstep
      · obtain ⟨rfl,rfl⟩ := Prod.mk.inj (Option.some.inj hstep)
        exact ⟨hinv.succeeded,rfl⟩
      · obtain ⟨rfl,rfl⟩ := Prod.mk.inj (Option.some.inj hstep)
        exact ⟨hinv.stay (fun x => (holds_after round x).le) (fun x _ => Nat.zero_le _)
          (sound_after s round),rfl⟩
    | _ => cases hstep

structure Safe (timeout : Int64) (c : Pool NodeForwarding Process) : Prop where
  present : ∀ h < c.shared.queue.next, h ∉ c.shared.forwarded →
    (c.shared.listing h = some h ∧ h ∈ c.shared.items) ∨ ∃ p ∈ c.threads, 0 < p.holds h
  removes : ∀ p ∈ c.threads, ∀ turn s' p', c.shared.step timeout p turn = some (s',p') →
    HeapChange c.shared.items s'.items p p'
  running : .crashed ∉ c.threads

theorem Inv.safe {c : Pool NodeForwarding Process} (hinv : Inv c.shared c.threads)
    (timeout : Int64) : Safe timeout c := by
  refine ⟨fun h hh hnot => ?_,fun p hp turn s' p' hstep => ?_,fun hcrashed => ?_⟩
  · by_cases hmem : h ∈ c.shared.items
    · exact Or.inl ⟨hinv.listed h hmem hnot,hmem⟩
    · right
      have hkept := hinv.kept h hh hnot
      rw [List.count_eq_zero.mpr hmem, Nat.zero_add] at hkept
      by_contra hnone
      push Not at hnone
      have hzero : total (Process.holds h) (c.threads : Multiset Process) = 0 :=
        total_eq_zero fun p hp => Nat.le_zero.mp (hnone p hp)
      omega
  · obtain ⟨others,hsplit⟩ := Multiset.exists_cons_of_mem (Multiset.mem_coe.mpr hp)
    rw [hsplit] at hinv
    exact (hinv.step hstep).2
  · exact hinv.sound _ (Multiset.mem_coe.mpr hcrashed)

end NodeForwarding

namespace NodeInFlightQueue

structure Loaded (q : NodeInFlightQueue) : Prop where
  valid : q.Valid
  all : ∀ h < q.next, h ∈ q.inFlightPQ.items ∧ Assoc.get (q.no h) q.inFlightData = some h

theorem Loaded.startAll {q : NodeInFlightQueue} (hq : Loaded q) (timeout : Int64)
    (entries : List (NodeInFlightDataModel × Int64))
    (hnos : (entries.map fun e => e.1.no).Nodup)
    (hunused : ∀ h < q.next, q.no h ∉ entries.map fun e => e.1.no) :
    ∃ q', q.startAll timeout entries = .ok q' ∧ Loaded q' := by
  induction entries generalizing q with
  | nil => exact ⟨q,rfl,hq⟩
  | cons e rest ih =>
    obtain ⟨m,now⟩ := e
    obtain ⟨hfirst,hrest⟩ := List.nodup_cons.mp hnos
    have hfresh : q.next ∉ (q.alloc m).inFlightPQ.items := hq.valid.fresh
    have hno (x : Nat) (hx : x < q.next) : (q.alloc m).no x = q.no x :=
      congrArg (fun d => d.model.no) (data_alloc_of_lt m hx)
    have hnew : (q.alloc m).no q.next = m.no := congrArg NodeInFlightDataModel.no (data_alloc m q)
    have hfree : Assoc.get m.no q.inFlightData = none := by
      cases hget : Assoc.get m.no q.inFlightData with
      | none => rfl
      | some x =>
        obtain ⟨hmem,hx⟩ := hq.valid.listed m.no x hget
        exact absurd (hx ▸ List.mem_cons_self) (hunused x (hq.valid.allocated x hmem))
    obtain ⟨q₁,hstart,hs⟩ :=
      (hq.valid.alloc m).startInFlightTimeout hfresh (Nat.lt_succ_self _) timeout now
    have hno₁ (x : Nat) : q₁.no x = (q.alloc m).no x :=
      congrArg NodeInFlightDataModel.no (hs.data x)
    have hdata : q₁.inFlightData = Assoc.put m.no q.next q.inFlightData := by
      have hfree' : Assoc.get m.no (q.alloc m).inFlightData = none := hfree
      rw [hs.listed, hnew, hfree']
      rfl
    have hloaded : Loaded q₁ := by
      refine ⟨hs.valid,fun x hx => ?_⟩
      rw [hs.next] at hx
      rw [hs.items.mem_iff, List.mem_append, List.mem_singleton, hno₁, hdata]
      rcases Nat.lt_succ_iff_lt_or_eq.mp hx with hlt | rfl
      · obtain ⟨hmem,hget⟩ := hq.all x hlt
        refine ⟨Or.inl hmem,?_⟩
        rw [hno x hlt, Assoc.get_put_ne, hget]
        intro heq
        rw [heq, hfree] at hget
        cases hget
      · exact ⟨Or.inr rfl,by rw [hnew, Assoc.get_put_self]⟩
    obtain ⟨q₂,hall,hq₂⟩ := ih hloaded hrest fun x hx => by
      rw [hs.next] at hx
      rw [hno₁]
      rcases Nat.lt_succ_iff_lt_or_eq.mp hx with hlt | rfl
      · rw [hno x hlt]
        exact fun hmem => hunused x hlt (List.mem_cons_of_mem _ hmem)
      · rwa [hnew]
    refine ⟨q₂,?_,hq₂⟩
    rw [NodeInFlightQueue.startAll, hstart]
    exact hall

theorem start_loaded (timeout : Int64) (clock : Nat → Int64) {stored : List NodeInFlightDataModel}
    (hnos : (stored.map NodeInFlightDataModel.no).Nodup) :
    ∃ q rest, new.start timeout clock stored = .ok (q,rest) ∧ Loaded q := by
  have hentries : (stored.zipIdx.map fun e => (e.1,clock e.2)).map (fun e => e.1.no) =
      stored.map NodeInFlightDataModel.no := by
    rw [List.map_map]
    nth_rewrite 2 [← List.zipIdx_map_fst 0 stored]
    rw [List.map_map]
    rfl
  obtain ⟨q,hstart,hq⟩ := (⟨valid_new,fun h hh => absurd hh (Nat.not_lt_zero h)⟩ :
    Loaded new).startAll timeout (stored.zipIdx.map fun e => (e.1,clock e.2))
      (hentries ▸ hnos) fun h hh => absurd hh (Nat.not_lt_zero h)
  refine ⟨q,[],?_,hq⟩
  rw [NodeInFlightQueue.start, hstart]
  rfl

end NodeInFlightQueue

namespace NodeForwarding

def started (q : NodeInFlightQueue) (n : Nat) : Pool NodeForwarding Process :=
  ⟨⟨q,[]⟩,List.replicate n .idle⟩

theorem Inv.loaded {q : NodeInFlightQueue} (hq : q.Loaded) (n : Nat) :
    Inv ⟨q,[]⟩ (Multiset.replicate n .idle) := by
  have htotal (h : Nat) : total (Process.holds h) (Multiset.replicate n .idle) = 0 := by
    apply total_eq_zero
    intro p hp
    rw [Multiset.eq_of_mem_replicate hp]
    rfl
  constructor
  · exact hq.valid.pqueue
  · intro h
    rw [htotal]
    exact List.nodup_iff_count_le_one.mp hq.valid.pqueue.indexed.nodup h
  · intro h hh _
    rw [htotal]
    exact List.count_pos_iff.mpr (hq.all h hh).1
  · intro h hh
    rw [htotal]
    exact List.count_eq_zero.mpr fun hmem =>
      absurd (hq.valid.allocated h hmem) (Nat.not_lt.mpr hh)
  · intro no h hget
    obtain ⟨hmem,hno⟩ := hq.valid.listed no h hget
    exact ⟨hno,hq.valid.allocated h hmem⟩
  · intro h hh h' hh' heq
    have hget := (hq.all h hh).2
    have heq : q.no h = q.no h' := heq
    rw [heq, (hq.all h' hh').2] at hget
    exact (Option.some.inj hget).symm
  · exact fun h hh _ => (hq.all h (hq.valid.allocated h hh)).2
  · intro p hp
    rw [Multiset.eq_of_mem_replicate hp]
    trivial

end NodeForwarding

theorem node_forwarding_at_least_once (timeout : Int64) (clock : Nat → Int64)
    {stored : List NodeInFlightDataModel} (hnos : (stored.map NodeInFlightDataModel.no).Nodup)
    (n : Nat) (schedule : List (Nat × Turn)) :
    ∃ q rest, NodeInFlightQueue.new.start timeout clock stored = .ok (q,rest) ∧
      Run.Always (advance (NodeForwarding.step timeout)) (NodeForwarding.Safe timeout)
        (NodeForwarding.started q n) schedule := by
  obtain ⟨q,rest,hstart,hq⟩ := NodeInFlightQueue.start_loaded timeout clock hnos
  refine ⟨q,rest,hstart,?_⟩
  apply Run.Always.imp (fun c h => NodeForwarding.Inv.safe h timeout)
  apply always_of_thread (fun s p turn s' p' others hinv hstep => (hinv.step hstep).1)
  rw [NodeForwarding.started, Multiset.coe_replicate]
  exact NodeForwarding.Inv.loaded hq n

theorem node_forwarding_retried : ∃ q rest,
    NodeInFlightQueue.new.start 5 (fun _ => 0) [failedDelivery] = .ok (q,rest) ∧
      Run.Always (advance (NodeForwarding.step 5)) (NodeForwarding.Safe 5)
        (NodeForwarding.started q 2) [(0,.process 6),(0,.proceed 6),(0,.proceed 6),(1,.process 7),
          (1,.proceed 7),(0,.proceed 8)] :=
  node_forwarding_at_least_once 5 (fun _ => 0) (by decide) 2 _

end LiMaoIM.Lim

import LiMaoIM.Lim.NodeInFlightQueue

namespace LiMaoIM.Lim

open Outcome

namespace NodeInFlightQueue

variable {q q' : NodeInFlightQueue} {h : Nat} {pending pending' : List NodeInFlightDataModel}

structure Tracks (q : NodeInFlightQueue) (pending : List NodeInFlightDataModel) : Prop where
  valid : q.Valid
  listed : ∀ h ∈ q.inFlightPQ.items, Assoc.get (q.no h) q.inFlightData = some h
  keys : (Assoc.keys q.inFlightData).Nodup
  pending : pending.Perm (q.inFlightPQ.items.map fun h => (q.data h).model)

theorem Tracks.of_perm (ht : Tracks q pending) (hp : pending'.Perm pending) : Tracks q pending' :=
  ⟨ht.valid,ht.listed,ht.keys,hp.trans ht.pending⟩

theorem Tracks.models (ht : Tracks q pending) : q.models.Perm pending := by
  have hvalues : (q.inFlightData.map (·.2)).Perm q.inFlightPQ.items := by
    have hinj : ∀ e ∈ q.inFlightData, e.1 = q.no e.2 := fun e he =>
      (ht.valid.listed e.1 e.2 (Assoc.get_of_mem ht.keys he)).2.symm
    refine (List.perm_ext_iff_of_nodup ?_ ht.valid.pqueue.indexed.nodup).mpr fun h => ?_
    · have hkeys : Assoc.keys q.inFlightData = (q.inFlightData.map (·.2)).map q.no := by
        rw [List.map_map]
        exact List.map_congr_left hinj
      have hnodup := ht.keys
      rw [hkeys] at hnodup
      exact hnodup.of_map
    · constructor
      · intro hmem
        obtain ⟨⟨no,h'⟩,he,rfl⟩ := List.mem_map.mp hmem
        exact (ht.valid.listed no h' (Assoc.get_of_mem ht.keys he)).1
      · intro hmem
        exact List.mem_map.mpr ⟨(q.no h,h),Assoc.mem_of_get (ht.listed h hmem),rfl⟩
  have hmodels : q.models = (q.inFlightData.map (·.2)).map fun h => (q.data h).model := by
    rw [NodeInFlightQueue.models, List.map_map]
    rfl
  rw [hmodels]
  exact (hvalues.map _).trans ht.pending.symm

theorem tracks_new : Tracks new [] := by
  refine ⟨valid_new,fun h hh => ?_,List.nodup_nil,.refl _⟩
  cases hh

theorem Tracks.start (ht : Tracks q pending) (hs : Started h q q')
    (hfree : Assoc.get (q.no h) q.inFlightData = none) :
    Tracks q' (pending ++ [(q.data h).model]) := by
  have hdata : q'.inFlightData = Assoc.put (q.no h) h q.inFlightData := by
    rw [hs.listed, hfree]
  have hno : ∀ x, q'.no x = q.no x := fun x => congrArg NodeInFlightDataModel.no (hs.data x)
  refine ⟨hs.valid,fun x hx => ?_,?_,?_⟩
  · rw [hdata, hno]
    rcases List.mem_append.mp (hs.items.mem_iff.mp hx) with hold | hself
    · have hne : q.no x ≠ q.no h := by
        intro heq
        have hget := ht.listed x hold
        rw [heq, hfree] at hget
        cases hget
      rw [Assoc.get_put_ne hne]
      exact ht.listed x hold
    · rw [List.mem_singleton.mp hself, Assoc.get_put_self]
  · rw [hdata]
    exact Assoc.nodup_put ht.keys _ _
  · have hitems := hs.items.map fun x => (q'.data x).model
    simp only [hs.data, List.map_append, List.map_singleton] at hitems
    simp only [hs.data]
    exact (ht.pending.append_right _).trans hitems.symm

theorem Tracks.remove (ht : Tracks q pending) (hr : Removed h q q')
    (hdata : q'.inFlightData = Assoc.erase (q.no h) q.inFlightData)
    (hmem : h ∈ q.inFlightPQ.items) : Tracks q' (pending.erase (q.data h).model) := by
  have hno : ∀ x, q'.no x = q.no x := fun x => congrArg NodeInFlightDataModel.no (hr.data x)
  have hnodup := List.nodup_cons.mp (hr.items.nodup_iff.mp ht.valid.pqueue.indexed.nodup)
  refine ⟨hr.valid,fun x hx => ?_,?_,?_⟩
  · have hold := ht.listed x (hr.items.mem_iff.mpr (List.mem_cons_of_mem h hx))
    have hne : q.no x ≠ q.no h := by
      intro heq
      rw [heq, ht.listed h hmem] at hold
      obtain rfl := Option.some.inj hold
      exact hnodup.1 hx
    rw [hdata, hno, Assoc.get_erase_ne hne]
    exact hold
  · rw [hdata]
    exact Assoc.nodup_erase ht.keys _
  · have hall := ht.pending.trans (hr.items.map fun x => (q.data x).model)
    rw [List.map_cons] at hall
    have herased := hall.erase (q.data h).model
    rw [List.erase_cons_head] at herased
    simp only [hr.data]
    exact herased

theorem Tracks.startDeliveryNodeData (ht : Tracks q pending) (hh : h ∉ q.inFlightPQ.items)
    (hlt : h < q.next) (hfree : Assoc.get (q.no h) q.inFlightData = none) (timeout : Int64)
    (a : Attempt) :
    ∃ q', q.startDeliveryNodeData timeout a h = .ok q' ∧
      Tracks q' (if a.forwarded then pending else pending ++ [(q.data h).model]) := by
  obtain ⟨q₁,hstart,hs⟩ := ht.valid.startInFlightTimeout hh hlt timeout a.now
  have ht₁ := ht.start hs hfree
  simp only [NodeInFlightQueue.startDeliveryNodeData, hstart, ok_bind]
  cases a.forwarded with
  | false => exact ⟨q₁,rfl,ht₁⟩
  | true =>
    have hmem : h ∈ q₁.inFlightPQ.items :=
      hs.items.mem_iff.mpr (List.mem_append_right _ List.mem_cons_self)
    have hget := ht₁.listed h hmem
    rcases ht₁.valid.finishMessage (q₁.no h) with
      ⟨-,hnone⟩ | ⟨x,q₂,hfinish,hx,hdata,hr⟩
    · cases hget.symm.trans hnone
    · obtain rfl := Option.some.inj (hget.symm.trans hx)
      have ht₂ := ht₁.remove hr hdata hmem
      simp only [hfinish, if_true]
      refine ⟨q₂,rfl,ht₂.of_perm ?_⟩
      have hswap := (List.perm_append_singleton (q.data h).model pending).erase (q.data h).model
      rw [List.erase_cons_head] at hswap
      rw [hs.data]
      exact hswap.symm

theorem Tracks.processInFlightQueue (ht : Tracks q pending) (timeout t : Int64)
    (attempts : List Attempt) :
    ∃ r, q.processInFlightQueue timeout t attempts = .ok r ∧ Tracks r.2 (pending.diff r.1) := by
  induction attempts generalizing q pending with
  | nil => exact ⟨([],q),rfl,ht⟩
  | cons a attempts ih =>
    rw [NodeInFlightQueue.processInFlightQueue]
    rcases ht.valid.peekAndShift t with hnone | ⟨x,pq,hshift,hmem,hno,-,hr⟩
    · rw [hnone]
      exact ⟨([],q),rfl,ht⟩
    · rw [hshift]
      simp only [ok_bind]
      rw [hno, popInFlightMessage]
      have hget := ht.listed x hmem
      have hr' : Removed x q { q with
          inFlightPQ := pq, inFlightData := Assoc.erase (q.no x) q.inFlightData } :=
        ⟨hr.valid,hr.items,hr.data,hr.next⟩
      have ht₀ := ht.remove hr' rfl hmem
      obtain ⟨hfresh,hlt⟩ := hr'.fresh ht.valid
      have hfree : Assoc.get (NodeInFlightQueue.no { q with inFlightPQ := pq } x)
          (Assoc.erase (q.no x) q.inFlightData) = none := by
        rw [hno, Assoc.get_erase_self]
      obtain ⟨q₁,hdeliver,ht₁⟩ := ht₀.startDeliveryNodeData hfresh hlt hfree timeout a
      obtain ⟨⟨forwarded,q₂⟩,hrest,ht₂⟩ := ih ht₁
      simp only [hget, hdeliver, ok_bind, hrest]
      have hmodel : ({ q with
          inFlightPQ := pq, inFlightData := Assoc.erase (q.no x) q.inFlightData }.data x).model =
            (q.data x).model := hr.data x
      rw [hmodel] at ht₂
      rw [hmodel]
      refine ⟨_,rfl,?_⟩
      cases hforwarded : a.forwarded with
      | true =>
        simp only [hforwarded, if_true] at ht₂
        rw [if_pos rfl, List.diff_cons]
        exact ht₂
      | false =>
        simp only [hforwarded, Bool.false_eq_true, if_false] at ht₂
        rw [if_neg Bool.false_ne_true]
        have hin : (q.data x).model ∈ pending :=
          ht.pending.mem_iff.mpr (List.mem_map_of_mem hmem)
        have hrequeued : (pending.erase (q.data x).model ++ [(q.data x).model]).Perm pending :=
          (List.perm_append_singleton _ _).trans (List.perm_cons_erase hin).symm
        exact ht₂.of_perm (hrequeued.symm.diff_right forwarded)

theorem Tracks.alloc (ht : Tracks q pending) (m : NodeInFlightDataModel) :
    Tracks (q.alloc m) pending := by
  have hsame : ∀ x ∈ q.inFlightPQ.items, (q.alloc m).data x = q.data x := by
    intro x hx
    have hne : x ≠ q.next := by
      rintro rfl
      exact ht.valid.fresh hx
    exact Function.update_of_ne hne ..
  refine ⟨ht.valid.alloc m,fun x hx => ?_,ht.keys,?_⟩
  · rw [NodeInFlightQueue.no, hsame x hx]
    exact ht.listed x hx
  · have hmap : (q.inFlightPQ.items.map fun x => ((q.alloc m).data x).model) =
        q.inFlightPQ.items.map fun x => (q.data x).model :=
      List.map_congr_left fun x hx => congrArg NodeInFlightData.model (hsame x hx)
    exact hmap ▸ ht.pending

theorem Tracks.free (ht : Tracks q pending) {no : Bytes}
    (hfree : no ∉ pending.map NodeInFlightDataModel.no) : Assoc.get no q.inFlightData = none := by
  cases hget : Assoc.get no q.inFlightData with
  | none => rfl
  | some x =>
    obtain ⟨hmem,rfl⟩ := ht.valid.listed no x hget
    have hin : (q.data x).model ∈ pending := ht.pending.mem_iff.mpr (List.mem_map_of_mem hmem)
    exact absurd (List.mem_map_of_mem hin) hfree

theorem Tracks.startAll (ht : Tracks q pending) (timeout : Int64)
    (entries : List (NodeInFlightDataModel × Int64))
    (hfree : ((pending ++ entries.map (·.1)).map NodeInFlightDataModel.no).Nodup) :
    ∃ q', q.startAll timeout entries = .ok q' ∧ Tracks q' (pending ++ entries.map (·.1)) := by
  induction entries generalizing q pending with
  | nil => exact ⟨q,rfl,ht.of_perm (List.append_nil _ ▸ .refl _)⟩
  | cons e rest ih =>
    obtain ⟨m,now⟩ := e
    have hfresh : q.next ∉ (q.alloc m).inFlightPQ.items := ht.valid.fresh
    obtain ⟨q₁,hstart,hs⟩ :=
      (ht.alloc m).valid.startInFlightTimeout hfresh (Nat.lt_succ_self _) timeout now
    have hno : (q.alloc m).no q.next = m.no := congrArg NodeInFlightDataModel.no (data_alloc m q)
    have hunlisted : m.no ∉ pending.map NodeInFlightDataModel.no := by
      rw [List.map_append, List.nodup_append] at hfree
      exact fun hmem => hfree.2.2 _ hmem _ List.mem_cons_self rfl
    have ht₁ := (ht.alloc m).start hs (hno ▸ (ht.alloc m).free hunlisted)
    rw [data_alloc] at ht₁
    have hassoc : pending ++ ((m,now) :: rest).map (·.1) = pending ++ [m] ++ rest.map (·.1) := by
      rw [List.append_assoc]
      rfl
    rw [hassoc] at hfree ⊢
    obtain ⟨q₂,hrest,ht₂⟩ := ih ht₁ hfree
    refine ⟨q₂,?_,ht₂⟩
    rw [NodeInFlightQueue.startAll, hstart]
    exact hrest

end NodeInFlightQueue

def UnusedNo (s : NodeDelivery) : DeliveryEvent → Prop
  | .deliver m _ => m.no ∉ s.pending.map NodeInFlightDataModel.no
  | .process _ _ => True

theorem NodeDelivery.start_tracks (timeout : Int64) (clock : Nat → Int64)
    (stored : List NodeInFlightDataModel)
    (hnos : (stored.map NodeInFlightDataModel.no).Nodup) :
    ∃ s, NodeDelivery.start timeout clock stored = .ok s ∧ s.queue.Tracks s.pending := by
  have hentries : (stored.zipIdx.map fun e => (e.1,clock e.2)).map (·.1) = stored := by
    rw [List.map_map]
    exact List.zipIdx_map_fst 0 stored
  obtain ⟨q,hstart,ht⟩ := NodeInFlightQueue.tracks_new.startAll timeout
    (stored.zipIdx.map fun e => (e.1,clock e.2)) (by rwa [List.nil_append, hentries])
  rw [List.nil_append, hentries] at ht
  refine ⟨⟨q,[],stored⟩,?_,ht⟩
  rw [NodeDelivery.start, NodeInFlightQueue.start, hstart]
  rfl

theorem deliveryStep_tracks (timeout : Int64) {s : NodeDelivery} (hs : s.queue.Tracks s.pending)
    (e : DeliveryEvent) (hfree : UnusedNo s e) :
    ∃ s', deliveryStep timeout s e = .ok s' ∧ s'.queue.Tracks s'.pending := by
  cases e with
  | deliver m a =>
    have hno : (s.queue.alloc m).no s.queue.next = m.no :=
      congrArg NodeInFlightDataModel.no (NodeInFlightQueue.data_alloc m s.queue)
    have hfresh : s.queue.next ∉ (s.queue.alloc m).inFlightPQ.items := hs.valid.fresh
    obtain ⟨q,hdeliver,ht⟩ := (hs.alloc m).startDeliveryNodeData hfresh (Nat.lt_succ_self _)
      (hno ▸ (hs.alloc m).free hfree) timeout a
    rw [NodeInFlightQueue.data_alloc] at ht
    rw [deliveryStep, hdeliver]
    exact ⟨_,rfl,ht⟩
  | process t attempts =>
    obtain ⟨⟨forwarded,q⟩,hprocess,ht⟩ := hs.processInFlightQueue timeout t attempts
    rw [deliveryStep, hprocess]
    exact ⟨_,rfl,ht⟩

theorem pending_deliveries_in_flight (timeout : Int64) (clock : Nat → Int64)
    {stored : List NodeInFlightDataModel} (hnos : (stored.map NodeInFlightDataModel.no).Nodup)
    {s : NodeDelivery} (hstart : NodeDelivery.start timeout clock stored = .ok s)
    {events : List DeliveryEvent} (hfree : Run.Meets (deliveryStep timeout) UnusedNo s events) :
    Run.Always (deliveryStep timeout) (fun s => s.queue.models.Perm s.pending) s events := by
  obtain ⟨s',hstart',ht⟩ := NodeDelivery.start_tracks timeout clock stored hnos
  obtain rfl := Outcome.ok.inj (hstart'.symm.trans hstart)
  have hstep : ∀ (s : NodeDelivery) (e : DeliveryEvent), s.queue.Tracks s.pending →
      UnusedNo s e → ∃ s', deliveryStep timeout s e = .ok s' ∧ s'.queue.Tracks s'.pending :=
    fun _ e hs he => deliveryStep_tracks timeout hs e he
  exact Run.always_of_invariant (fun _ hs => hs.models) hstep ht hfree

end LiMaoIM.Lim

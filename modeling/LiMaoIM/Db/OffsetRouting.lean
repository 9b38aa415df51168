import LiMaoIM.Db.OrderedReads
import Mathlib.Order.Bounds.Defs

namespace LiMaoIM.Db

open Outcome

namespace Topic

def readLogIn (baseOffset offset : Int64) : Exec Topic Bytes := do
  let id ← getOrNewSegment baseOffset
  let s ← segmentAt id
  let t ← Exec.get
  Exec.lift (s.readAt (t.files s) offset)

def RoutesToOwner (t : Topic) (offset : Int64) : Prop :=
  ∃ b, IsGreatest {c | c ∈ t.segments ∧ c ≤ offset} b ∧ t.baseOffset offset = .ok b ∧
    readLogAt offset t = readLogIn b offset t

theorem readLogAt_eq {t : Topic} {offset b : Int64} (h : t.baseOffset offset = .ok b) :
    readLogAt offset t = readLogIn b offset t := by
  rw [readLogAt, Exec.get_bind]
  exact Exec.bind_of_ok (congrArg (·,t) h)

theorem baseOffsetLoop_of_le {o first : Int64} {rest : List Int64} (h : first ≤ o) :
    ∃ b, baseOffsetLoop o (first :: rest) = .ok b ∧ b ≤ o ∧ (b = o → b = first) := by
  induction rest generalizing first with
  | nil => exact ⟨first,if_pos h,h,fun _ => rfl⟩
  | cons c rest ih =>
      by_cases hc : o ≤ c
      · exact ⟨first,if_pos ⟨h,hc⟩,h,fun _ => rfl⟩
      · have hlt : c < o := Int64.not_le.mp hc
        obtain ⟨b,hb,hle,hself⟩ := ih (Int64.le_of_lt hlt)
        refine ⟨b,?_,hle,fun heq => ?_⟩
        · rw [baseOffsetLoop, if_neg fun hbound => hc hbound.2, hb]
        · rw [← hself heq, heq] at hlt
          exact absurd hlt Int64.lt_irrefl

theorem routesToOwner_iff {t : Topic} {first o : Int64} {rest : List Int64}
    (hs : t.segments = first :: rest) (hsorted : t.segments.Pairwise (· < ·)) (hfirst : first ≤ o) :
    t.RoutesToOwner o ↔ o ∉ rest := by
  rw [hs] at hsorted
  have hbelow := (List.pairwise_cons.mp hsorted).1
  obtain ⟨b,hb,hle,hself⟩ := baseOffsetLoop_of_le hfirst
  have hbase : t.baseOffset o = .ok b := by rw [baseOffset, hs, hb]
  obtain ⟨hmem,hlater⟩ := baseOffsetLoop_spec hsorted hb
  rw [RoutesToOwner, hs]
  constructor
  · rintro ⟨c,hgreatest,hc,-⟩ ho
    obtain rfl : b = c := Outcome.ok.inj (hbase.symm.trans hc)
    have heq : b = o :=
      Int64.le_antisymm hle (hgreatest.2 ⟨List.mem_cons_of_mem _ ho,Int64.le_refl o⟩)
    have hlt := hbelow o ho
    rw [← heq, hself heq] at hlt
    exact absurd hlt Int64.lt_irrefl
  · intro ho
    refine ⟨b,⟨⟨hmem,hle⟩,?_⟩,hbase,readLogAt_eq hbase⟩
    rintro d ⟨hd,hdo⟩
    by_contra hdb
    have hbd : b < d := Int64.not_le.mp hdb
    have heq : d = o := Int64.le_antisymm hdo (hlater d hd hbd)
    rcases List.mem_cons.mp hd with rfl | hd
    · rcases List.mem_cons.mp hmem with rfl | hmem
      · exact absurd hbd Int64.lt_irrefl
      · exact absurd (Int64.lt_trans hbd (hbelow b hmem)) Int64.lt_irrefl
    · exact ho (heq ▸ hd)

end Topic

def rolledTopic : Topic :=
  (Topic.appendLog ⟨3,0,[3]⟩ (Topic.appendLog ⟨2,0,[2]⟩
    (Topic.appendLog ⟨1,0,[1]⟩ (freshTopic 40)).2).2).2

theorem rolledTopic_segments : rolledTopic.segments = [0,3] := by decide +kernel

theorem rolledTopic_routes_later_log : rolledTopic.RoutesToOwner 4 :=
  (Topic.routesToOwner_iff rolledTopic_segments (by rw [rolledTopic_segments]; decide)
    (by decide)).mpr (by decide)

theorem rolledTopic_misses_first_log :
    rolledTopic.baseOffset 3 = .ok 0 ∧ ¬rolledTopic.RoutesToOwner 3 ∧
      (Topic.readLogAt 3 rolledTopic).1 = .error errorNotData := by
  have hbase : rolledTopic.baseOffset 3 = .ok 0 := by
    rw [Topic.baseOffset, rolledTopic_segments]
    rfl
  refine ⟨hbase,?_,by decide +kernel⟩
  rintro ⟨b,hgreatest,hb,-⟩
  obtain rfl : 0 = b := Outcome.ok.inj (hbase.symm.trans hb)
  have hmem : (3 : Int64) ∈ rolledTopic.segments := by
    rw [rolledTopic_segments]
    decide
  exact absurd (hgreatest.2 ⟨hmem,Int64.le_refl 3⟩) (by decide)

end LiMaoIM.Db

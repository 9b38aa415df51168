import LiMaoIM.Db.Reopen

namespace LiMaoIM.Db

open Outcome

inductive Process where
  | running (topic : Topic)
  | crashed (dir : TopicDir)

def Process.dir : Process → TopicDir
  | .running t => t.dir
  | .crashed dir => dir

def Process.close : Process → TopicDir
  | .running t => t.close
  | .crashed dir => dir

structure Replica where
  process : Process
  stored : List Log
  inherited : List Log

inductive ReplicaStep where
  | append (log : Log)
  | reopen

def Replica.initial (segmentMaxBytes : Int) : Replica :=
  ⟨.running (freshTopic segmentMaxBytes),[],[]⟩

def Replica.finish (s : Replica) (log : Log) : Outcome Nat × Topic → Outcome Replica
  | (.ok n,topic) =>
      .ok ⟨.running topic,if n = 0 then s.stored else s.stored ++ [log],s.inherited⟩
  | (.error _,topic) => .ok ⟨.running topic,s.stored,s.inherited⟩
  | (.panic e,_) => .panic e

def replicaStep (segmentMaxBytes : Int) (s : Replica) : ReplicaStep → Outcome Replica
  | .append log =>
      match s.process with
      | .running t => s.finish log (Topic.appendLog log t)
      | .crashed _ => .ok s
  | .reopen =>
      match newTopic s.process.close segmentMaxBytes with
      | .ok t => .ok ⟨.running t,s.stored,s.stored⟩
      | _ => .ok ⟨.crashed s.process.close,s.stored,s.stored⟩

structure StrictlyStored (s : Replica) : Prop where
  files : ∀ e ∈ s.process.dir.logs, Ascending (records e.2.log)
  held : s.stored.Perm (s.process.dir.logs.flatMap fun e => records e.2.log)
  ascending : Ascending s.stored

def Fresh (s : Replica) : ReplicaStep → Prop
  | .append log =>
      match s.process with
      | .running t =>
          t.alreadyAppended log = false → log.data.length ≤ logMaxSize →
            ∀ l ∈ s.inherited, l.offset < log.offset
      | .crashed _ => True
  | .reopen => True

inductive Process.Holds : Process → Parts → Prop
  | running {t : Topic} {parts : Parts} (h : Layout t parts) : Holds (.running t) parts
  | crashed {dir : TopicDir} {parts : Parts} (h : DirLayout dir parts) : Holds (.crashed dir) parts

theorem Process.Holds.dirLayout {p : Process} {parts : Parts} (h : p.Holds parts) :
    DirLayout p.dir parts := by
  cases h with
  | running h => exact h.dir
  | crashed h => exact h

theorem Process.Holds.close {p : Process} {parts : Parts} (h : p.Holds parts) :
    DirLayout p.close parts := by
  cases h with
  | running h => exact h.close
  | crashed h => exact h

structure ReplicaInv (s : Replica) (parts : Parts) : Prop where
  holds : s.process.Holds parts
  root : ∃ ls, Assoc.get 0 parts = some ls
  flat : parts.flat.Perm s.stored
  sub : ∀ e ∈ parts, e.2.Sublist s.stored
  small : ∀ l ∈ s.stored, l.data.length ≤ logMaxSize
  ascending : Ascending s.stored
  inherited : ∀ l ∈ s.inherited, l ∈ s.stored
  guarded : ∀ t, s.process = .running t → ∀ l ∈ s.stored,
    l ∈ s.inherited ∨ ∃ m, t.lastMemLog = some m ∧ l.offset ≤ m.offset

theorem replicaInv_initial (segmentMaxBytes : Int) :
    ReplicaInv (.initial segmentMaxBytes) [(0,[])] := by
  refine ⟨.running (layout_freshTopic segmentMaxBytes),⟨[],rfl⟩,List.Perm.refl _,?_,?_,
    List.Pairwise.nil,fun l hl => hl,?_⟩
  · intro e he
    rw [List.mem_singleton.mp he]
    exact List.Sublist.refl _
  · exact fun l hl => absurd hl List.not_mem_nil
  · exact fun t _ l hl => absurd hl List.not_mem_nil

section Invariant

variable {segmentMaxBytes : Int} {s : Replica} {parts : Parts}

theorem ReplicaInv.strictlyStored (h : ReplicaInv s parts) : StrictlyStored s := by
  have hlogs := h.holds.dirLayout.logs
  have hsmall : ∀ e ∈ parts, ∀ l ∈ e.2, l.data.length ≤ logMaxSize :=
    fun e he l hl => h.small l ((h.sub e he).subset hl)
  have hrecords : s.process.dir.logs.map (fun e => records e.2.log) = parts.map (·.2) := by
    have hmap := congrArg (List.map fun e => records e.2) hlogs
    simp only [Assoc.mapVal, List.map_map] at hmap
    have hright : parts.map ((fun e => records e.2) ∘ fun e => (e.1,joined e.2)) =
        parts.map (·.2) := by
      apply List.map_congr_left
      intro e he
      exact records_joined (hsmall e he)
    exact hmap.trans hright
  refine ⟨?_,?_,h.ascending⟩
  · intro e he
    have hmem : records e.2.log ∈ parts.map (·.2) := by
      rw [← hrecords]
      exact List.mem_map.mpr ⟨e,he,rfl⟩
    obtain ⟨e',he',heq⟩ := List.mem_map.mp hmem
    rw [← heq]
    exact List.Pairwise.sublist (h.sub e' he') h.ascending
  · rw [List.flatMap_def, hrecords, ← List.flatMap_def]
    exact h.flat.symm

theorem Target.root {t : Topic} {parts parts₁ : Parts} {log : Log} {b : Int64}
    {segments : List Int64} (ht : Target t parts log b parts₁ segments)
    (h : ∃ ls, Assoc.get 0 parts = some ls) : ∃ ls, Assoc.get 0 parts₁ = some ls := by
  cases ht with
  | stay g hg hr => exact h
  | roll =>
    obtain ⟨ls,hls⟩ := h
    by_cases hz : (0 : Int64) = log.offset
    · rw [hz, Parts.opened, Assoc.get_put_self]
      exact ⟨_,rfl⟩
    · exact ⟨ls,by rw [Parts.opened, Assoc.get_put_ne hz, hls]⟩

theorem Target.sub {t : Topic} {parts parts₁ : Parts} {log : Log} {b : Int64}
    {segments : List Int64} {stored : List Log} (ht : Target t parts log b parts₁ segments)
    (h : ∀ e ∈ parts, e.2.Sublist stored) : ∀ e ∈ parts₁, e.2.Sublist stored := by
  cases ht with
  | stay g hg hr => exact h
  | roll =>
    intro e he
    rcases Assoc.mem_put he with he | rfl
    · exact h e he
    · cases hget : Assoc.get log.offset parts with
      | none => exact List.nil_sublist _
      | some ls => exact h _ (Assoc.mem_of_get hget)

theorem sub_grow {stored : List Log} {b : Int64} (log : Log)
    (h : ∀ e ∈ parts, e.2.Sublist stored) :
    ∀ e ∈ parts.grow b log, e.2.Sublist (stored ++ [log]) := by
  intro e he
  rcases Assoc.mem_put he with he | rfl
  · exact (h e he).trans (List.sublist_append_left _ _)
  · apply List.Sublist.append_right
    cases hget : Assoc.get b parts with
    | none => exact List.nil_sublist _
    | some ls => exact h _ (Assoc.mem_of_get hget)

theorem root_grow {b : Int64} (log : Log) (h : ∃ ls, Assoc.get 0 parts = some ls) :
    ∃ ls, Assoc.get 0 (parts.grow b log) = some ls := by
  obtain ⟨ls,hls⟩ := h
  by_cases hz : 0 = b
  · rw [hz, Parts.grow, Assoc.get_put_self]
    exact ⟨_,rfl⟩
  · exact ⟨ls,by rw [Parts.grow, Assoc.get_put_ne hz, hls]⟩

section Running

variable {t : Topic} {stored inherited : List Log} {log : Log}
  (h : ReplicaInv ⟨.running t,stored,inherited⟩ parts)
  (hm : t.alreadyAppended log = false)
include h hm

theorem ReplicaInv.above (hc : ∀ l ∈ inherited, l.offset < log.offset) :
    ∀ l ∈ stored, l.offset < log.offset := by
  intro l hl
  rcases h.guarded t rfl l hl with hl | ⟨m,hmem,hle⟩
  · exact hc l hl
  · rw [Topic.alreadyAppended, hmem] at hm
    have hlt : ¬ log.offset ≤ m.offset := of_decide_eq_false hm
    rw [Int64.le_iff_toInt_le] at hle hlt
    rw [Int64.lt_iff_toInt_lt]
    omega

theorem ReplicaInv.guarded_by {t' : Topic} (hmem : t'.lastMemLog = some log) :
    ∀ l ∈ stored, l ∈ inherited ∨ ∃ m, t'.lastMemLog = some m ∧ l.offset ≤ m.offset := by
  intro l hl
  rcases h.guarded t rfl l hl with hl | ⟨m,hold,hle⟩
  · exact Or.inl hl
  · rw [Topic.alreadyAppended, hold] at hm
    have hlt : ¬ log.offset ≤ m.offset := of_decide_eq_false hm
    rw [Int64.le_iff_toInt_le] at hle hlt
    refine Or.inr ⟨log,hmem,?_⟩
    rw [Int64.le_iff_toInt_le]
    omega

theorem ReplicaInv.appended (segmentMaxBytes : Int) (hsize : log.data.length ≤ logMaxSize) :
    ∃ t' parts', replicaStep segmentMaxBytes ⟨.running t,stored,inherited⟩ (.append log) =
        .ok ⟨.running t',stored ++ [log],inherited⟩ ∧
      ((∀ l ∈ stored, l.offset < log.offset) →
        ReplicaInv ⟨.running t',stored ++ [log],inherited⟩ parts') := by
  obtain ⟨hlay⟩ := h.holds
  obtain ⟨b,parts₁,segments,t',ht,ha,hok,-⟩ := hlay.appendLog hm
  obtain ⟨hrun,hlay'⟩ := hok hsize
  have hpos := length_wrap_pos log
  refine ⟨t',parts₁.grow b log,?_,fun habove => ?_⟩
  · simp only [replicaStep, hrun, Replica.finish, if_neg (Nat.ne_of_gt hpos)]
  · refine ⟨.running hlay',root_grow log (ht.root h.root),?_,sub_grow log (ht.sub h.sub),?_,
      (ascending_append h.ascending).mpr habove,
      fun l hl => List.mem_append_left _ (h.inherited l hl),?_⟩
    · exact (Parts.flat_grow b log parts₁).trans ((ht.flat_perm.trans h.flat).append_right _)
    · intro l hl
      rcases List.mem_append.mp hl with hl | hl
      · exact h.small l hl
      · rw [List.mem_singleton.mp hl]
        exact hsize
    · rintro t₂ ⟨⟩ l hl
      rcases List.mem_append.mp hl with hl | hl
      · exact h.guarded_by hm ha.lastMemLog l hl
      · rw [List.mem_singleton.mp hl]
        exact Or.inr ⟨log,ha.lastMemLog,Int64.le_refl _⟩

theorem ReplicaInv.rejected (hsize : logMaxSize < log.data.length) :
    ∃ s' parts', replicaStep segmentMaxBytes ⟨.running t,stored,inherited⟩ (.append log) = .ok s' ∧
      ReplicaInv s' parts' := by
  obtain ⟨hlay⟩ := h.holds
  obtain ⟨b,parts₁,segments,t',ht,ha,-,herr⟩ := hlay.appendLog hm
  obtain ⟨⟨e,hrun⟩,hlay'⟩ := herr hsize
  refine ⟨⟨.running t',stored,inherited⟩,parts₁,?_,?_⟩
  · simp only [replicaStep, hrun, Replica.finish]
  · refine ⟨.running hlay',ht.root h.root,ht.flat_perm.trans h.flat,ht.sub h.sub,h.small,
      h.ascending,h.inherited,?_⟩
    rintro t₂ ⟨⟩
    exact h.guarded_by hm ha.lastMemLog

end Running

theorem ReplicaInv.skipped {t : Topic} {stored inherited : List Log} {log : Log}
    (h : ReplicaInv ⟨.running t,stored,inherited⟩ parts) (hm : t.alreadyAppended log = true) :
    replicaStep segmentMaxBytes ⟨.running t,stored,inherited⟩ (.append log) =
      .ok ⟨.running t,stored,inherited⟩ := by
  obtain ⟨hlay⟩ := h.holds
  obtain ⟨g,ls,hg,-⟩ := hlay.active
  simp only [replicaStep, Topic.appendLog_skip hg hm, Replica.finish, if_true]

theorem ReplicaInv.append {log : Log} (h : ReplicaInv s parts) (segmentMaxBytes : Int)
    (hc : Fresh s (.append log)) :
    ∃ s' parts', replicaStep segmentMaxBytes s (.append log) = .ok s' ∧ ReplicaInv s' parts' := by
  obtain ⟨process,stored,inherited⟩ := s
  cases process with
  | crashed dir => exact ⟨_,parts,rfl,h⟩
  | running t =>
    cases hm : t.alreadyAppended log with
    | true => exact ⟨_,parts,h.skipped hm,h⟩
    | false =>
      rcases Nat.lt_or_ge logMaxSize log.data.length with hbig | hsize
      · exact h.rejected hm hbig
      · obtain ⟨t',parts',hstep,hinv⟩ := h.appended hm segmentMaxBytes hsize
        exact ⟨_,parts',hstep,hinv (h.above hm (hc hm hsize))⟩

theorem ReplicaInv.duplicated {log : Log} {s' : Replica} (h : ReplicaInv s parts)
    (hc : ¬ Fresh s (.append log)) (hstep : replicaStep segmentMaxBytes s (.append log) = .ok s') :
    ¬ StrictlyStored s' := by
  obtain ⟨process,stored,inherited⟩ := s
  cases process with
  | crashed dir => exact absurd trivial hc
  | running t =>
    simp only [Fresh, not_forall] at hc
    obtain ⟨hm,hsize,l,hl,hlt⟩ := hc
    obtain ⟨t',parts',hrun,-⟩ := h.appended hm segmentMaxBytes hsize
    obtain rfl := Outcome.ok.inj (hrun.symm.trans hstep)
    intro hstored
    exact hlt ((ascending_append h.ascending).mp hstored.ascending l (h.inherited l hl))

theorem layout_newTopic {dir : TopicDir} {t : Topic} (h : DirLayout dir parts)
    (hsmall : ∀ e ∈ parts, ∀ l ∈ e.2, l.data.length ≤ logMaxSize)
    (hroot : ∃ ls, Assoc.get 0 parts = some ls) (hnew : newTopic dir segmentMaxBytes = .ok t) :
    Layout t parts ∧ t.lastMemLog = none := by
  obtain ⟨ls,hls⟩ := hroot
  obtain ⟨dir₁,s₁,s',last,files,ho⟩ := newTopic_opened h.names hnew
  obtain ⟨s,dir',hopen,hdir,hbase,-,hidx,-⟩ := h.openSegment 0
  obtain ⟨rfl,rfl⟩ := Prod.mk.inj (Outcome.ok.inj (ho.segment.symm.trans hopen))
  have hparts : parts.opened 0 = parts := by rw [Parts.opened, hls, Option.getD_some, Assoc.put_get hls]
  rw [hparts] at hdir
  obtain ⟨files₁,hget,hlog,-⟩ := hdir.get hls
  have hchecked := ho.checked
  rw [hget, Option.getD_some] at hchecked
  have hkept := Segment.kept_sanityCheck hlog (hsmall _ (Assoc.mem_of_get hls)) hchecked
  have hdir' : Assoc.put 0 files dir₁.logs = dir₁.logs := by
    rw [show files = files₁ from hkept.files_eq, Assoc.put_get hget]
  rw [ho.topic, hdir']
  refine ⟨⟨hdir,?_,s',ls,rfl,?_⟩,rfl⟩
  · intro x hx
    rw [List.mem_singleton.mp hx, show s'.index = s₁.index from hkept.index]
    exact hidx
  · rw [show s'.baseOffset = s₁.baseOffset from hkept.baseOffset, hbase, hls]

theorem ReplicaInv.reopen (h : ReplicaInv s parts) (segmentMaxBytes : Int) :
    ∃ s', replicaStep segmentMaxBytes s .reopen = .ok s' ∧ ReplicaInv s' parts := by
  have hsmall : ∀ e ∈ parts, ∀ l ∈ e.2, l.data.length ≤ logMaxSize :=
    fun e he l hl => h.small l ((h.sub e he).subset hl)
  rw [replicaStep]
  split
  · rename_i t hnew
    obtain ⟨hlay,hmem⟩ := layout_newTopic h.holds.close hsmall h.root hnew
    refine ⟨_,rfl,.running hlay,h.root,h.flat,h.sub,h.small,h.ascending,fun l hl => hl,?_⟩
    exact fun t _ l hl => Or.inl hl
  · refine ⟨_,rfl,.crashed h.holds.close,h.root,h.flat,h.sub,h.small,h.ascending,
      fun l hl => hl,?_⟩
    exact fun t _ l hl => Or.inl hl

end Invariant

def Replica.Sound (s : Replica) : Prop := ∃ parts, ReplicaInv s parts

theorem replayed_log_strictly_increasing_iff (segmentMaxBytes : Int) (steps : List ReplicaStep) :
    Run.Always (replicaStep segmentMaxBytes) StrictlyStored (.initial segmentMaxBytes) steps ↔
      Run.Meets (replicaStep segmentMaxBytes) Fresh (.initial segmentMaxBytes) steps := by
  have hP : ∀ s, Replica.Sound s → StrictlyStored s := by
    rintro s ⟨parts,h⟩
    exact h.strictlyStored
  apply Run.always_iff_meets hP
  · rintro s a ⟨parts,h⟩ hc
    cases a with
    | append log =>
      obtain ⟨s',parts',hstep,hinv⟩ := h.append segmentMaxBytes hc
      exact ⟨s',hstep,parts',hinv⟩
    | reopen =>
      obtain ⟨s',hstep,hinv⟩ := h.reopen segmentMaxBytes
      exact ⟨s',hstep,parts,hinv⟩
  · rintro s a s' ⟨parts,h⟩ hc hstep
    cases a with
    | append log => exact h.duplicated hc hstep
    | reopen => exact absurd trivial hc
  · exact ⟨_,replicaInv_initial segmentMaxBytes⟩

def replayedSteps : List ReplicaStep :=
  [.append ⟨1,1,[7]⟩,.append ⟨2,2,[8]⟩,.reopen,.append ⟨1,1,[7]⟩]

theorem replayed_log_duplicated :
    ¬ Run.Always (replicaStep 4096) StrictlyStored (.initial 4096) replayedSteps := by
  intro h
  have hstored := h.imp fun s hs => hs.ascending
  revert hstored
  decide +kernel

end LiMaoIM.Db

import LiMaoIM.Lim.ConversationSave

namespace LiMaoIM.Lim

open Db (Conversation)

namespace CalcPhase

def notifying : CalcPhase → Option Bytes
  | .needSave _ subscriber _ _ => some subscriber
  | _ => none

def calculating : CalcPhase → Option Bytes
  | .needSave _ subscriber _ _ => some subscriber
  | .add _ subscriber _ _ => some subscriber
  | _ => none

def Readable : CalcPhase → Prop
  | .idle => True
  | .next m subscribers => SavingManager.Readable m subscribers
  | .needSave m _ _ rest => SavingManager.Readable m rest
  | .add m _ _ rest => SavingManager.Readable m rest

theorem notifying_none {phase : CalcPhase} {uid : Bytes} (h : phase.calculating ≠ some uid) :
    phase.notifying ≠ some uid := by
  cases phase with
  | idle => exact h
  | next m subscribers => exact h
  | needSave m subscriber conversation rest => exact h
  | add m subscriber conversation rest =>
    intro hnone
    cases hnone

end CalcPhase

namespace SavePhase

def saving : SavePhase → Option Bytes
  | .read uid _ _ => some uid
  | .stored uid _ => some uid
  | _ => none

def uids : SavePhase → List Bytes
  | .flush uids => uids
  | .read uid _ rest => uid :: rest
  | .stored uid rest => uid :: rest
  | _ => []

theorem mem_uids {phase : SavePhase} {uid : Bytes} (h : phase.saving = some uid) :
    uid ∈ phase.uids := by
  cases phase with
  | top => cases h
  | select => cases h
  | flush uids => cases h
  | read user conversations rest =>
    obtain rfl := Option.some.inj h
    exact List.mem_cons_self
  | stored user rest =>
    obtain rfl := Option.some.inj h
    exact List.mem_cons_self

end SavePhase

variable {opts : ConversationOptions}

structure UserKept (dirty : List Bytes) (phase : CalcPhase) (save : SavePhase) (uid : Bytes)
    (u : UserObjects opts) : Prop where
  sound : u.Sound
  fresh : u.processed = false →
    u.cache.len = 0 ∧ Storable opts.conversationOfUserMaxCount u.stored ∧ uid ∉ dirty
  loaded : u.processed = true → u.cache.len ≠ 0 ∨ phase.calculating = some uid
  saved : u.processed = true → uid ∉ dirty → u.Saved ∨ phase.notifying = some uid
  notified : ∀ m h rest, phase = .needSave m uid h rest → u.processed = true ∧
    (u.cache.peek (m.key uid) = some h ∨ u.New (m.key uid) h)
  added : ∀ m h rest, phase = .add m uid h rest → u.processed = true ∧
    (u.cache.peek (m.key uid) = some h ∨
      u.New (m.key uid) h ∧ uid ∈ dirty ∧ save.saving ≠ some uid)
  read : ∀ conversations rest, save = .read uid conversations rest →
    conversations.Perm u.cache.values
  stored : ∀ rest, save = .stored uid rest → u.Saved ∨ phase.notifying = some uid

namespace UserKept

variable {dirty dirty' : List Bytes} {phase phase' : CalcPhase} {save save' : SavePhase}
  {uid : Bytes} {u u' : UserObjects opts} {m : Message} {h : Nat} {rest : List Bytes}

theorem of_calc (hu : UserKept dirty phase save uid u) (hphase : phase.calculating ≠ some uid)
    (hphase' : phase'.calculating ≠ some uid) : UserKept dirty phase' save uid u := by
  refine ⟨hu.sound,hu.fresh,fun hp => ?_,fun hp hd => ?_,fun m h rest he => ?_,
    fun m h rest he => ?_,hu.read,fun rest he => ?_⟩
  · exact Or.inl ((hu.loaded hp).resolve_right hphase)
  · exact Or.inl ((hu.saved hp hd).resolve_right (CalcPhase.notifying_none hphase))
  · rw [he] at hphase'
    exact absurd rfl hphase'
  · rw [he] at hphase'
    exact absurd rfl hphase'
  · exact Or.inl ((hu.stored rest he).resolve_right (CalcPhase.notifying_none hphase))

theorem of_save (hu : UserKept dirty phase save uid u) (hsave : save'.saving ≠ some uid) :
    UserKept dirty phase save' uid u := by
  refine ⟨hu.sound,hu.fresh,hu.loaded,hu.saved,hu.notified,fun m h rest he => ?_,
    fun conversations rest he => ?_,fun rest he => ?_⟩
  · obtain ⟨hp,hknown | ⟨hnew,hd,-⟩⟩ := hu.added m h rest he
    · exact ⟨hp,Or.inl hknown⟩
    · exact ⟨hp,Or.inr ⟨hnew,hd,hsave⟩⟩
  · rw [he] at hsave
    exact absurd rfl hsave
  · rw [he] at hsave
    exact absurd rfl hsave

theorem of_dirty (hu : UserKept dirty phase save uid u) (hd : uid ∈ dirty' ↔ uid ∈ dirty) :
    UserKept dirty' phase save uid u := by
  refine ⟨hu.sound,fun hp => ?_,hu.loaded,fun hp hd' => ?_,hu.notified,fun m h rest he => ?_,
    hu.read,hu.stored⟩
  · obtain ⟨hlen,hs,hclean⟩ := hu.fresh hp
    exact ⟨hlen,hs,fun hmem => hclean (hd.mp hmem)⟩
  · exact hu.saved hp fun hmem => hd' (hd.mpr hmem)
  · obtain ⟨hp,hknown | ⟨hnew,hmem,hsave⟩⟩ := hu.added m h rest he
    · exact ⟨hp,Or.inl hknown⟩
    · exact ⟨hp,Or.inr ⟨hnew,hd.mpr hmem,hsave⟩⟩

theorem ready (hu : UserKept dirty phase save uid u) (hphase : phase.calculating ≠ some uid) :
    u.Ready :=
  ⟨fun hp => (hu.loaded hp).resolve_right hphase,fun hp => (hu.fresh hp).1,
    fun hp => (hu.fresh hp).2.1⟩

theorem processed_of_dirty (hu : UserKept dirty phase save uid u) (hd : uid ∈ dirty) :
    u.processed = true := by
  cases hp : u.processed with
  | true => rfl
  | false => exact absurd hd (hu.fresh hp).2.2

theorem lookup (hu : UserKept dirty phase save uid u) (hphase : phase.calculating ≠ some uid)
    (hdirty : ∀ uid ∈ save.uids, uid ∈ dirty) {modify : Bool}
    (hl : UserObjects.LookedUp (m.key uid) u u' h modify) :
    UserKept dirty (if modify then .needSave m uid h rest else .add m uid h rest) save uid u' := by
  have hnot := CalcPhase.notifying_none hphase
  have hprocessed : save.saving = some uid → u.processed = true := fun hs =>
    hu.processed_of_dirty (hdirty uid (SavePhase.mem_uids hs))
  refine ⟨hl.sound,fun hp => ?_,fun _ => Or.inr ?_,fun _ hd => ?_,fun m' h' rest' he => ?_,
    fun m' h' rest' he => ?_,fun conversations rest' he => ?_,fun rest' he => ?_⟩
  · rw [hl.processed] at hp
    cases hp
  · cases modify with
    | true => rfl
    | false => rfl
  · cases modify with
    | true => exact Or.inr rfl
    | false => exact Or.inl (hl.saved rfl fun hp => (hu.saved hp hd).resolve_right hnot)
  · cases modify with
    | true =>
      cases he
      rcases hl.found with hknown | ⟨-,hnew⟩
      · exact ⟨hl.processed,Or.inl hknown⟩
      · exact ⟨hl.processed,Or.inr hnew⟩
    | false => cases he
  · cases modify with
    | true => cases he
    | false =>
      cases he
      rcases hl.found with hknown | ⟨hfalse,-⟩
      · exact ⟨hl.processed,Or.inl hknown⟩
      · cases hfalse
  · have hp : u.processed = true := hprocessed (by rw [he]; rfl)
    exact (hu.read conversations rest' he).trans (hl.cache hp).symm
  · cases modify with
    | true => exact Or.inr rfl
    | false => exact Or.inl (hl.saved rfl fun _ => (hu.stored rest' he).resolve_right hnot)

theorem rendezvous (hu : UserKept dirty (.needSave m uid h rest) save uid u) (hd : uid ∈ dirty') :
    UserKept dirty' (.add m uid h rest) .top uid u := by
  obtain ⟨hp,hfound⟩ := hu.notified m h rest rfl
  refine ⟨hu.sound,fun hfalse => ?_,fun _ => Or.inr rfl,fun _ hclean => absurd hd hclean,
    fun m' h' rest' he => ?_,fun m' h' rest' he => ?_,fun conversations rest' he => ?_,
    fun rest' he => ?_⟩
  · rw [hp] at hfalse
    cases hfalse
  · cases he
  · cases he
    refine ⟨hp,hfound.imp_right fun hnew => ⟨hnew,hd,fun hs => ?_⟩⟩
    cases hs
  · cases he
  · cases he

theorem add (hu : UserKept dirty (.add m uid h rest) save uid u)
    (hphase : phase'.calculating = none) : UserKept dirty phase' save uid (u.add (m.key uid) h) := by
  obtain ⟨hp,hfound⟩ := hu.added m h rest rfl
  have hlen : (u.add (m.key uid) h).cache.len ≠ 0 :=
    Lru.len_pos_of_peek (Lru.peek_add_self opts.positive (m.key uid) h u.cache)
  have hsound : (u.add (m.key uid) h).Sound := by
    rcases hfound with hknown | ⟨hnew,-,-⟩
    · exact hu.sound.add_known hknown
    · exact hu.sound.add_new hnew
  have hidle : ∀ phase : CalcPhase, phase.calculating = some uid → phase' ≠ phase := by
    rintro _ hc rfl
    rw [hphase] at hc
    cases hc
  have hnot : (CalcPhase.add m uid h rest).notifying ≠ some uid := by
    intro he
    cases he
  have hsaved : u.cache.peek (m.key uid) = some h → u.Saved → (u.add (m.key uid) h).Saved :=
    fun hknown hs => hs.of_perm rfl ((Lru.values_add_known hknown).map _)
  refine ⟨hsound,fun hfalse => ?_,fun _ => Or.inl hlen,fun _ hd => ?_,fun m' h' rest' he => ?_,
    fun m' h' rest' he => ?_,fun conversations rest' he => ?_,fun rest' he => ?_⟩
  · have hfalse' : u.processed = false := hfalse
    rw [hp] at hfalse'
    cases hfalse'
  · rcases hfound with hknown | ⟨-,hmem,-⟩
    · exact Or.inl (hsaved hknown ((hu.saved hp hd).resolve_right hnot))
    · exact absurd hmem hd
  · exact absurd he (hidle _ rfl)
  · exact absurd he (hidle _ rfl)
  · rcases hfound with hknown | ⟨-,-,hsave⟩
    · exact (hu.read conversations rest' he).trans (Lru.values_add_known hknown).symm
    · rw [he] at hsave
      exact absurd rfl hsave
  · rcases hfound with hknown | ⟨-,-,hsave⟩
    · exact Or.inl (hsaved hknown ((hu.stored rest' he).resolve_right hnot))
    · rw [he] at hsave
      exact absurd rfl hsave

theorem readCache (hu : UserKept dirty phase save uid u)
    (hknown : ∀ m h rest, phase = .add m uid h rest → u.cache.peek (m.key uid) = some h)
    (uids : List Bytes) : UserKept dirty phase (.read uid u.cache.values uids) uid u := by
  refine ⟨hu.sound,hu.fresh,hu.loaded,hu.saved,hu.notified,fun m h rest he => ?_,
    fun conversations rest he => ?_,fun rest he => ?_⟩
  · exact ⟨(hu.added m h rest he).1,Or.inl (hknown m h rest he)⟩
  · cases he
    exact .refl _
  · cases he

theorem store {conversations uids : List _}
    (hu : UserKept dirty phase (.read uid conversations uids) uid u) (hd : uid ∈ dirty) :
    UserKept dirty phase (.stored uid uids) uid (u.store conversations) := by
  have hs : (u.store conversations).Saved :=
    UserObjects.Saved.store hu.sound (hu.read conversations uids rfl)
  refine ⟨⟨hu.sound.key,hu.sound.reread,hu.sound.allocated⟩,fun hp => ?_,hu.loaded,
    fun _ _ => Or.inl hs,fun m h rest he => ?_,fun m h rest he => ?_,fun _ _ he => ?_,
    fun _ _ => Or.inl hs⟩
  · exact absurd hd (hu.fresh hp).2.2
  · obtain ⟨hp,hknown | hnew⟩ := hu.notified m h rest he
    · exact ⟨hp,Or.inl hknown⟩
    · exact ⟨hp,Or.inr ⟨hnew.absent,hnew.key,hnew.reread,hnew.allocated⟩⟩
  · obtain ⟨hp,hknown | ⟨-,-,hsave⟩⟩ := hu.added m h rest he
    · exact ⟨hp,Or.inl hknown⟩
    · exact absurd rfl hsave
  · cases he

theorem clear {uids uids' : List Bytes} (hu : UserKept dirty phase (.stored uid uids) uid u)
    (hd : uid ∉ dirty') : UserKept dirty' phase (.flush uids') uid u := by
  refine ⟨hu.sound,fun hp => ?_,hu.loaded,fun _ _ => hu.stored uids rfl,hu.notified,
    fun m h rest he => ?_,fun _ _ he => ?_,fun _ he => ?_⟩
  · obtain ⟨hlen,hs,-⟩ := hu.fresh hp
    exact ⟨hlen,hs,hd⟩
  · obtain ⟨hp,hknown | ⟨-,-,hsave⟩⟩ := hu.added m h rest he
    · exact ⟨hp,Or.inl hknown⟩
    · exact absurd rfl hsave
  · cases he
  · cases he

end UserKept

namespace SavingManager

variable {s s' : SavingManager opts}

structure Kept (s : SavingManager opts) : Prop where
  users : ∀ uid, UserKept s.needSaveConversationMap s.calcLoop s.saveLoop uid (s.users uid)
  nodup : s.needSaveConversationMap.Nodup
  distinct : s.saveLoop.uids.Nodup
  dirty : ∀ uid ∈ s.saveLoop.uids, uid ∈ s.needSaveConversationMap
  readable : s.calcLoop.Readable

theorem kept_initial (saved : Bytes → SavedConversations opts) : Kept (.initial saved) := by
  refine ⟨fun uid => ⟨⟨fun k h hk => ?_,fun k h hk => ?_,fun k h hk => ?_⟩,fun _ => ?_,fun hp => ?_,
    fun hp => ?_,fun m h rest he => ?_,fun m h rest he => ?_,fun conversations rest he => ?_,
    fun rest he => ?_⟩,List.nodup_nil,List.nodup_nil,fun uid hu => ?_,trivial⟩
  · cases hk
  · cases hk
  · cases hk
  · exact ⟨rfl,(saved uid).storable,List.not_mem_nil⟩
  · cases hp
  · cases hp
  · cases he
  · cases he
  · cases he
  · cases he
  · cases hu

theorem forall_update {P : Bytes → UserObjects opts → Prop} {users : Bytes → UserObjects opts}
    {subscriber : Bytes} {u : UserObjects opts} (hu : P subscriber u)
    (hother : ∀ uid, uid ≠ subscriber → P uid (users uid)) (uid : Bytes) :
    P uid (Function.update users subscriber u uid) := by
  rcases eq_or_ne uid subscriber with rfl | hne
  · rwa [Function.update_self]
  · rw [Function.update_of_ne hne]
    exact hother uid hne

theorem Kept.message {m : Message} {subscribers : List Bytes} (hs : Kept s)
    (hidle : s.calcLoop = .idle) (hm : Readable m subscribers) :
    Kept { s with calcLoop := .next m subscribers } := by
  refine ⟨fun uid => (hs.users uid).of_calc ?_ ?_,hs.nodup,hs.distinct,hs.dirty,hm⟩
  · rw [hidle]
    exact (Option.some_ne_none uid).symm
  · exact (Option.some_ne_none uid).symm

theorem Kept.finish {m : Message} (hs : Kept s) (hnext : s.calcLoop = .next m []) :
    Kept { s with calcLoop := .idle } := by
  refine ⟨fun uid => (hs.users uid).of_calc ?_ ?_,hs.nodup,hs.distinct,hs.dirty,trivial⟩
  · rw [hnext]
    exact (Option.some_ne_none uid).symm
  · exact (Option.some_ne_none uid).symm

theorem Kept.calculate {m : Message} {subscriber : Bytes} {rest : List Bytes} (hs : Kept s)
    (hnext : s.calcLoop = .next m (subscriber :: rest)) (now : Int64) :
    Kept (s.calculate m subscriber rest now) := by
  have hnone : ∀ uid, s.calcLoop.calculating ≠ some uid := by
    intro uid
    rw [hnext]
    exact (Option.some_ne_none uid).symm
  have hreadable : Readable m (subscriber :: rest) := by
    have hr := hs.readable
    rwa [hnext] at hr
  have hready := (hs.users subscriber).ready (hnone subscriber)
  have hl := hready.lookup (hs.users subscriber).sound (hreadable _ List.mem_cons_self) now
  refine ⟨?_,hs.nodup,hs.distinct,hs.dirty,?_⟩
  · refine forall_update ((hs.users subscriber).lookup (hnone subscriber) hs.dirty hl)
      fun uid hne => (hs.users uid).of_calc (hnone uid) ?_
    simp only [SavingManager.calculate]
    split
    · exact fun he => hne (Option.some.inj he).symm
    · exact fun he => hne (Option.some.inj he).symm
  · have hrest : Readable m rest := fun uid hu => hreadable uid (List.mem_cons_of_mem _ hu)
    simp only [SavingManager.calculate]
    split
    · exact hrest
    · exact hrest

theorem receiveNeedSave_mem (uid : Bytes) (s : SavingManager opts) :
    (∀ other, other ∈ (s.receiveNeedSave uid).needSaveConversationMap ↔
      other = uid ∨ other ∈ s.needSaveConversationMap) ∧
    (s.needSaveConversationMap.Nodup → (s.receiveNeedSave uid).needSaveConversationMap.Nodup) ∧
    (s.receiveNeedSave uid).users = s.users := by
  rw [receiveNeedSave]
  split
  · rename_i hmem
    refine ⟨fun other => ⟨Or.inr,?_⟩,id,rfl⟩
    rintro (rfl | hother)
    · exact hmem
    · exact hother
  · rename_i hmem
    exact ⟨fun other => List.mem_cons,fun hn => List.nodup_cons.mpr ⟨hmem,hn⟩,rfl⟩

theorem Kept.rendezvous {m : Message} {subscriber : Bytes} {h : Nat} {rest : List Bytes}
    (hs : Kept s) (hcalc : s.calcLoop = .needSave m subscriber h rest) :
    Kept { s.receiveNeedSave subscriber with
      calcLoop := .add m subscriber h rest
      saveLoop := .top } := by
  obtain ⟨hmem,hnodup,husers⟩ := receiveNeedSave_mem subscriber s
  refine ⟨fun uid => ?_,hnodup hs.nodup,List.nodup_nil,fun uid hu => ?_,?_⟩
  · simp only [husers]
    have huser := hs.users uid
    rw [hcalc] at huser
    rcases eq_or_ne uid subscriber with rfl | hne
    · exact huser.rendezvous ((hmem uid).mpr (Or.inl rfl))
    · have hnot : some subscriber ≠ some uid := fun he => hne (Option.some.inj he).symm
      have hdirty := huser.of_dirty ((hmem uid).trans (or_iff_right hne))
      have hadd : UserKept (s.receiveNeedSave subscriber).needSaveConversationMap
          (.add m subscriber h rest) s.saveLoop uid (s.users uid) := hdirty.of_calc hnot hnot
      exact hadd.of_save (Option.some_ne_none uid).symm
  · cases hu
  · have hr := hs.readable
    rwa [hcalc] at hr

theorem Kept.add {m : Message} {subscriber : Bytes} {h : Nat} {rest : List Bytes} (hs : Kept s)
    (hcalc : s.calcLoop = .add m subscriber h rest) :
    Kept { s.setUser subscriber ((s.users subscriber).add (m.key subscriber) h) with
      calcLoop := .next m rest } := by
  have huser : ∀ uid, UserKept s.needSaveConversationMap (.add m subscriber h rest) s.saveLoop uid
      (s.users uid) := by
    intro uid
    rw [← hcalc]
    exact hs.users uid
  refine ⟨?_,hs.nodup,hs.distinct,hs.dirty,?_⟩
  · refine forall_update ((huser subscriber).add rfl) fun uid hne => (huser uid).of_calc ?_
      (Option.some_ne_none uid).symm
    exact fun he => hne (Option.some.inj he).symm
  · have hr := hs.readable
    rwa [hcalc] at hr

theorem Kept.turn (hs : Kept s) (save : SavePhase) (hsave : save.saving = none)
    (hnodup : save.uids.Nodup) (hdirty : ∀ uid ∈ save.uids, uid ∈ s.needSaveConversationMap)
    (needSync : Bool) (noSaveCount : Nat) :
    Kept { s with needSync := needSync, noSaveCount := noSaveCount, saveLoop := save } := by
  refine ⟨fun uid => (hs.users uid).of_save ?_,hs.nodup,hnodup,hdirty,hs.readable⟩
  rw [hsave]
  exact (Option.some_ne_none uid).symm

theorem Kept.readCache {uid : Bytes} {rest : List Bytes} (hs : Kept s)
    (hflush : s.saveLoop = .flush (uid :: rest))
    (hknown : ∀ m h rest, s.calcLoop = .add m uid h rest →
      (s.users uid).cache.peek (m.key uid) = some h) :
    Kept { s.setUser uid (s.users uid) with
      saveLoop := .read uid (s.users uid).cache.values rest } := by
  have hdistinct := hs.distinct
  have hdirty := hs.dirty
  rw [hflush] at hdistinct hdirty
  refine ⟨?_,hs.nodup,hdistinct,hdirty,hs.readable⟩
  refine forall_update ((hs.users uid).readCache hknown rest) fun other hne =>
    (hs.users other).of_save ?_
  exact fun he => hne (Option.some.inj he).symm

theorem Kept.store {uid : Bytes} {conversations : List Nat} {rest : List Bytes} (hs : Kept s)
    (hread : s.saveLoop = .read uid conversations rest) :
    Kept { s.setUser uid ((s.users uid).store conversations) with
      saveLoop := .stored uid rest } := by
  have hdistinct := hs.distinct
  have hdirty := hs.dirty
  rw [hread] at hdistinct hdirty
  refine ⟨?_,hs.nodup,hdistinct,hdirty,hs.readable⟩
  have huser := hs.users uid
  rw [hread] at huser
  refine forall_update (huser.store (hdirty uid List.mem_cons_self)) fun other hne =>
    (hs.users other).of_save ?_
  exact fun he => hne (Option.some.inj he).symm

theorem Kept.clear {uid : Bytes} {rest : List Bytes} (hs : Kept s)
    (hstored : s.saveLoop = .stored uid rest) :
    Kept { s with
      needSaveConversationMap := s.needSaveConversationMap.erase uid
      saveLoop := .flush rest } := by
  have hdistinct := hs.distinct
  have hdirty := hs.dirty
  rw [hstored] at hdistinct hdirty
  obtain ⟨hnot,hrest⟩ := List.nodup_cons.mp hdistinct
  refine ⟨fun other => ?_,hs.nodup.erase uid,hrest,fun other hmem => ?_,hs.readable⟩
  · have huser := hs.users other
    rw [hstored] at huser
    rcases eq_or_ne other uid with rfl | hne
    · exact huser.clear hs.nodup.not_mem_erase
    · exact (huser.of_dirty (List.mem_erase_of_ne hne)).of_save
        (Option.some_ne_none other).symm
  · have hne : other ≠ uid := by
      rintro rfl
      exact hnot hmem
    exact (List.mem_erase_of_ne hne).mpr (hdirty other (List.mem_cons_of_mem _ hmem))

theorem Kept.saveloop {conversationSyncOnce : Nat} {uids : List Bytes} (hs : Kept s)
    (hc : InOrder s (.save uids)) (hstep : s.saveloop conversationSyncOnce uids = .ok s') :
    Kept s' := by
  rw [SavingManager.saveloop] at hstep
  cases hphase : s.saveLoop with
  | top =>
    simp only [hphase] at hstep
    split at hstep
    · split at hstep
      · rename_i hperm
        obtain rfl := Outcome.ok.inj hstep
        exact hs.turn (.flush uids) rfl (hperm.nodup_iff.mpr hs.nodup)
          (fun uid hu => hperm.mem_iff.mp hu) _ _
      · cases hstep
    · obtain rfl := Outcome.ok.inj hstep
      exact hs.turn .select rfl List.nodup_nil (fun uid hu => absurd hu List.not_mem_nil) _ _
  | select =>
    simp only [hphase] at hstep
    cases hstep
  | flush todo =>
    cases todo with
    | nil =>
      simp only [hphase] at hstep
      obtain rfl := Outcome.ok.inj hstep
      exact hs.turn .select rfl List.nodup_nil (fun uid hu => absurd hu List.not_mem_nil) _ _
    | cons uid rest =>
      simp only [hphase, UserObjects.readCache_eq] at hstep
      obtain rfl := Outcome.ok.inj hstep
      refine hs.readCache hphase fun m h rest' he => ?_
      have hreading : uid ∈ s.saveLoop.reading := by
        rw [hphase]
        rfl
      have hadding : (m,uid,h) ∈ s.calcLoop.adding := by
        rw [he]
        rfl
      exact hc uid hreading (m,uid,h) hadding rfl
  | read uid conversations rest =>
    simp only [hphase] at hstep
    obtain rfl := Outcome.ok.inj hstep
    exact hs.store hphase
  | stored uid rest =>
    simp only [hphase] at hstep
    obtain rfl := Outcome.ok.inj hstep
    exact hs.clear hphase

theorem Kept.step {conversationSyncOnce : Nat} {e : SavingEvent} (hs : Kept s) (hc : InOrder s e)
    (hstep : s.step conversationSyncOnce e = .ok s') : Kept s' := by
  cases e with
  | message m subscribers =>
    rw [SavingManager.step] at hstep
    split at hstep
    · rename_i hidle
      obtain rfl := Outcome.ok.inj hstep
      split
      · exact hs.message hidle hc
      · exact hs
    · cases hstep
  | calculate now =>
    rw [SavingManager.step] at hstep
    split at hstep
    · rename_i m hnext
      obtain rfl := Outcome.ok.inj hstep
      exact hs.finish hnext
    · rename_i m subscriber rest hnext
      obtain rfl := Outcome.ok.inj hstep
      exact hs.calculate hnext now
    · cases hstep
  | rendezvous =>
    rw [SavingManager.step] at hstep
    split at hstep
    · rename_i m subscriber conversation rest hcalc hselect
      obtain rfl := Outcome.ok.inj hstep
      exact hs.rendezvous hcalc
    · cases hstep
  | add =>
    rw [SavingManager.step] at hstep
    split at hstep
    · rename_i m subscriber conversation rest hcalc
      obtain rfl := Outcome.ok.inj hstep
      exact hs.add hcalc
    · cases hstep
  | tick =>
    rw [SavingManager.step] at hstep
    split at hstep
    · obtain rfl := Outcome.ok.inj hstep
      exact hs.turn .top rfl List.nodup_nil (fun uid hu => absurd hu List.not_mem_nil) _ _
    · cases hstep
  | save uids => exact hs.saveloop hc hstep

theorem Kept.saved (hs : Kept s) : CleanUsersSaved s := by
  rw [CleanUsersSaved]
  split
  · rename_i hidle
    intro uid hp hclean
    refine ((hs.users uid).saved hp hclean).resolve_right ?_
    rw [hidle]
    exact (Option.some_ne_none uid).symm
  · trivial

end SavingManager

theorem clean_users_saved (conversationSyncOnce : Nat) (saved : Bytes → SavedConversations opts)
    (events : List SavingEvent) (s : SavingManager opts)
    (hrun : Run.run (SavingManager.step conversationSyncOnce) (.initial saved) events = .ok s)
    (hc : Run.Meets (SavingManager.step conversationSyncOnce) SavingManager.InOrder (.initial saved)
      events) :
    s.CleanUsersSaved :=
  (Run.run_meets_keeps (fun _ _ _ hs hc hstep => hs.step hc hstep)
    (SavingManager.kept_initial saved) hc hrun).saved

def nothingSaved : SavedConversations hundredConversations where
  conversations := []
  storable := ⟨List.nodup_nil,Nat.zero_le _,fun _ hc => absurd hc List.not_mem_nil⟩

def notified : List SavingEvent :=
  [.save [],.message (groupMessage [0x61] [0x67] 1) [[0x75]],.calculate 0,.rendezvous]

def flushed : List SavingEvent := [.save [[0x75]],.save [],.save [],.save []]

theorem clean_user_saved : ∃ s, Run.run (SavingManager.step 1) (.initial fun _ => nothingSaved)
    (notified ++ [.add,.calculate 0] ++ flushed) = .ok s ∧ s.CleanUsersSaved ∧
      (s.users [0x75]).stored.length = 1 ∧ [0x75] ∉ s.needSaveConversationMap := by
  refine ⟨_,rfl,clean_users_saved 1 (fun _ => nothingSaved)
    (notified ++ [.add,.calculate 0] ++ flushed) _ rfl ?_,?_,?_⟩
  · decide +kernel
  · decide +kernel
  · decide +kernel

theorem new_conversation_unsaved : ∃ s, Run.run (SavingManager.step 1)
    (.initial fun _ => nothingSaved) (notified ++ flushed ++ [.add,.calculate 0]) = .ok s ∧
      ¬ s.CleanUsersSaved := by
  refine ⟨_,rfl,fun h => ?_⟩
  have hsaved := h [0x75] rfl (by decide +kernel)
  revert hsaved
  decide +kernel

end LiMaoIM.Lim

import LiMaoIM.Foundation.Decimal
import LiMaoIM.Foundation.Run
import LiMaoIM.Foundation.Space
import LiMaoIM.Proto.Packets

namespace LiMaoIM.Lim

open Outcome Proto

inductive NotifyPoint where
  | returned
  | choose
  | marshal
  | post (batch : List Bytes)
  | drop
deriving DecidableEq

structure OnlineStatusWebhook where
  statusList : List Bytes
  opLen : Nat
  point : NotifyPoint
  events : List Bytes
  attempts : List (List Bytes × Bool)
  notified : List (List Bytes)
deriving DecidableEq

inductive WebhookAnswer where
  | jsonError
  | postError
  | status (code : Int)
deriving DecidableEq

inductive WebhookStep where
  | online (uid : Bytes) (deviceFlag : DeviceFlag)
  | offline (uid : Bytes) (deviceFlag : DeviceFlag)
  | notify (answer : WebhookAnswer)

def statusEntry (uid : Bytes) (deviceFlag : DeviceFlag) (status : Nat) : Bytes :=
  uid ++ Bytes.minus :: (Bytes.decimal deviceFlag.toNat ++ Bytes.minus :: Bytes.decimal status)

namespace OnlineStatusWebhook

def newOnlineStatusWebhook (webhook : Bytes) : OnlineStatusWebhook where
  statusList := []
  opLen := 0
  point := if Bytes.isBlank webhook then .returned else .choose
  events := []
  attempts := []
  notified := []

def append (w : OnlineStatusWebhook) (entry : Bytes) : OnlineStatusWebhook :=
  { w with statusList := w.statusList ++ [entry], events := w.events ++ [entry] }

def online (w : OnlineStatusWebhook) (uid : Bytes) (deviceFlag : DeviceFlag) :
    OnlineStatusWebhook :=
  w.append (statusEntry uid deviceFlag 1)

def offline (w : OnlineStatusWebhook) (uid : Bytes) (deviceFlag : DeviceFlag) :
    OnlineStatusWebhook :=
  w.append (statusEntry uid deviceFlag 0)

def opBatch (w : OnlineStatusWebhook) : Outcome (List Bytes) :=
  if w.opLen ≤ w.statusList.length then .ok (w.statusList.take w.opLen)
  else .panic "runtime error: slice bounds out of range"

def loopNotify (w : OnlineStatusWebhook) (answer : WebhookAnswer) : Outcome OnlineStatusWebhook :=
  match w.point with
  | .returned => .ok w
  | .choose =>
      let opLen := if w.opLen = 0 then w.statusList.length else w.opLen
      .ok { w with opLen := opLen, point := if opLen = 0 then .choose else .marshal }
  | .marshal => do
      let batch ← w.opBatch
      pure { w with point := if answer = .jsonError then .choose else .post batch }
  | .post batch =>
      let success := decide (answer = .status 200)
      .ok { w with
        attempts := w.attempts ++ [(batch,success)]
        point := if success then .drop else .choose }
  | .drop => do
      let batch ← w.opBatch
      pure { w with
        statusList := w.statusList.drop w.opLen
        opLen := 0
        point := .choose
        notified := w.notified ++ [batch] }

def step (w : OnlineStatusWebhook) : WebhookStep → Outcome OnlineStatusWebhook
  | .online uid deviceFlag => .ok (w.online uid deviceFlag)
  | .offline uid deviceFlag => .ok (w.offline uid deviceFlag)
  | .notify answer => w.loopNotify answer

def posted (w : OnlineStatusWebhook) : List (List Bytes) :=
  (w.attempts.filter (·.2)).map (·.1)

def answered (w : OnlineStatusWebhook) : Nat := if w.point = .drop then w.opLen else 0

structure Delivers (w : OnlineStatusWebhook) : Prop where
  delivered : w.notified.flatten ++ w.statusList = w.events
  posted_once : w.posted.flatten ++ w.statusList.drop w.answered = w.events
  retried : w.attempts.IsChain fun failed next => failed.2 = false → next.1 = failed.1
  kept : ∀ batch, w.attempts.getLast? = some (batch,false) → w.statusList.take w.opLen = batch

def AtPoint (w : OnlineStatusWebhook) : NotifyPoint → Prop
  | .returned | .choose => w.posted = w.notified
  | .marshal => w.posted = w.notified ∧ 0 < w.opLen
  | .post batch => w.posted = w.notified ∧ 0 < w.opLen ∧ batch = w.statusList.take w.opLen
  | .drop => w.posted = w.notified ++ [w.statusList.take w.opLen] ∧
      w.attempts.getLast? = some (w.statusList.take w.opLen,true)

structure Consistent (w : OnlineStatusWebhook) : Prop where
  delivered : w.notified.flatten ++ w.statusList = w.events
  within : w.opLen ≤ w.statusList.length
  retried : w.attempts.IsChain fun failed next => failed.2 = false → next.1 = failed.1
  kept : ∀ batch, w.attempts.getLast? = some (batch,false) →
    w.statusList.take w.opLen = batch ∧ 0 < w.opLen
  atPoint : w.AtPoint w.point

variable {w : OnlineStatusWebhook}

theorem Consistent.opBatch (h : w.Consistent) : w.opBatch = .ok (w.statusList.take w.opLen) :=
  if_pos h.within

theorem Consistent.delivers (h : w.Consistent) : w.Delivers := by
  refine ⟨h.delivered,?_,h.retried,fun batch hb => (h.kept batch hb).1⟩
  have hpoint := h.atPoint
  rw [answered]
  cases hw : w.point with
  | drop =>
      rw [hw] at hpoint
      rw [if_pos rfl, hpoint.1, List.flatten_append, List.flatten_singleton, List.append_assoc,
        List.take_append_drop]
      exact h.delivered
  | returned | choose =>
      rw [hw] at hpoint
      rw [if_neg NotifyPoint.noConfusion, List.drop_zero, show w.posted = w.notified from hpoint]
      exact h.delivered
  | marshal | post batch =>
      rw [hw] at hpoint
      rw [if_neg NotifyPoint.noConfusion, List.drop_zero, hpoint.1]
      exact h.delivered

theorem newOnlineStatusWebhook_consistent (webhook : Bytes) :
    (newOnlineStatusWebhook webhook).Consistent where
  delivered := rfl
  within := Nat.le_refl 0
  retried := .nil
  kept _ hb := absurd hb (Option.some_ne_none _).symm
  atPoint := by
    rw [newOnlineStatusWebhook]
    split
    · rfl
    · rfl

theorem take_append (h : w.opLen ≤ w.statusList.length) (entry : Bytes) :
    (w.append entry).statusList.take (w.append entry).opLen = w.statusList.take w.opLen :=
  List.take_append_of_le_length h

theorem AtPoint.append {p : NotifyPoint} (h : w.AtPoint p) (hle : w.opLen ≤ w.statusList.length)
    (entry : Bytes) : (w.append entry).AtPoint p := by
  have htake := take_append hle entry
  cases p with
  | returned | choose | marshal => exact h
  | post batch => exact ⟨h.1,h.2.1,h.2.2.trans htake.symm⟩
  | drop => exact ⟨by rw [htake]; exact h.1,by rw [htake]; exact h.2⟩

theorem Consistent.append (h : w.Consistent) (entry : Bytes) : (w.append entry).Consistent where
  delivered := by rw [OnlineStatusWebhook.append, ← List.append_assoc, h.delivered]
  within := by
    rw [OnlineStatusWebhook.append, List.length_append]
    exact h.within.trans (Nat.le_add_right _ _)
  retried := h.retried
  kept batch hb := by
    rw [take_append h.within]
    exact h.kept batch hb
  atPoint := h.atPoint.append h.within entry

theorem Consistent.choose (h : w.Consistent) (hw : w.point = .choose) (answer : WebhookAnswer) :
    ∃ w', w.loopNotify answer = .ok w' ∧ w'.Consistent := by
  have hpoint := h.atPoint
  rw [hw] at hpoint
  rw [loopNotify, hw]
  dsimp only
  by_cases hzero : w.opLen = 0
  · have hkept (batch : List Bytes) (hb : w.attempts.getLast? = some (batch,false)) :
        w.statusList.take w.statusList.length = batch ∧ 0 < w.statusList.length :=
      absurd (h.kept batch hb).2 (by omega)
    rw [if_pos hzero]
    by_cases hlen : w.statusList.length = 0
    · rw [if_pos hlen]
      exact ⟨_,rfl,h.delivered,le_rfl,h.retried,hkept,hpoint⟩
    · rw [if_neg hlen]
      exact ⟨_,rfl,h.delivered,le_rfl,h.retried,hkept,hpoint,Nat.pos_of_ne_zero hlen⟩
  · rw [if_neg hzero, if_neg hzero]
    exact ⟨_,rfl,h.delivered,h.within,h.retried,h.kept,hpoint,Nat.pos_of_ne_zero hzero⟩

theorem Consistent.marshal (h : w.Consistent) (hw : w.point = .marshal) (answer : WebhookAnswer) :
    ∃ w', w.loopNotify answer = .ok w' ∧ w'.Consistent := by
  have hpoint := h.atPoint
  rw [hw] at hpoint
  rw [loopNotify, hw]
  dsimp only
  rw [h.opBatch, ok_bind]
  refine ⟨_,rfl,h.delivered,h.within,h.retried,h.kept,?_⟩
  dsimp only
  split
  · exact hpoint.1
  · exact ⟨hpoint.1,hpoint.2,rfl⟩

theorem retried_append {attempts : List (List Bytes × Bool)} {batch : List Bytes} {success : Bool}
    (h : attempts.IsChain fun failed next => failed.2 = false → next.1 = failed.1)
    (hkept : ∀ b, attempts.getLast? = some (b,false) → batch = b) :
    (attempts ++ [(batch,success)]).IsChain fun failed next =>
      failed.2 = false → next.1 = failed.1 := by
  refine h.append (.singleton _) ?_
  rintro ⟨b,answered⟩ hlast next hnext hfailed
  obtain rfl : (batch,success) = next := Option.some.inj hnext
  exact hkept b (hlast.trans (congrArg (fun x => some (b,x)) hfailed))

theorem Consistent.post {batch : List Bytes} (h : w.Consistent) (hw : w.point = .post batch)
    (answer : WebhookAnswer) : ∃ w', w.loopNotify answer = .ok w' ∧ w'.Consistent := by
  have hpoint := h.atPoint
  rw [hw] at hpoint
  obtain ⟨hposted,hpos,rfl⟩ := hpoint
  rw [loopNotify, hw]
  refine ⟨_,rfl,h.delivered,h.within,?_,fun b hb => ?_,?_⟩
  · exact retried_append h.retried fun b hb => (h.kept b hb).1
  · rw [List.getLast?_concat] at hb
    exact ⟨(Prod.mk.inj (Option.some.inj hb)).1,hpos⟩
  · dsimp only
    split
    · rename_i hsuccess
      refine ⟨?_,?_⟩
      · rw [posted, List.filter_append, List.map_append, hsuccess]
        exact congrArg (· ++ _) hposted
      · rw [List.getLast?_concat, hsuccess]
    · rename_i hfailed
      rw [AtPoint, posted, List.filter_append, List.map_append,
        Bool.eq_false_of_not_eq_true hfailed]
      exact (List.append_nil _).trans hposted

theorem Consistent.drop (h : w.Consistent) (hw : w.point = .drop) (answer : WebhookAnswer) :
    ∃ w', w.loopNotify answer = .ok w' ∧ w'.Consistent := by
  have hpoint := h.atPoint
  rw [hw] at hpoint
  obtain ⟨hposted,hlast⟩ := hpoint
  rw [loopNotify, hw]
  dsimp only
  rw [h.opBatch, ok_bind]
  refine ⟨_,rfl,?_,Nat.zero_le _,h.retried,fun b hb => ?_,hposted⟩
  · rw [List.flatten_append, List.flatten_singleton, List.append_assoc, List.take_append_drop]
    exact h.delivered
  · rw [hlast] at hb
    cases hb

theorem Consistent.step (h : w.Consistent) (a : WebhookStep) :
    ∃ w', w.step a = .ok w' ∧ w'.Consistent := by
  cases a with
  | online uid deviceFlag | offline uid deviceFlag => exact ⟨_,rfl,h.append _⟩
  | notify answer =>
      rw [OnlineStatusWebhook.step]
      cases hw : w.point with
      | returned => exact ⟨w,by rw [loopNotify, hw],h⟩
      | choose => exact h.choose hw answer
      | marshal => exact h.marshal hw answer
      | post batch => exact h.post hw answer
      | drop => exact h.drop hw answer

theorem notifications_delivered_in_order (webhook : Bytes) (steps : List WebhookStep) :
    Run.Always step Delivers (newOnlineStatusWebhook webhook) steps :=
  (Run.always_of_step (fun _ a h => h.step a) (newOnlineStatusWebhook_consistent webhook)).imp
    fun _ h => h.delivers

example :
    let a := Bytes.ofString "a"
    let b := Bytes.ofString "b"
    (Run.run step (newOnlineStatusWebhook [1])
      [.online a 0,.notify (.status 0),.notify (.status 0),.notify .postError,.offline b 1,
        .notify (.status 0),.notify (.status 0),.notify (.status 200),.notify (.status 0)]).All
      fun w => w.notified = [[Bytes.ofString "a-0-1"]] ∧
        w.statusList = [Bytes.ofString "b-1-0"] := by
  decide

end OnlineStatusWebhook

end LiMaoIM.Lim

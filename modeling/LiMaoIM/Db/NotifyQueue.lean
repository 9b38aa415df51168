import LiMaoIM.Db.Message
import LiMaoIM.Foundation.Outbox
import LiMaoIM.Foundation.Utf8

namespace LiMaoIM.Db

def Message.throughJSON (m : Message) : Message :=
  { m with
    clientMsgNo := Utf8.toValid m.clientMsgNo
    fromUID := Utf8.toValid m.fromUID
    queueUID := Utf8.toValid m.queueUID
    channelID := Utf8.toValid m.channelID }

structure NotifyQueue where
  sequence : UInt64
  bucket : List (UInt64 × Message)

abbrev NotifyCommand := Outbox.Command Message Int64

def NotifyCommand.throughJSON : NotifyCommand → NotifyCommand
  | .append m => .append m.throughJSON
  | .remove messageIDs => .remove messageIDs

theorem accepted_throughJSON (log : List NotifyCommand) :
    Outbox.accepted (log.map NotifyCommand.throughJSON) =
      (Outbox.accepted log).map Message.throughJSON := by
  induction log with
  | nil => rfl
  | cons c log ih =>
    cases c with
    | append m => simp [NotifyCommand.throughJSON,Outbox.accepted,ih]
    | remove messageIDs => simp [NotifyCommand.throughJSON,Outbox.accepted,ih]

namespace NotifyQueue

def empty : NotifyQueue := ⟨0,[]⟩

def put (key : UInt64) (m : Message) : List (UInt64 × Message) → List (UInt64 × Message)
  | [] => [(key,m)]
  | e :: bucket =>
      if key < e.1 then (key,m) :: e :: bucket
      else if key = e.1 then (key,m) :: bucket
      else e :: put key m bucket

def appendMessageOfNotifyQueue (m : Message) (q : NotifyQueue) : NotifyQueue :=
  { sequence := q.sequence + 1, bucket := put (q.sequence + 1) m.throughJSON q.bucket }

def readLoop (count : Int) : Int → List (UInt64 × Message) → List Message
  | _, [] => []
  | i, e :: bucket => if count - 1 < i then [] else e.2 :: readLoop count (i + 1) bucket

def getMessagesOfNotifyQueue (count : Int) (q : NotifyQueue) : List Message :=
  readLoop count 0 q.bucket

def removeMessagesOfNotifyQueue (messageIDs : List Int64) (q : NotifyQueue) : NotifyQueue :=
  if messageIDs.length = 0 then q
  else { q with bucket := q.bucket.filter fun e => e.2.messageID ∉ messageIDs }

def apply (q : NotifyQueue) : NotifyCommand → NotifyQueue
  | .append m => q.appendMessageOfNotifyQueue m
  | .remove messageIDs => q.removeMessagesOfNotifyQueue messageIDs

def replay (log : List NotifyCommand) : NotifyQueue := log.foldl apply empty

def messages (q : NotifyQueue) : List Message := q.bucket.map Prod.snd

theorem readLoop_eq (count i : Int) (bucket : List (UInt64 × Message)) :
    readLoop count i bucket = (bucket.map Prod.snd).take (count - i).toNat := by
  induction bucket generalizing i with
  | nil => simp [readLoop]
  | cons e bucket ih =>
    rw [readLoop]
    split
    · have hzero : (count - i).toNat = 0 := by omega
      simp [hzero]
    · have hsucc : (count - i).toNat = (count - (i + 1)).toNat + 1 := by omega
      simp [hsucc,ih]

theorem getMessagesOfNotifyQueue_eq (count : Int) (q : NotifyQueue) :
    q.getMessagesOfNotifyQueue count = q.messages.take count.toNat := by
  simp [getMessagesOfNotifyQueue,readLoop_eq,messages]

theorem put_last {key : UInt64} {m : Message} {bucket : List (UInt64 × Message)}
    (h : ∀ e ∈ bucket, e.1 < key) : put key m bucket = bucket ++ [(key,m)] := by
  induction bucket with
  | nil => rfl
  | cons e bucket ih =>
    have hlt : e.1 < key := h e List.mem_cons_self
    rw [put,if_neg (UInt64.lt_asymm hlt),if_neg (UInt64.ne_of_lt hlt).symm,
      ih fun x hx => h x (List.mem_cons_of_mem _ hx)]
    rfl

@[simp] theorem replay_append (log : List NotifyCommand) (c : NotifyCommand) :
    replay (log ++ [c]) = (replay log).apply c := by
  simp [replay]

structure Sequenced (q : NotifyQueue) (n : Nat) : Prop where
  sequence : q.sequence.toNat = n
  keys : ∀ e ∈ q.bucket, e.1 ≤ q.sequence

theorem sequenced_empty : Sequenced empty 0 := ⟨rfl,fun _ he => absurd he List.not_mem_nil⟩

theorem Sequenced.append {q : NotifyQueue} {n : Nat} (h : Sequenced q n) (hroom : n + 1 < 2 ^ 64)
    (m : Message) : (q.appendMessageOfNotifyQueue m).messages = q.messages ++ [m.throughJSON] ∧
      Sequenced (q.appendMessageOfNotifyQueue m) (n + 1) := by
  have hseq := h.sequence
  have hnext : (q.sequence + 1).toNat = n + 1 := by
    rw [UInt64.toNat_add,hseq]
    exact Nat.mod_eq_of_lt hroom
  have hbelow : ∀ e ∈ q.bucket, e.1 < q.sequence + 1 := by
    intro e he
    have hle := UInt64.le_iff_toNat_le.mp (h.keys e he)
    exact UInt64.lt_iff_toNat_lt.mpr (by omega)
  have hput := put_last (m := m.throughJSON) hbelow
  refine ⟨?_,hnext,fun e he => ?_⟩
  · simp [messages,appendMessageOfNotifyQueue,hput]
  · rw [appendMessageOfNotifyQueue] at he
    simp only [hput] at he
    rcases List.mem_append.mp he with hmem | hnew
    · exact UInt64.le_of_lt (hbelow e hmem)
    · obtain rfl := List.mem_singleton.mp hnew
      exact UInt64.le_refl _

theorem Sequenced.remove {q : NotifyQueue} {n : Nat} (h : Sequenced q n) (messageIDs : List Int64) :
    (q.removeMessagesOfNotifyQueue messageIDs).messages =
        q.messages.filter (·.messageID ∉ messageIDs) ∧
      Sequenced (q.removeMessagesOfNotifyQueue messageIDs) n := by
  rw [removeMessagesOfNotifyQueue]
  split
  · rename_i hempty
    have hnil : messageIDs = [] := List.length_eq_zero_iff.mp hempty
    exact ⟨by simp [hnil],h⟩
  · refine ⟨?_,h.sequence,fun e he => h.keys e (List.mem_of_mem_filter he)⟩
    simp only [messages,List.filter_map]
    rfl

theorem messages_replay {log : List NotifyCommand}
    (hbound : (Outbox.accepted log).length < 2 ^ 64) :
    (replay log).messages = Outbox.replay Message.messageID (log.map NotifyCommand.throughJSON) ∧
      Sequenced (replay log) (Outbox.accepted log).length := by
  induction log using List.reverseRecOn with
  | nil => exact ⟨rfl,sequenced_empty⟩
  | append_singleton log c ih =>
    cases c with
    | append m =>
      have hroom : (Outbox.accepted log).length + 1 < 2 ^ 64 := by
        simpa [Outbox.accepted] using hbound
      obtain ⟨hmessages,hseq⟩ := ih (by omega)
      obtain ⟨hnext,hseq'⟩ := hseq.append hroom m
      constructor
      · simp [apply,hnext,hmessages,NotifyCommand.throughJSON,Outbox.Command.run]
      · simpa [apply,Outbox.accepted] using hseq'
    | remove messageIDs =>
      obtain ⟨hmessages,hseq⟩ := ih (by simpa [Outbox.accepted] using hbound)
      obtain ⟨hnext,hseq'⟩ := hseq.remove messageIDs
      constructor
      · simp [apply,hnext,hmessages,NotifyCommand.throughJSON,Outbox.Command.run]
      · simpa [apply,Outbox.accepted] using hseq'

end NotifyQueue

end LiMaoIM.Db

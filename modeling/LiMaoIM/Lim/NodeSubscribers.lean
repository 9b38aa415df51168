import LiMaoIM.Foundation.Grouping
import LiMaoIM.Lim.Forwarding
import LiMaoIM.Lim.NodeInFlightPqueue
import LiMaoIM.Lim.Send

namespace LiMaoIM.Lim

open Grouping Proto

structure Node where
  nodeID : Int32
  nodeRaftAddr : String
  nodeAPIAddr : String
  nodeRPCAddr : String
  tcpAddr : String
  wsAddr : String
  join : Bool
deriving DecidableEq

structure NodeSubscribers where
  node : Node
  subscribers : List Bytes
deriving DecidableEq

namespace NodeSubscribers

def nodeID (n : NodeSubscribers) : Int32 := n.node.nodeID

def append (subscriber : Bytes) (n : NodeSubscribers) : NodeSubscribers :=
  { n with subscribers := n.subscribers ++ [subscriber] }

end NodeSubscribers

structure Cluster where
  nodeID : Int32
  getNode : Bytes → Node

namespace Cluster

def nodeOf (c : Cluster) (subscriber : Bytes) : Int32 := (c.getNode subscriber).nodeID

def placeSubscriber (c : Cluster)
    (nodes : Option NodeSubscribers × List NodeSubscribers) (subscriber : Bytes) :
    Option NodeSubscribers × List NodeSubscribers :=
  let nodeConfig := c.getNode subscriber
  if nodeConfig.nodeID = c.nodeID then
    match nodes.1 with
    | none => (some ⟨nodeConfig,[subscriber]⟩,nodes.2)
    | some localNode => (some (localNode.append subscriber),nodes.2)
  else
    (nodes.1,upsert NodeSubscribers.nodeID nodeConfig.nodeID (NodeSubscribers.append subscriber)
      ⟨nodeConfig,[subscriber]⟩ nodes.2)

def calNodeSubscribers (c : Cluster) (subscribers : List Bytes) :
    Option NodeSubscribers × List NodeSubscribers :=
  subscribers.foldl c.placeSubscriber (none,[])

def forwardData (uuid : Nat → Bytes) (m : Message) (recvPacketData : Bytes) :
    NodeSubscribers × Nat → NodeInFlightDataModel
  | (n,i) => ⟨uuid (2 * i + 1),n.node.nodeID,
      ⟨uuid (2 * i),n.subscribers,recvPacketData,Int32.ofNat m.fromDeviceFlag.toNat⟩⟩

def putMessage (c : Cluster) (uuid : Nat → Bytes) (ch : Channel) (m : Message) :
    List NodeInFlightDataModel × Option (List Bytes) :=
  let nodes := c.calNodeSubscribers (ch.recipients m.subscribers)
  let recvPacketData := encodePacket (.recv m.recvPacket) latestVersion
  (nodes.2.zipIdx.map (forwardData uuid m recvPacketData),
    match nodes.1 with
    | some selfNode => if 0 < selfNode.subscribers.length then some selfNode.subscribers else none
    | none => none)

structure Partitioned (c : Cluster) (subscribers : List Bytes)
    (nodes : Option NodeSubscribers × List NodeSubscribers) : Prop where
  groups : Groups NodeSubscribers.nodeID NodeSubscribers.subscribers c.nodeOf subscribers
    (nodes.1.toList ++ nodes.2)
  here : ∀ n ∈ nodes.1, n.nodeID = c.nodeID
  elsewhere : ∀ n ∈ nodes.2, n.nodeID ≠ c.nodeID

theorem Partitioned.placeSubscriber {c : Cluster} {subscribers : List Bytes}
    {nodes : Option NodeSubscribers × List NodeSubscribers} (h : c.Partitioned subscribers nodes)
    (subscriber : Bytes) :
    c.Partitioned (subscribers ++ [subscriber]) (c.placeSubscriber nodes subscriber) := by
  obtain ⟨localNode,others⟩ := nodes
  have hgroups := h.groups.upsert (a := subscriber) (NodeSubscribers.append subscriber)
    ⟨c.getNode subscriber,[subscriber]⟩ (fun _ => rfl) (fun _ => rfl) rfl rfl
  rw [Cluster.placeSubscriber]
  by_cases hnode : (c.getNode subscriber).nodeID = c.nodeID
  · rw [if_pos hnode]
    cases localNode with
    | none =>
        have hnew := h.groups.append (a := subscriber)
          (fun n hn heq => h.elsewhere n hn (heq.trans hnode))
          (show NodeSubscribers.nodeID ⟨c.getNode subscriber,[subscriber]⟩ = _ from rfl) rfl
        refine ⟨hnew.perm (List.perm_append_singleton _ _),fun n hn => ?_,h.elsewhere⟩
        rw [← Option.some.inj hn]
        exact hnode
    | some n =>
        have hn : n.nodeID = c.nodeID := h.here n rfl
        have hhere : n.nodeID = c.nodeOf subscriber := hn.trans hnode.symm
        rw [Option.toList_some, List.singleton_append, upsert, if_pos hhere] at hgroups
        refine ⟨hgroups,fun m hm => ?_,h.elsewhere⟩
        rw [← Option.some.inj hm]
        exact hn
  · rw [if_neg hnode]
    refine ⟨?_,h.here,fun n hn => ?_⟩
    · cases localNode with
      | none => exact hgroups
      | some n =>
          have hn : n.nodeID = c.nodeID := h.here n rfl
          rw [Option.toList_some, List.singleton_append, upsert,
            if_neg fun heq => hnode (heq.symm.trans hn)] at hgroups
          exact hgroups
    · rcases key_of_mem_upsert hn (fun _ => rfl) rfl with heq | hn
      · rw [heq]
        exact hnode
      · exact h.elsewhere n hn

theorem calNodeSubscribers_partitioned (c : Cluster) (subscribers : List Bytes) :
    c.Partitioned subscribers (c.calNodeSubscribers subscribers) := by
  induction subscribers using List.reverseRecOn with
  | nil =>
      exact ⟨.nil,fun _ hn => absurd hn (Option.not_mem_none _),
        fun _ hn => absurd hn List.not_mem_nil⟩
  | append_singleton subscribers subscriber ih =>
      rw [calNodeSubscribers, List.foldl_append]
      exact ih.placeSubscriber subscriber

theorem Partitioned.none_iff {c : Cluster} {subscribers : List Bytes}
    {nodes : Option NodeSubscribers × List NodeSubscribers} (h : c.Partitioned subscribers nodes) :
    nodes.1 = none ↔ ∀ s ∈ subscribers, c.nodeOf s ≠ c.nodeID := by
  constructor
  · intro hnone s hs heq
    obtain ⟨n,hn,hns⟩ := h.groups.covered s hs
    rw [hnone] at hn
    exact h.elsewhere n hn (hns.trans heq)
  · intro hno
    cases hlocal : nodes.1 with
    | none => rfl
    | some n =>
        have hn : n ∈ nodes.1.toList ++ nodes.2 := by simp [hlocal]
        obtain ⟨s,hs⟩ := List.exists_mem_of_ne_nil _ (h.groups.nonempty n hn)
        rw [h.groups.members_eq n hn, List.mem_filter, decide_eq_true_eq, h.here n hlocal] at hs
        exact absurd hs.2 (hno s hs.1)

structure ServedOnce (c : Cluster) (recipients : List Bytes)
    (served : List NodeInFlightDataModel × Option (List Bytes)) : Prop where
  once_a_node : (served.1.map NodeInFlightDataModel.nodeID).Nodup
  forwarded : ∀ d ∈ served.1, d.nodeID ≠ c.nodeID ∧
    d.req.users = recipients.filter fun s => c.nodeOf s = d.nodeID
  handled : served.2.getD [] = recipients.filter fun s => c.nodeOf s = c.nodeID
  all_served : (served.2.getD [] ++ served.1.flatMap fun d => d.req.users).Perm recipients

theorem map_forwardData {β : Type} {f : NodeInFlightDataModel → β} {g : NodeSubscribers → β}
    {uuid : Nat → Bytes} {m : Message} {recvPacketData : Bytes} (others : List NodeSubscribers)
    (h : ∀ n i, f (forwardData uuid m recvPacketData (n,i)) = g n) :
    (others.zipIdx.map (forwardData uuid m recvPacketData)).map f = others.map g := by
  rw [List.map_map, ← List.zipIdx_map_fst 0 others, List.map_map, List.zipIdx_map_fst]
  exact List.map_congr_left fun p _ => h p.1 p.2

theorem Partitioned.served {c : Cluster} {recipients : List Bytes}
    {nodes : Option NodeSubscribers × List NodeSubscribers} (h : c.Partitioned recipients nodes)
    (uuid : Nat → Bytes) (m : Message) (recvPacketData : Bytes) :
    c.ServedOnce recipients
      (nodes.2.zipIdx.map (forwardData uuid m recvPacketData),nodes.1.map (·.subscribers)) := by
  have hhandled : (nodes.1.map (·.subscribers)).getD [] =
      recipients.filter fun s => c.nodeOf s = c.nodeID := by
    cases hlocal : nodes.1 with
    | none =>
        have hno := h.none_iff.mp hlocal
        exact (List.filter_eq_nil_iff.mpr fun s hs heq => hno s hs (of_decide_eq_true heq)).symm
    | some n =>
        have hn : n ∈ nodes.1.toList ++ nodes.2 := by simp [hlocal]
        rw [← h.here n hlocal]
        exact h.groups.members_eq n hn
  refine ⟨?_,fun d hd => ?_,hhandled,?_⟩
  · rw [map_forwardData (g := NodeSubscribers.nodeID) nodes.2 fun _ _ => rfl]
    have hdistinct := h.groups.distinct
    rw [List.map_append] at hdistinct
    exact (List.nodup_append'.mp hdistinct).2.1
  · obtain ⟨⟨n,i⟩,hni,rfl⟩ := List.mem_map.mp hd
    have hn : n ∈ nodes.2 := by
      rw [← List.zipIdx_map_fst 0 nodes.2]
      exact List.mem_map_of_mem hni
    exact ⟨h.elsewhere n hn,h.groups.members_eq n (List.mem_append_right _ hn)⟩
  · have honce := h.groups.once
    rw [List.flatMap_append] at honce
    rw [List.flatMap_def (l := List.map _ _),
      map_forwardData (g := NodeSubscribers.subscribers) nodes.2 fun _ _ => rfl, ← List.flatMap_def]
    cases hlocal : nodes.1 with
    | none =>
        rw [hlocal] at honce
        exact honce
    | some n =>
        rw [hlocal, Option.toList_some, List.flatMap_singleton] at honce
        exact honce

theorem putMessage_eq (c : Cluster) (uuid : Nat → Bytes) (ch : Channel) (m : Message) :
    c.putMessage uuid ch m =
      ((c.calNodeSubscribers (ch.recipients m.subscribers)).2.zipIdx.map
          (forwardData uuid m (encodePacket (.recv m.recvPacket) latestVersion)),
        (c.calNodeSubscribers (ch.recipients m.subscribers)).1.map (·.subscribers)) := by
  have h := c.calNodeSubscribers_partitioned (ch.recipients m.subscribers)
  rw [putMessage]
  cases hlocal : (c.calNodeSubscribers (ch.recipients m.subscribers)).1 with
  | none => rfl
  | some n =>
      have hn := h.groups.nonempty n (by simp [hlocal])
      dsimp only
      rw [if_pos (List.length_pos_iff.mpr hn)]
      rfl

theorem subscribers_partitioned_by_node (c : Cluster) (subscribers : List Bytes) :
    c.Partitioned subscribers (c.calNodeSubscribers subscribers) ∧
      ((c.calNodeSubscribers subscribers).1 = none ↔ ∀ s ∈ subscribers, c.nodeOf s ≠ c.nodeID) ∧
      ∀ uuid ch m, c.ServedOnce (ch.recipients m.subscribers) (c.putMessage uuid ch m) := by
  have h := c.calNodeSubscribers_partitioned subscribers
  refine ⟨h,h.none_iff,fun uuid ch m => ?_⟩
  rw [putMessage_eq]
  exact (c.calNodeSubscribers_partitioned _).served uuid m _

end Cluster

end LiMaoIM.Lim

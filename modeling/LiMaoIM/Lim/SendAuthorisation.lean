import LiMaoIM.Lim.AccessLists
import LiMaoIM.Lim.Send

namespace LiMaoIM.Lim

open Outcome Proto

def Channel.listOf (c : Channel) : Db.ListKind → List Bytes
  | .subscribers => c.subscriberMap
  | .denylist => c.blacklist
  | .allowlist => c.whitelist

def LiMao.listOf (s : LiMao) (kind : Db.ListKind) (id : Bytes) (ty : UInt8) : List Bytes :=
  if isTmpChannel id then ((s.cached .tmpChannelMap id ty).map fun c => c.listOf kind).getD []
  else s.lists ⟨kind,id,ty⟩

def LiMao.parentOf (s : LiMao) (id : Bytes) (ty : UInt8) : Bytes :=
  if isTmpChannel id then ((s.cached .tmpChannelMap id ty).map fun c => c.info.parent).getD []
  else ((Assoc.get (id,ty) s.records).map ChannelInfo.parent).getD []

def Allowed (s : LiMao) (uid id : Bytes) (ty : UInt8) : Prop :=
  uid ∈ s.systemUIDs ∨ (s.listOf .allowlist id ty ≠ [] ∧ uid ∈ s.listOf .allowlist id ty) ∨
    (s.listOf .allowlist id ty = [] ∧ uid ∉ s.listOf .denylist id ty)

structure Permits (s : LiMao) (uid id : Bytes) (ty : UInt8) : Prop where
  allowed : Allowed s uid id ty
  member : ty ≠ channelTypePerson → uid ∈ s.listOf .subscribers id ty ∨ s.parentOf id ty ≠ []

structure Loaded (s : LiMao) : Prop where
  stored : ∀ id ty c, isTmpChannel id = false → s.cached (LiMao.route id ty) id ty = some c →
    c = s.fresh id ty
  tmp : ∀ id ty c, s.cached .tmpChannelMap id ty = some c → c.info.channelType = ty

def LiMao.Exists (s : LiMao) (id : Bytes) (ty : UInt8) : Prop :=
  isTmpChannel id = true → s.cached .tmpChannelMap id ty ≠ none

def Unloaded (id : Bytes) (ty : UInt8) : Prop :=
  isTmpChannel id = false ∧ ty = channelTypePerson ∧ isFakeChannel id = true

def Admits (s : LiMao) (uid id : Bytes) (ty : UInt8) : Prop :=
  s.Exists id ty ∧ (Unloaded id ty ∨ Allowed s uid id ty)

def Guarded (s : LiMao) (fromUID id : Bytes) (ty : UInt8) : Prop :=
  ty = channelTypePerson → Admits s id fromUID channelTypePerson →
    Admits s fromUID (getFakeChannelIDWith fromUID id) channelTypePerson →
    Allowed s fromUID id channelTypePerson

section Channels

variable {s s' : LiMao} {id uid : Bytes} {ty : UInt8} {c : Channel}

theorem allow_iff {systemUIDs allow deny : List Bytes} (hw : ∀ uid, uid ∈ c.whitelist ↔ uid ∈ allow)
    (hb : ∀ uid, uid ∈ c.blacklist ↔ uid ∈ deny) : c.allow systemUIDs uid = true ↔
      uid ∈ systemUIDs ∨ (allow ≠ [] ∧ uid ∈ allow) ∨ (allow = [] ∧ uid ∉ deny) := by
  have hlen := length_pos_congr hw
  rw [List.length_pos_iff (l := allow)] at hlen
  rw [Channel.allow]
  split
  · rename_i hsys
    simp [hsys]
  · rename_i hsys
    split
    · rename_i hpos
      have hne := hlen.mp hpos
      simp [hsys, hne, hw uid]
    · rename_i hpos
      have hnil : allow = [] := by
        by_contra hne
        exact hpos (hlen.mpr hne)
      simp [hsys, hnil, Channel.isBlacklist, hb uid]

theorem getChannel_exists : (∃ c, (s.getChannel id ty).1 = some c) ↔ s.Exists id ty := by
  cases ht : isTmpChannel id with
  | true =>
    rw [LiMao.getChannel_tmp ht]
    simp only [LiMao.Exists, ht, forall_const]
    exact Option.ne_none_iff_exists'.symm
  | false =>
    obtain ⟨s',hget,-⟩ := LiMao.getChannel_some ht s ty
    simp [hget, LiMao.Exists, ht]

theorem Loaded.value (h : Loaded s) (ht : isTmpChannel id = false)
    (hc : (s.getChannel id ty).1 = some c) : c = s.fresh id ty := by
  obtain ⟨s',hget,-⟩ := LiMao.getChannel_some ht s ty
  rw [hget] at hc
  cases hcached : s.cached (LiMao.route id ty) id ty with
  | none =>
    rw [hcached] at hc
    exact (Option.some.inj hc).symm
  | some c₀ =>
    rw [hcached] at hc
    obtain rfl : c₀ = c := Option.some.inj hc
    exact h.stored id ty c₀ ht hcached

theorem blacklist_whitelist_unloaded (h : Unloaded id ty) :
    (s.fresh id ty).blacklist = [] ∧ (s.fresh id ty).whitelist = [] := by
  obtain ⟨-,rfl,hfake⟩ := h
  have hload : s.loadData (newChannel (newChannelInfo id channelTypePerson)) =
      newChannel (newChannelInfo id channelTypePerson) := by
    rw [LiMao.loadData, if_pos ⟨rfl,hfake⟩]
  rw [LiMao.fresh, if_pos rfl, LiMao.newPersonChannel, if_pos hfake]
  simp only [hload]
  exact foldl_addSubscriber (id.splitOn atSign) (newChannel (newChannelInfo id channelTypePerson))

theorem Loaded.allow_iff (h : Loaded s) (hc : (s.getChannel id ty).1 = some c) :
    c.allow s.systemUIDs uid = true ↔ Unloaded id ty ∨ Allowed s uid id ty := by
  cases ht : isTmpChannel id with
  | true =>
    rw [LiMao.getChannel_tmp ht] at hc
    replace hc : s.cached .tmpChannelMap id ty = some c := hc
    have hun : ¬ Unloaded id ty := by
      intro hun
      rw [hun.1] at ht
      cases ht
    have hlist : ∀ kind, s.listOf kind id ty = c.listOf kind := by
      intro kind
      rw [LiMao.listOf, ht, if_pos rfl, hc]
      rfl
    rw [Allowed, hlist, hlist, or_iff_right hun]
    exact Lim.allow_iff (fun _ => Iff.rfl) fun _ => Iff.rfl
  | false =>
    rw [h.value ht hc]
    have hlist : ∀ kind, s.listOf kind id ty = s.lists ⟨kind,id,ty⟩ := by
      intro kind
      rw [LiMao.listOf, ht, if_neg (by decide)]
    by_cases hun : Unloaded id ty
    · obtain ⟨hb,hw⟩ := blacklist_whitelist_unloaded (s := s) hun
      simp [hun, Channel.allow, Channel.isBlacklist, hb, hw]
    · have hmatch : Matches s.lists id ty (s.fresh id ty) :=
        matches_fresh fun hty hfake => absurd ⟨ht,hty,hfake⟩ hun
      rw [Allowed, hlist, hlist, or_iff_right hun]
      exact Lim.allow_iff hmatch.whitelist hmatch.blacklist

theorem info_loadData (s : LiMao) (c : Channel) : (s.loadData c).info = c.info := by
  rw [LiMao.loadData]
  split
  · rfl
  · rfl

theorem info_foldl_addSubscriber (uids : List Bytes) (c : Channel) :
    (uids.foldl Channel.addSubscriber c).info = c.info := by
  induction uids generalizing c with
  | nil => rfl
  | cons uid uids ih => exact ih (c.addSubscriber uid)

theorem info_fresh (hty : ty ≠ channelTypePerson) : (s.fresh id ty).info.channelType = ty ∧
    (s.fresh id ty).info.parent = ((Assoc.get (id,ty) s.records).map ChannelInfo.parent).getD [] := by
  rw [LiMao.fresh, if_neg hty, info_loadData, LiMao.storedChannel]
  cases Assoc.get (id,ty) s.records with
  | none => exact ⟨rfl,rfl⟩
  | some data => exact ⟨rfl,rfl⟩

theorem info_newPersonChannel (s : LiMao) (id : Bytes) (ty : UInt8) :
    (s.newPersonChannel id ty).info = newChannelInfo id ty := by
  rw [LiMao.newPersonChannel]
  split
  · rw [info_foldl_addSubscriber, info_loadData]
    rfl
  · rw [info_loadData]
    rfl

theorem Loaded.channelType (h : Loaded s) (hc : (s.getChannel id ty).1 = some c) :
    c.info.channelType = ty := by
  cases ht : isTmpChannel id with
  | true =>
    rw [LiMao.getChannel_tmp ht] at hc
    exact h.tmp id ty c hc
  | false =>
    rw [h.value ht hc]
    by_cases hty : ty = channelTypePerson
    · rw [LiMao.fresh, if_pos hty, info_newPersonChannel]
      rfl
    · exact (info_fresh hty).1

theorem Loaded.isSubscriber_iff (h : Loaded s) (hty : ty ≠ channelTypePerson)
    (hc : (s.getChannel id ty).1 = some c) : c.isSubscriber uid = true ↔
      uid ∈ s.listOf .subscribers id ty ∨ s.parentOf id ty ≠ [] := by
  rw [Channel.isSubscriber, decide_eq_true_iff, List.length_pos_iff]
  cases ht : isTmpChannel id with
  | true =>
    rw [LiMao.getChannel_tmp ht] at hc
    replace hc : s.cached .tmpChannelMap id ty = some c := hc
    rw [LiMao.listOf, LiMao.parentOf, ht, if_pos rfl, if_pos rfl, hc]
    rfl
  | false =>
    rw [h.value ht hc, LiMao.listOf, LiMao.parentOf, ht, if_neg (by decide), if_neg (by decide),
      (info_fresh hty).2, LiMao.subscriberMap_fresh hty]
    simp

end Channels

section Handling

variable {d : Dispatch} {fromUID : Bytes} {flag : DeviceFlag} {p : SendPacket} {input : SendInput}
  {c : Channel}

theorem Loaded.passes_iff (hl : Loaded d.lim) (hmode : d.lim.opts.testMode = false) :
    (∃ c, Passes d fromUID p c) ↔
      (p.channelType = channelTypePerson → Admits d.lim p.channelID fromUID channelTypePerson ∧
        Admits d.lim fromUID (getFakeChannelIDWith fromUID p.channelID) channelTypePerson) ∧
      (p.channelType ≠ channelTypePerson → d.lim.Exists p.channelID p.channelType ∧
        Permits d.lim fromUID p.channelID p.channelType) := by
  by_cases hty : p.channelType = channelTypePerson
  · have hid : sendChannelID fromUID p = getFakeChannelIDWith fromUID p.channelID := by
      rw [sendChannelID, if_pos hty]
    constructor
    · rintro ⟨c,hpass⟩
      refine ⟨fun _ => ?_,fun hne => absurd hty hne⟩
      obtain ⟨own,hown,hallow⟩ := hpass.own hty
      have hc := hpass.channel
      rw [hid, hty] at hc
      exact ⟨⟨getChannel_exists.mp ⟨own,hown⟩,(hl.allow_iff hown).mp hallow⟩,
        getChannel_exists.mp ⟨c,hc⟩,(hl.allow_iff hc).mp (hpass.allow hmode)⟩
    · rintro ⟨hperson,-⟩
      obtain ⟨⟨hex,hown⟩,hex',hpair⟩ := hperson hty
      obtain ⟨own,hgown⟩ := getChannel_exists.mpr hex
      obtain ⟨c,hc⟩ := getChannel_exists.mpr hex'
      refine ⟨c,fun _ => ⟨own,hgown,(hl.allow_iff hgown).mpr hown⟩,by rw [hid, hty]; exact hc,
        fun _ => (hl.allow_iff hc).mpr hpair,fun _ hne => ?_⟩
      exact absurd (hl.channelType hc) hne
  · have hid : sendChannelID fromUID p = p.channelID := by
      rw [sendChannelID, if_neg hty]
    have hun : ¬ Unloaded p.channelID p.channelType := fun hun => hty hun.2.1
    constructor
    · rintro ⟨c,hpass⟩
      refine ⟨fun h => absurd h hty,fun _ => ?_⟩
      have hc := hpass.channel
      rw [hid] at hc
      refine ⟨getChannel_exists.mp ⟨c,hc⟩,?_,fun _ => (hl.isSubscriber_iff hty hc).mp ?_⟩
      · exact ((hl.allow_iff hc).mp (hpass.allow hmode)).resolve_left hun
      · apply hpass.member hmode
        rw [hl.channelType hc]
        exact hty
    · rintro ⟨-,hother⟩
      obtain ⟨hex,hpermits⟩ := hother hty
      obtain ⟨c,hc⟩ := getChannel_exists.mpr hex
      exact ⟨c,fun h => absurd h hty,by rw [hid]; exact hc,
        fun _ => (hl.allow_iff hc).mpr (Or.inr hpermits.allowed),
        fun _ _ => (hl.isSubscriber_iff hty hc).mpr (hpermits.member hty)⟩

theorem delivered_sendThrough (h : p.framer.noPersist = true) (c : Channel) (fromUID : Bytes)
    (flag : DeviceFlag) (input : SendInput) (d : Dispatch) :
    ∃ delivery, (sendThrough c fromUID flag p input d).2.deliveryMsgPool =
      d.deliveryMsgPool ++ [delivery] := by
  have hqueued : (sentMessage fromUID flag p input 0).queued = false := by
    simp [Message.queued, sentMessage, h]
  have hskip : ∀ {α : Type} (x : Exec Dispatch α) (a : α), Exec.attempt
      (if (!p.framer.noPersist && !p.framer.syncOnce) = true then x else pure a) d =
        (.ok (.ok a),d) := by
    intro α x a
    rw [if_neg (by simp [h])]
    rfl
  obtain ⟨queue,hnotify⟩ := notifyIfNeed_eq
    (storedMessage (sentMessage fromUID flag p input 0) (sendChannelID fromUID p)) d
  simp only [sendThrough]
  rw [Exec.bind_of_ok (hskip _ _)]
  simp only []
  rw [Exec.bind_of_ok (hskip _ _)]
  simp only []
  rw [Exec.bind_of_ok hnotify, Exec.bind_of_ok (putMessage_skip hqueued c _)]
  exact ⟨_,rfl⟩

end Handling

def unstoredPacket (id : Bytes) (ty : UInt8) : SendPacket :=
  { framer := { noPersist := true }, msgKey := [], clientSeq := 0, clientMsgNo := [],
    channelID := id, channelType := ty, payload := [] }

def Acts (d d' : Dispatch) : Prop := ¬ Untouched d d'

theorem sends_authorised_iff {d : Dispatch} (hmode : d.lim.opts.testMode = false)
    (hl : Loaded d.lim) (fromUID id : Bytes) (ty : UInt8) :
    (∀ flag p input, p.channelID = id → p.channelType = ty →
      Acts d (handleSendPacketWithFrom fromUID flag p input d).2 → Permits d.lim fromUID id ty) ↔
      Guarded d.lim fromUID id ty := by
  constructor
  · rintro hclaim rfl hown hpair
    obtain ⟨c,hpass⟩ := (hl.passes_iff (p := unstoredPacket id channelTypePerson) hmode).mpr
      ⟨fun _ => ⟨hown,hpair⟩,fun hne => absurd rfl hne⟩
    refine (hclaim 0 (unstoredPacket id channelTypePerson) ⟨0,0,[]⟩ rfl rfl fun huntouched => ?_).allowed
    rcases handleSend_cases d fromUID 0 (unstoredPacket id channelTypePerson) ⟨0,0,[]⟩ with
      ⟨r,d',-,-,hnone⟩ | ⟨c',d',heq,hlook,-⟩
    · exact hnone c hpass
    · obtain ⟨delivery,hpool⟩ := delivered_sendThrough (p := unstoredPacket id channelTypePerson) rfl
        c' fromUID 0 ⟨0,0,[]⟩ d'
      have hsame := huntouched.deliveryMsgPool
      rw [heq, hpool, hlook.deliveryMsgPool] at hsame
      simp at hsame
  · rintro hguard flag p input rfl rfl hact
    rcases handleSend_cases d fromUID flag p input with ⟨r,d',heq,hlook,-⟩ | ⟨c,d',-,-,hpass⟩
    · rw [heq] at hact
      exact absurd hlook.toUntouched hact
    · obtain ⟨hperson,hother⟩ := (hl.passes_iff hmode).mp ⟨c,hpass⟩
      by_cases hty : p.channelType = channelTypePerson
      · obtain ⟨hown,hpair⟩ := hperson hty
        refine ⟨?_,fun hne => absurd hty hne⟩
        have hallowed := hguard hty hown hpair
        rw [hty]
        exact hallowed
      · exact (hother hty).2

theorem loaded_start (opts : ChannelOptions) (systemUIDs : List Bytes)
    (records : List ((Bytes × UInt8) × ChannelInfo)) (lists : ChannelLists) (messages : Db.Store) :
    Loaded (.start opts systemUIDs records lists messages) := by
  refine ⟨?_,?_⟩
  · intro id ty c _ hc
    cases hc
  · intro id ty c hc
    cases hc

def blockingLists : ChannelLists :=
  ChannelLists.add ⟨.denylist,[0x62],1⟩ [[0x61]] fun _ => []

def blockingDispatch : Dispatch :=
  ⟨.start serverOptions [] [] blockingLists (Db.newStore 256 4096),false,[],[]⟩

theorem unblocked_sends_authorised :
    Guarded blockingDispatch.lim [0x63] [0x62] 1 ∧
      ∀ flag p input, p.channelID = [0x62] → p.channelType = 1 →
        Acts blockingDispatch (handleSendPacketWithFrom [0x63] flag p input blockingDispatch).2 →
          Permits blockingDispatch.lim [0x63] [0x62] 1 := by
  have hguard : Guarded blockingDispatch.lim [0x63] [0x62] 1 := fun _ _ _ =>
    Or.inr (Or.inr ⟨by decide +kernel,by decide +kernel⟩)
  exact ⟨hguard,(sends_authorised_iff rfl (loaded_start _ _ _ _ _) [0x63] [0x62] 1).mpr hguard⟩

theorem blocked_sender_delivers :
    ¬ ∀ flag p input, p.channelID = [0x62] → p.channelType = 1 →
      Acts blockingDispatch (handleSendPacketWithFrom [0x61] flag p input blockingDispatch).2 →
        Permits blockingDispatch.lim [0x61] [0x62] 1 := by
  intro h
  have hacts : Acts blockingDispatch (handleSendPacketWithFrom [0x61] 0 (unstoredPacket [0x62] 1)
      ⟨7,0,[]⟩ blockingDispatch).2 := by
    intro huntouched
    have hlen := congrArg List.length huntouched.deliveryMsgPool
    revert hlen
    decide +kernel
  rcases (h 0 (unstoredPacket [0x62] 1) ⟨7,0,[]⟩ rfl rfl hacts).allowed with hsys | hallow | hdeny
  · cases hsys
  · exact hallow.1 (by decide +kernel)
  · exact hdeny.2 (by decide +kernel)

end LiMaoIM.Lim

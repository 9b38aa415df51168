import LiMaoIM.Sdk.Calls

namespace LiMaoIM.Sdk

open Outcome Proto Lim Exec

def keyView (c : Client) : UInt8 × Bytes × Bytes := (c.opts.protoVersion,c.aesKey,c.salt)

structure Wrote (frames : List Frame) (c c' : Client) : Prop where
  keys : keyView c' = keyView c
  written : c'.written = c.written ++ frames
  contents : c'.rw.failed = false →
    c.rw.failed = false ∧
      c'.rw.contents = c.rw.contents ++ frames.flatMap (encodePacket · c.opts.protoVersion)

variable {c c' c'' : Client} {frames frames' : List Frame}

theorem Wrote.refl (c : Client) : Wrote [] c c :=
  ⟨rfl,(List.append_nil _).symm,fun h => ⟨h,(List.append_nil _).symm⟩⟩

theorem Wrote.quiet (hkeys : keyView c' = keyView c) (hwritten : c'.written = c.written)
    (hrw : c'.rw = c.rw) : Wrote [] c c' := by
  refine ⟨hkeys,?_,fun hlive => ?_⟩
  · rw [hwritten,List.append_nil]
  · rw [hrw] at hlive ⊢
    exact ⟨hlive,(List.append_nil _).symm⟩

theorem Wrote.stopped (hkeys : keyView c' = keyView c) (hwritten : c'.written = c.written)
    (hfailed : c'.rw.failed = true) : Wrote [] c c' := by
  refine ⟨hkeys,?_,fun hlive => ?_⟩
  · rw [hwritten,List.append_nil]
  · cases hfailed.symm.trans hlive

theorem Wrote.trans (h : Wrote frames c c') (h' : Wrote frames' c' c'') :
    Wrote (frames ++ frames') c c'' := by
  have hversion : c'.opts.protoVersion = c.opts.protoVersion := congrArg Prod.fst h.keys
  refine ⟨h'.keys.trans h.keys,?_,fun hlive => ?_⟩
  · rw [h'.written,h.written,List.append_assoc]
  · obtain ⟨hlive',hcontents'⟩ := h'.contents hlive
    obtain ⟨hlive'',hcontents⟩ := h.contents hlive'
    exact ⟨hlive'',by rw [hcontents',hcontents,hversion,List.flatMap_append,List.append_assoc]⟩

theorem Wrote.failed (h : Wrote frames c c') (hfailed : c.rw.failed = true) :
    c'.rw.failed = true := by
  by_contra hlive
  cases hfailed.symm.trans (h.contents (Bool.eq_false_of_not_eq_true hlive)).1

theorem onConn_of {x : Bool → Exec BufWriter Unit} {r : Outcome Unit} {rw' : BufWriter}
    (h : x c.closed c.rw = (r,rw')) : onConn x c = (r,{ c with rw := rw' }) := by
  rw [onConn,h]

theorem sendPacket_spec (packet : Frame) (c : Client) :
    (∃ c', sendPacket packet c = (.ok (),c') ∧ Wrote [packet] c c') ∨
      ∃ e c', sendPacket packet c = (.error e,c') ∧ Wrote [] c c' ∧ c'.rw.failed = true := by
  let data := encodePacket packet c.opts.protoVersion
  let counted : Client := { c with
    sendTotalMsgBytes := c.sendTotalMsgBytes + Int64.ofNat data.length }
  rw [sendPacket,Exec.get_bind,Exec.modify_bind]
  rcases BufWriter.write_spec c.closed data c.rw with ⟨rw',hwrite,hgrows⟩ | ⟨rw',hwrite,hfailed⟩
  · have hconn : onConn (fun closed => BufWriter.write closed data) counted =
        (.ok (),{ counted with rw := rw' }) := onConn_of hwrite
    refine Or.inl ⟨_,Exec.bind_of_ok hconn,rfl,rfl,fun _ => ⟨hgrows.before,?_⟩⟩
    rw [List.flatMap_singleton]
    exact hgrows.contents
  · have hconn : onConn (fun closed => BufWriter.write closed data) counted =
        (.error BufWriter.brokenPipe,{ counted with rw := rw' }) := onConn_of hwrite
    exact Or.inr ⟨_,_,Exec.bind_of_error hconn,.stopped rfl rfl hfailed,hfailed⟩

theorem flush_spec (c : Client) :
    (∃ c', flush c = (.ok (),c') ∧ Wrote [] c c' ∧ c'.rw.buffered = []) ∨
      ∃ e c', flush c = (.error e,c') ∧ Wrote [] c c' ∧ c'.rw.failed = true := by
  rcases BufWriter.flush_spec c.closed c.rw with ⟨rw',hflush,hgrows,hempty⟩ | ⟨rw',hflush,hfailed⟩
  · exact Or.inl ⟨_,onConn_of hflush,⟨rfl,(List.append_nil _).symm,fun _ =>
      ⟨hgrows.before,hgrows.contents⟩⟩,hempty⟩
  · exact Or.inr ⟨_,_,onConn_of hflush,.stopped rfl rfl hfailed,hfailed⟩

def Writes {α : Type} (P : Frame → Prop) (x : Exec Client α) : Prop :=
  ∀ c, ∃ frames, Wrote frames c (x c).2 ∧ ∀ f ∈ frames, P f

section Writes

variable {α β : Type} {P : Frame → Prop} {x : Exec Client α} {f : α → Exec Client β}

theorem Writes.pure (a : α) : Writes P (Pure.pure a) := fun c =>
  ⟨[],.refl c,fun _ hf => absurd hf List.not_mem_nil⟩

theorem Writes.modify {g : Client → Client} (hkeys : ∀ c, keyView (g c) = keyView c)
    (hwritten : ∀ c, (g c).written = c.written) (hrw : ∀ c, (g c).rw = c.rw) :
    Writes P (Exec.modify g) := fun c =>
  ⟨[],.quiet (hkeys c) (hwritten c) (hrw c),fun _ hf => absurd hf List.not_mem_nil⟩

theorem Writes.get_bind {g : Client → Exec Client β} (hg : ∀ c, Writes P (g c)) :
    Writes P (Exec.get >>= g) := fun c => hg c c

theorem Writes.bind (hx : Writes P x) (hf : ∀ a, Writes P (f a)) : Writes P (x >>= f) := by
  intro c
  obtain ⟨frames,hwrote,hp⟩ := hx c
  rcases hrun : x c with ⟨r,c'⟩
  rw [hrun] at hwrote
  cases r with
  | ok a =>
    obtain ⟨frames',hwrote',hp'⟩ := hf a c'
    rw [Exec.bind_of_ok hrun]
    refine ⟨frames ++ frames',hwrote.trans hwrote',fun g hg => ?_⟩
    exact (List.mem_append.mp hg).elim (hp g) (hp' g)
  | error e =>
    rw [Exec.bind_of_error hrun]
    exact ⟨frames,hwrote,hp⟩
  | panic e =>
    rw [Exec.bind_of_panic hrun]
    exact ⟨frames,hwrote,hp⟩

theorem Writes.attempt (hx : Writes P x) : Writes P (Exec.attempt x) := by
  intro c
  obtain ⟨frames,hwrote,hp⟩ := hx c
  rcases hrun : x c with ⟨r,c'⟩
  rw [hrun] at hwrote
  cases r with
  | ok a =>
    rw [Exec.attempt_of_ok hrun]
    exact ⟨frames,hwrote,hp⟩
  | error e =>
    rw [Exec.attempt_of_error hrun]
    exact ⟨frames,hwrote,hp⟩
  | panic e =>
    rw [Exec.attempt_of_panic hrun]
    exact ⟨frames,hwrote,hp⟩

theorem writes_sendPacket {packet : Frame} (hp : P packet) : Writes P (sendPacket packet) := by
  intro c
  rcases sendPacket_spec packet c with ⟨c',hsend,hwrote⟩ | ⟨e,c',hsend,hwrote,-⟩
  · rw [hsend]
    exact ⟨[packet],hwrote,fun f hf => List.mem_singleton.mp hf ▸ hp⟩
  · rw [hsend]
    exact ⟨[],hwrote,fun f hf => absurd hf List.not_mem_nil⟩

theorem writes_flush : Writes P flush := by
  intro c
  rcases flush_spec c with ⟨c',hflush,hwrote,-⟩ | ⟨e,c',hflush,hwrote,-⟩
  · rw [hflush]
    exact ⟨[],hwrote,fun f hf => absurd hf List.not_mem_nil⟩
  · rw [hflush]
    exact ⟨[],hwrote,fun f hf => absurd hf List.not_mem_nil⟩

theorem writes_loopPing (hp : P (.ping none)) : Writes P loopPing := by
  refine .get_bind fun c => ?_
  split
  · exact .modify (fun _ => rfl) (fun _ => rfl) fun _ => rfl
  · refine .bind (.bind (writes_sendPacket hp).attempt fun _ => .pure ()) fun _ => ?_
    exact .modify (fun _ => rfl) (fun _ => rfl) fun _ => rfl

theorem writes_handleClose : Writes P handleClose := by
  refine .modify (fun c => ?_) (fun c => ?_) fun c => ?_
  · split
    · rfl
    · rfl
  · split
    · rfl
    · rfl
  · split
    · rfl
    · rfl

end Writes

theorem transmit_spec (call : Call) (c : Client) :
    ∃ frames, Wrote frames c (transmit call c).2 ∧ (∀ f ∈ frames, f = .send call.packet) ∧
      ∀ a, (transmit call c).1 = .ok a → .send call.packet ∈ frames := by
  have hone : ∀ f ∈ [Frame.send call.packet], f = .send call.packet := fun f hf =>
    List.mem_singleton.mp hf
  cases hkind : call.kind with
  | sendMessage opts =>
    have htransmit : transmit call = sendPacket (.send call.packet) >>= fun _ =>
        if opts.flush then flush else pure () := by
      rw [transmit,hkind]
    rw [htransmit]
    rcases sendPacket_spec (.send call.packet) c with ⟨c₁,hsend,hwrote⟩ | ⟨e,c₁,hsend,hwrote,-⟩
    · obtain ⟨frames,hrest,hnone⟩ : ∃ frames, Wrote frames c₁
          ((if opts.flush then flush else pure () : Exec Client Unit) c₁).2 ∧
            ∀ f ∈ frames, False := by
        split
        · exact writes_flush c₁
        · exact Writes.pure () c₁
      rw [Exec.bind_of_ok hsend]
      refine ⟨[.send call.packet] ++ frames,hwrote.trans hrest,fun f hf => ?_,fun _ _ =>
        List.mem_cons_self⟩
      exact (List.mem_append.mp hf).elim (hone f) fun hmem => (hnone f hmem).elim
    · rw [Exec.bind_of_error hsend]
      exact ⟨[],hwrote,fun f hf => absurd hf List.not_mem_nil,fun a ha => by cases ha⟩
  | sendMessageSync =>
    have htransmit : transmit call = sendPacket (.send call.packet) := by
      rw [transmit,hkind]
    rw [htransmit]
    rcases sendPacket_spec (.send call.packet) c with ⟨c₁,hsend,hwrote⟩ | ⟨e,c₁,hsend,hwrote,-⟩
    · rw [hsend]
      exact ⟨_,hwrote,hone,fun _ _ => List.mem_cons_self⟩
    · rw [hsend]
      exact ⟨[],hwrote,fun f hf => absurd hf List.not_mem_nil,fun a ha => by cases ha⟩

theorem sendAll_spec (packets : List SendPacket) (c : Client) :
    ∃ c', sendAll packets c = (.ok (),c') ∧
      (Wrote (packets.map .send) c c' ∨ c'.rw.failed = true) := by
  induction packets generalizing c with
  | nil => exact ⟨c,rfl,Or.inl (.refl c)⟩
  | cons packet packets ih =>
    rw [sendAll]
    rcases sendPacket_spec (.send packet) c with ⟨c₁,hsend,hwrote⟩ | ⟨e,c₁,hsend,-,hfailed⟩
    · obtain ⟨c',hall,hrest⟩ := ih c₁
      rw [Exec.bind_of_ok (Exec.attempt_of_ok hsend)]
      exact ⟨c',hall,hrest.imp_left hwrote.trans⟩
    · obtain ⟨c',hall,hrest⟩ := ih c₁
      rw [Exec.bind_of_ok (Exec.attempt_of_error hsend)]
      exact ⟨c',hall,Or.inr (hrest.elim (fun hw => hw.failed hfailed) id)⟩

end LiMaoIM.Sdk

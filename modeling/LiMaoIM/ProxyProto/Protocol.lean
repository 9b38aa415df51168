import LiMaoIM.Foundation.Reader

namespace LiMaoIM.ProxyProto

open Outcome

abbrev CMDType := UInt8

structure CMD where
  cmd : CMDType
  id : UInt64
  param : Bytes
deriving DecidableEq, Repr

namespace CMD

def encode (c : CMD) : Bytes :=
  c.cmd :: (Bytes.putUint 8 c.id.toNat ++
    (Bytes.putUint 4 (Int32.ofNat c.param.length).toUInt32.toNat ++ c.param))

end CMD

def int32 (b : Bytes) : Int32 := Int32.ofNat (Bytes.uint b)

def uint64 (b : Bytes) : UInt64 := UInt64.ofNat (Bytes.uint b)

def sliceOf (data spare : Bytes) (low high : Int) : Outcome Bytes :=
  if 0 ≤ low ∧ low ≤ high ∧ high ≤ data.length + spare.length then
    .ok (((data ++ spare).take high.toNat).drop low.toNat)
  else .panic "runtime error: slice bounds out of range"

def byteAt (data : Bytes) (i : Nat) : Outcome UInt8 :=
  match data[i]? with
  | none => .panic "runtime error: index out of range"
  | some b => .ok b

def decode (data spare : Bytes) : Outcome CMD := do
  let cmd ← byteAt data 0
  let id ← sliceOf data spare 1 9
  let paramLen ← sliceOf data spare 9 (9 + 4)
  let param ← sliceOf data spare (9 + 4) (int32 paramLen + 9 + 4).toInt
  pure ⟨cmd,uint64 id,param⟩

def decodeWithReader {σ : Type} (reader : Reader σ) (s : Reading σ) : Outcome CMD × Reading σ :=
  match reader.readInto s (5 + 8) with
  | ((_,some err),s) => (.error err,s)
  | ((cmdBytes,none),s) =>
      let cmd := cmdBytes.getD 0 0
      let id := uint64 ((cmdBytes.drop 1).take 8)
      let len := int32 (cmdBytes.drop 9)
      if len < 0 then (.panic "runtime error: makeslice: len out of range",s)
      else match reader.readInto s len.toInt.toNat with
        | ((_,some err),s) => (.error err,s)
        | ((data,none),s) => (.ok ⟨cmd,id,data⟩,s)

theorem uint64_putUint (n : UInt64) : uint64 (Bytes.putUint 8 n.toNat) = n := by
  rw [uint64, Bytes.uint_putUint_of_lt n.toNat_lt, UInt64.ofNat_toNat]

theorem int32_putUint (n : Int32) : int32 (Bytes.putUint 4 n.toUInt32.toNat) = n := by
  rw [int32, Bytes.uint_putUint_of_lt n.toUInt32.toNat_lt, ← UInt32.toInt32_ofNat',
    UInt32.ofNat_toNat, Int32.toInt32_toUInt32]

theorem toInt_end {n : Nat} (h : n < 2 ^ 31) :
    (Int32.ofNat n + 9 + 4).toInt =
      if n + 13 < 2 ^ 31 then (n + 13 : Int) else n + 13 - 2 ^ 32 := by
  rw [Int32.toInt_add, Int32.toInt_add, Int32.toInt_ofNat_of_lt h, Int.bmod_add_bmod]
  simp only [Int32.reduceToInt, Int.bmod]
  split <;> split <;> omega

theorem sliceOf_middle {a b rest spare : Bytes} {low high : Int} (hlow : low = a.length)
    (hhigh : high = a.length + b.length) : sliceOf (a ++ (b ++ rest)) spare low high = .ok b := by
  have hbounds : 0 ≤ low ∧ low ≤ high ∧
      high ≤ ((a ++ (b ++ rest)).length : Int) + (spare.length : Int) := by
    simp only [List.length_append]
    omega
  rw [sliceOf, if_pos hbounds, show low.toNat = a.length by omega,
    show high.toNat = a.length + b.length by omega, List.append_assoc, List.append_assoc,
    List.take_length_add_append, List.drop_left, List.take_left]

theorem sliceOf_negative (data spare : Bytes) (low : Int) {high : Int} (h : high < 0) :
    ∃ e, sliceOf data spare low high = .panic e :=
  ⟨_,if_neg (by omega)⟩

namespace CMD

def header (c : CMD) : Bytes :=
  c.cmd :: (Bytes.putUint 8 c.id.toNat ++
    Bytes.putUint 4 (Int32.ofNat c.param.length).toUInt32.toNat)

theorem encode_eq (c : CMD) : c.encode = c.header ++ c.param := by
  rw [encode, header, List.cons_append, List.append_assoc]

theorem length_header (c : CMD) : c.header.length = 13 := by
  simp [header]

theorem uint64_header (c : CMD) : uint64 ((c.header.drop 1).take 8) = c.id := by
  rw [header, List.drop_succ_cons, List.drop_zero,
    List.take_left' (Bytes.length_putUint 8 c.id.toNat), uint64_putUint]

theorem int32_header (c : CMD) : int32 (c.header.drop 9) = Int32.ofNat c.param.length := by
  rw [header, List.drop_succ_cons, List.drop_left' (Bytes.length_putUint 8 c.id.toNat),
    int32_putUint]

end CMD

theorem decode_encode {c : CMD} (h : c.param.length < 2 ^ 31) (spare : Bytes) :
    decode c.encode spare = .ok c ↔ c.param.length + 13 < 2 ^ 31 := by
  have hid : sliceOf c.encode spare 1 9 = .ok (Bytes.putUint 8 c.id.toNat) := by
    rw [CMD.encode, ← List.singleton_append]
    exact sliceOf_middle (by simp) (by simp)
  have hlen : sliceOf c.encode spare 9 (9 + 4) =
      .ok (Bytes.putUint 4 (Int32.ofNat c.param.length).toUInt32.toNat) := by
    rw [CMD.encode, ← List.cons_append]
    exact sliceOf_middle (by simp) (by simp)
  have hparam : sliceOf c.encode spare (9 + 4) (c.param.length + 13) = .ok c.param := by
    have hend : (c.param.length : Int) + 13 = c.header.length + c.param.length := by
      rw [c.length_header]
      exact add_comm _ _
    rw [CMD.encode_eq, hend, ← List.append_nil (c.header ++ c.param), List.append_assoc]
    exact sliceOf_middle (by rw [c.length_header]; rfl) rfl
  rw [decode, show byteAt c.encode 0 = .ok c.cmd from rfl, ok_bind, hid, ok_bind, hlen, ok_bind,
    uint64_putUint, int32_putUint, toInt_end h]
  split
  · rename_i hend
    rw [hparam]
    exact iff_of_true rfl hend
  · rename_i hend
    have hneg : (c.param.length : Int) + 13 - 2 ^ 32 < 0 := by omega
    obtain ⟨e,he⟩ := sliceOf_negative c.encode spare (9 + 4) hneg
    rw [he]
    exact iff_of_false (fun h => by cases h) hend

section Stream

variable {σ : Type} {reader : Reader σ}

theorem decodeWithReader_inv {c : CMD} {s s' : Reading σ}
    (h : decodeWithReader reader s = (.ok c,s')) :
    let first := reader.read s.state 13
    let second := reader.read first.2.2 c.param.length
    first.2.1 = none ∧ second.2.1 = none ∧ s' = ⟨second.2.2,s.consumed ++ first.1 ++ second.1⟩ := by
  rw [decodeWithReader] at h
  generalize hfirst : reader.readInto s (5 + 8) = first at h
  rcases first with ⟨⟨cmdBytes,_ | err⟩,s₁⟩
  · dsimp only at h
    split at h
    · cases (Prod.mk.inj h).1
    · generalize (int32 (cmdBytes.drop 9)).toInt.toNat = len at h
      generalize hsecond : reader.readInto s₁ len = second at h
      rcases second with ⟨⟨data,_ | err⟩,s₂⟩
      · obtain ⟨hc,rfl⟩ := Prod.mk.inj h
        obtain ⟨-,herr,rfl⟩ := Reader.readInto_inv hfirst
        obtain ⟨hlen,herr',rfl⟩ := Reader.readInto_inv hsecond
        have hdata : data = c.param := congrArg CMD.param (Outcome.ok.inj hc)
        rw [hdata] at hlen
        subst hlen
        exact ⟨herr,herr',rfl⟩
      · cases (Prod.mk.inj h).1
  · cases (Prod.mk.inj h).1

theorem decodeWithReader_iff {c : CMD} (h : c.param.length < 2 ^ 31) {s : Reading σ}
    (hd : reader.Delivers c.encode s.state) :
    (∃ state, decodeWithReader reader s = (.ok c,⟨state,s.consumed ++ c.encode⟩)) ↔
      reader.Fills s.state 13 ∧
        reader.Fills (reader.read s.state 13).2.2 c.param.length := by
  have hheader := c.length_header
  rw [CMD.encode_eq] at hd ⊢
  constructor
  · rintro ⟨state,hdecode⟩
    obtain ⟨hfirst,hsecond,hs⟩ := decodeWithReader_inv hdecode
    have hconsumed := congrArg (fun s => s.consumed.length) hs
    simp only [List.length_append, hheader] at hconsumed
    have h1 := reader.within s.state 13
    have h2 := reader.within (reader.read s.state 13).2.2 c.param.length
    exact ⟨⟨by omega,hfirst⟩,⟨by omega,hsecond⟩⟩
  · rintro ⟨hfirst,hsecond⟩
    have hfill := hfirst.1
    rw [← hheader] at hfill
    have hbytes := hd.read_eq hfill
    have hrest := hd.read_rest (List.ne_nil_of_length_pos (by omega)) hfill
    rw [hheader] at hbytes hrest
    rw [← List.append_nil c.param] at hrest
    have hparam := hrest.read_eq hsecond.1
    have hneg : ¬Int32.ofNat c.param.length < 0 := by
      rw [Int32.lt_iff_toInt_lt, Int32.toInt_ofNat_of_lt h]
      exact not_lt_of_ge (Int.natCast_nonneg _)
    refine ⟨(reader.read (reader.read s.state 13).2.2 c.param.length).2.2,?_⟩
    rw [decodeWithReader, Reader.readInto_of_fills hfirst, hbytes]
    dsimp only
    rw [CMD.int32_header, CMD.uint64_header, if_neg hneg, Int32.toInt_ofNat_of_lt h,
      Int.toNat_natCast, Reader.readInto_of_fills hsecond, hparam]
    dsimp only
    rw [List.append_assoc]
    rfl

theorem decodes_back_iff {c : CMD} (h : c.param.length < 2 ^ 31) {s : σ}
    (hd : reader.Delivers c.encode s) :
    (∀ spare, decode c.encode spare = .ok c) ∧
        (∃ state, decodeWithReader reader ⟨s,[]⟩ = (.ok c,⟨state,c.encode⟩)) ↔
      c.param.length + 13 < 2 ^ 31 ∧ reader.Fills s 13 ∧
        reader.Fills (reader.read s 13).2.2 c.param.length := by
  have hslice : (∀ spare, decode c.encode spare = .ok c) ↔ c.param.length + 13 < 2 ^ 31 := by
    simp only [decode_encode h, forall_const]
  rw [hslice]
  exact and_congr_right fun _ => decodeWithReader_iff h (s := ⟨s,[]⟩) hd

theorem decodes_back_connect :
    let c : CMD := ⟨1,232323,[8,10]⟩
    (∀ spare, decode c.encode spare = .ok c) ∧
      ∃ state, decodeWithReader (Reader.chunked 1460) ⟨c.encode ++ [11],[]⟩ =
        (.ok c,⟨state,c.encode⟩) :=
  (decodes_back_iff (by decide) (Reader.chunked_delivers (by decide) _ _)).mpr
    ⟨by decide,⟨rfl,rfl⟩,rfl,rfl⟩

theorem ping_misread_byte_by_byte :
    let c : CMD := ⟨10,7,[]⟩
    (Reader.chunked 1).Delivers c.encode c.encode ∧
      decodeWithReader (Reader.chunked 1) ⟨c.encode,[]⟩ =
        (.ok ⟨10,0,[]⟩,⟨c.encode.drop 1,[10]⟩) ∧
      ¬∃ state, decodeWithReader (Reader.chunked 1) ⟨c.encode,[]⟩ = (.ok c,⟨state,c.encode⟩) := by
  intro c
  have hd := Reader.chunked_delivers (show 0 < 1 by decide) c.encode []
  rw [List.append_nil] at hd
  have hmisread : decodeWithReader (Reader.chunked 1) ⟨c.encode,[]⟩ =
      (.ok ⟨10,0,[]⟩,⟨c.encode.drop 1,[10]⟩) := by
    decide
  refine ⟨hd,hmisread,?_⟩
  rintro ⟨state,h⟩
  rw [hmisread] at h
  have hid : (0 : UInt64) = 7 := congrArg CMD.id (Outcome.ok.inj (Prod.mk.inj h).1)
  exact absurd hid (by decide)

end Stream

end LiMaoIM.ProxyProto

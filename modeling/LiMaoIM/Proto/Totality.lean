import LiMaoIM.Proto.Protocol

namespace LiMaoIM.Proto

open Outcome ByteReader Decoder

def layoutConnect (data : Bytes) : List Field :=
  .fixed 1 :: ((if 2 < data.headD 0 then [.counted] else []) ++
    [.fixed 1,.counted,.fixed 8,.counted,.counted])

def layout (version : UInt8) (data : Bytes) : PacketType → List Field
  | .connect => layoutConnect data
  | .connack => (if 2 < version then [.counted] else []) ++
      ((if 2 < version then [.counted] else []) ++ [.fixed 8,.fixed 1])
  | .send => (if 3 < version then [.fixed 1] else []) ++
      ((if 2 < version then [.counted] else []) ++ (.fixed 4 ::
        ((if 1 < version then [.counted] else []) ++ [.counted,.fixed 1,.rest])))
  | .sendack => [.fixed 4,.fixed 8,.fixed 4,.fixed 1]
  | .recv => (if 3 < version then [.fixed 1] else []) ++
      ((if 2 < version then [.counted] else []) ++ (.fixed 8 :: .fixed 4 ::
        ((if 1 < version then [.counted] else []) ++
          [.fixed 4,.counted,.fixed 1,.counted,.rest])))
  | .recvack => [.fixed 8,.fixed 4]
  | .disconnect => [.fixed 1,.counted]
  | _ => []

theorem readBuf_short {n : Nat} {bs : Bytes} (h : bs.length < n) : ∃ e, readBuf n bs = .error e := by
  by_cases hnil : bs = []
  · exact ⟨_,by simp only [readBuf, if_pos hnil]; rfl⟩
  · exact ⟨_,by simp only [readBuf, if_neg hnil, if_pos h]; rfl⟩

theorem readBuf_enough {n : Nat} {bs : Bytes} (hn : 0 < n) (h : ¬ bs.length < n) :
    readBuf n bs = .ok (bs.take n,bs.drop n) := by
  have hnil : bs ≠ [] := by
    rintro rfl
    simp at h
    omega
  simp only [readBuf, if_neg hnil, if_neg h]

theorem follows_readBuf {n : Nat} (hn : 0 < n) : Follows (readBuf n) (.fixed n) := by
  intro bs
  by_cases hl : bs.length < n
  · simpa only [Field.advance, if_pos hl] using readBuf_short hl
  · simp only [Field.advance, if_neg hl, readBuf_enough hn hl]
    exact ⟨_,rfl⟩

theorem follows_uint8 : Follows uint8 (.fixed 1) := (follows_readBuf (by omega)).map _

theorem follows_int64 : Follows int64 (.fixed 8) := (follows_readBuf (by omega)).map _

theorem follows_int32 : Follows int32 (.fixed 4) := (follows_readBuf (by omega)).map _

theorem follows_uint32 : Follows uint32 (.fixed 4) := follows_int32.map _

theorem int16_enough {bs : Bytes} (h : ¬ bs.length < 2) :
    int16 bs = .ok ((UInt16.ofNat (Bytes.uint (bs.take 2))).toInt16,bs.drop 2) := by
  rw [int16, bind_apply, readBuf_enough (by omega) h]
  rfl

theorem uint_take_two_lt (bs : Bytes) : Bytes.uint (bs.take 2) < 2 ^ 16 := by
  have h := Bytes.uint_lt (bs.take 2)
  have hl : (bs.take 2).length ≤ 2 := List.length_take_le 2 bs
  calc Bytes.uint (bs.take 2) < 256 ^ (bs.take 2).length := h
    _ ≤ 256 ^ 2 := Nat.pow_le_pow_right (by norm_num) hl
    _ = 2 ^ 16 := by norm_num

theorem binary_enough {bs : Bytes} (h : ¬ bs.length < 2) {n : Nat}
    (hn : Bytes.uint (bs.take 2) = n) :
    binary bs = makeslice (UInt16.ofNat n).toInt16 (bs.drop 2) >>= fun p =>
      (if (UInt16.ofNat n).toInt16 = 0 then pure []
        else readBuf (UInt16.ofNat n).toInt16.toInt.toNat : ByteReader Bytes) p.2 := by
  subst hn
  rw [binary, bind_apply, int16_enough h]
  rfl

theorem follows_string : Follows string .counted := by
  intro bs
  by_cases hl : bs.length < 2
  · obtain ⟨e,he⟩ := readBuf_short hl
    simp only [Field.advance, if_pos hl]
    exact ⟨e,by simp only [string, binary, int16, bind_apply, he, error_bind]⟩
  obtain ⟨n,hn⟩ : ∃ n, Bytes.uint (bs.take 2) = n := ⟨_,rfl⟩
  have hlt : n < 2 ^ 16 := hn ▸ uint_take_two_lt bs
  simp only [Field.advance, if_neg hl, hn, string, binary_enough hl hn]
  by_cases hneg : 2 ^ 15 ≤ n
  · have hm := (int16_neg_iff n hlt).mpr hneg
    simp only [if_pos hneg, makeslice, if_pos hm]
    exact ⟨_,rfl⟩
  have hm : ¬ (UInt16.ofNat n).toInt16 < 0 := fun h => hneg ((int16_neg_iff n hlt).mp h)
  simp only [if_neg hneg, makeslice, if_neg hm, ok_bind]
  by_cases h0 : n = 0
  · have hz := (int16_eq_zero_iff n hlt).mpr h0
    have hs : ¬ bs.length < 2 + n := by omega
    simp only [if_pos hz, if_neg hs]
    exact ⟨[],by rw [h0]; rfl⟩
  have hz : ¬ (UInt16.ofNat n).toInt16 = 0 := fun h => h0 ((int16_eq_zero_iff n hlt).mp h)
  have hv : (UInt16.ofNat n).toInt16.toInt.toNat = n := by
    rw [toInt_int16 n hlt, if_pos (by omega), Int.toNat_natCast]
  simp only [if_neg hz, hv]
  by_cases hs : bs.length < 2 + n
  · have hd : (bs.drop 2).length < n := by rw [List.length_drop]; omega
    simpa only [if_pos hs] using readBuf_short hd
  · have hd : ¬ (bs.drop 2).length < n := by rw [List.length_drop]; omega
    simp only [if_neg hs, readBuf_enough (Nat.pos_of_ne_zero h0) hd, List.drop_drop]
    exact ⟨_,rfl⟩

theorem follows_binaryAll : Follows binaryAll .rest := by
  intro bs
  exact ⟨bs,finishes_binaryAll bs⟩

theorem hasLayout_decodeConnack (f : Framer) (v : UInt8) (data : Bytes) :
    HasLayout (decodeConnack f v) (layout v data .connack) := by
  refine (follows_string.wrap _).bind_when fun _ => ?_
  refine (follows_string.wrap _).bind_when fun _ => ?_
  refine (follows_int64.wrap _).bind fun _ => ?_
  exact (follows_uint8.wrap _).bind fun _ => hasLayout_pure _

theorem hasLayout_decodeSend (f : Framer) (v : UInt8) (data : Bytes) :
    HasLayout (decodeSend f v) (layout v data .send) := by
  refine (follows_uint8.wrap _).bind_when fun _ => ?_
  refine (follows_string.wrap _).bind_when fun _ => ?_
  refine (follows_uint32.wrap _).bind fun _ => ?_
  refine (follows_string.wrap _).bind_when fun _ => ?_
  refine (follows_string.wrap _).bind fun _ => ?_
  refine (follows_uint8.wrap _).bind fun _ => ?_
  exact (follows_binaryAll.wrap _).bind fun _ => hasLayout_pure _

theorem hasLayout_decodeSendack (f : Framer) (v : UInt8) (data : Bytes) :
    HasLayout (decodeSendack f v) (layout v data .sendack) := by
  refine (follows_uint32.wrap _).bind fun _ => ?_
  refine (follows_int64.wrap _).bind fun _ => ?_
  refine (follows_uint32.wrap _).bind fun _ => ?_
  exact (follows_uint8.wrap _).bind fun _ => hasLayout_pure _

theorem hasLayout_decodeRecv (f : Framer) (v : UInt8) (data : Bytes) :
    HasLayout (decodeRecv f v) (layout v data .recv) := by
  refine (follows_uint8.wrap _).bind_when fun _ => ?_
  refine (follows_string.wrap _).bind_when fun _ => ?_
  refine (follows_int64.wrap _).bind fun _ => ?_
  refine (follows_uint32.wrap _).bind fun _ => ?_
  refine (follows_string.wrap _).bind_when fun _ => ?_
  refine (follows_int32.wrap _).bind fun _ => ?_
  refine (follows_string.wrap _).bind fun _ => ?_
  refine (follows_uint8.wrap _).bind fun _ => ?_
  refine (follows_string.wrap _).bind fun _ => ?_
  exact (follows_binaryAll.wrap _).bind fun _ => hasLayout_pure _

theorem hasLayout_decodeRecvack (f : Framer) (v : UInt8) (data : Bytes) :
    HasLayout (decodeRecvack f v) (layout v data .recvack) := by
  refine (follows_int64.wrap _).bind fun _ => ?_
  exact (follows_uint32.wrap _).bind fun _ => hasLayout_pure _

theorem hasLayout_decodeDisConnect (f : Framer) (v : UInt8) (data : Bytes) :
    HasLayout (decodeDisConnect f v) (layout v data .disconnect) := by
  refine (follows_uint8.wrap _).bind fun _ => ?_
  exact (follows_string.wrap _).bind fun _ => hasLayout_pure _

theorem decodeConnect_panics (f : Framer) (v : UInt8) (data : Bytes) :
    (decodeConnect f v data).Panics ↔ reachesNegative (layout v data .connect) data = true := by
  cases data with
  | nil => simp [decodeConnect, bind_apply, wrap, uint8, readBuf, mapError, Panics, layout,
      layoutConnect, reachesNegative, Field.advance]
  | cons version data =>
    have hread : decodeConnect f v (version :: data) = (do
        let clientKey ← when (2 < version) [] (wrap "解码ClientKey失败！" string)
        let deviceFlag ← wrap "解码DeviceFlag失败！" uint8
        let deviceID ← wrap "解码DeviceId失败！" string
        let clientTimestamp ← wrap "解码ClientTimestamp失败！" int64
        let uid ← wrap "解码UID失败！" string
        let token ← wrap "解码Token失败！" string
        pure ⟨f,version,clientKey,deviceID,deviceFlag,clientTimestamp,uid,token⟩ :
          ByteReader ConnectPacket) data := rfl
    have htail : reachesNegative (layout v (version :: data) .connect) (version :: data) =
        reachesNegative ((if 2 < version then [.counted] else []) ++
          [.fixed 1,.counted,.fixed 8,.counted,.counted]) data := by
      simp [layout, layoutConnect, reachesNegative, Field.advance]
    rw [hread, htail]
    refine ((follows_string.wrap _).bind_when fun _ => ?_) data
    refine (follows_uint8.wrap _).bind fun _ => ?_
    refine (follows_string.wrap _).bind fun _ => ?_
    refine (follows_int64.wrap _).bind fun _ => ?_
    refine (follows_string.wrap _).bind fun _ => ?_
    exact (follows_string.wrap _).bind fun _ => hasLayout_pure _

theorem decodeFrame_panics {α : Type} {c : α → Frame} {decode : Framer → UInt8 → ByteReader α}
    {f : Framer} {v : UInt8} {data : Bytes} :
    (decodeFrame c decode f data v).Panics ↔ (decode f v data).Panics := by
  rw [decodeFrame, bind_panics]
  simp [Panics]

theorem body_decoders_return_iff (t : PacketType) (decodeFunc : PacketDecodeFunc)
    (ht : packetDecodeMap t = some decodeFunc) (frame : Framer) (version : UInt8) (data : Bytes) :
    (decodeFunc frame data version).Returns ↔
      reachesNegative (layout version data t) data = false := by
  rw [returns_iff_not_panics, ← Bool.not_eq_true, not_iff_not]
  cases t <;> simp only [packetDecodeMap, Option.some.injEq, reduceCtorEq] at ht <;> subst ht <;>
    rw [decodeFrame_panics]
  · exact decodeConnect_panics frame version data
  · exact hasLayout_decodeConnack frame version data data
  · exact hasLayout_decodeSend frame version data data
  · exact hasLayout_decodeSendack frame version data data
  · exact hasLayout_decodeRecv frame version data data
  · exact hasLayout_decodeRecvack frame version data data
  · exact hasLayout_decodeDisConnect frame version data data

theorem body_decoders_return_disconnect :
    (decodeFrame .disconnect decodeDisConnect {} [0,0,1,65] 4).Returns :=
  (body_decoders_return_iff .disconnect _ rfl {} 4 [0,0,1,65]).mpr (by decide)

def hostileDisconnect : Bytes := [0,0x80,0]

theorem hostileDisconnect_panics :
    packetDecodeMap .disconnect = some (decodeFrame .disconnect decodeDisConnect) ∧
      hostileDisconnect.length ≤ maxRemaingLength.toNat ∧
      ¬ (decodeFrame .disconnect decodeDisConnect {} hostileDisconnect 4).Returns := by
  refine ⟨rfl,by decide,?_⟩
  rw [returns_iff_not_panics, not_not]
  exact ⟨_,rfl⟩

end LiMaoIM.Proto

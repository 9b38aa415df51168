import LiMaoIM.Proto.Codec

namespace LiMaoIM.Proto

open ByteReader Decoder Encoder

def Consumes {α : Type} (r : ByteReader α) (encode : α → Bytes) : Prop :=
  ∀ {bs rest : Bytes} {a : α}, r bs = .ok (a,rest) → bs = encode a ++ rest

theorem readBuf_eq_ok {n : Nat} {bs b rest : Bytes} (h : readBuf n bs = .ok (b,rest)) :
    bs = b ++ rest ∧ b.length = n := by
  rw [readBuf] at h
  split at h
  · cases h
  · split at h
    · cases h
    · rename_i hlen
      cases h
      exact ⟨(List.take_append_drop n bs).symm,by rw [List.length_take]; omega⟩

theorem consumes_uint {α : Type} {w : Nat} {g : Nat → α} {encode : α → Bytes}
    (h : ∀ n, n < 256 ^ w → encode (g n) = Bytes.putUint w n) :
    Consumes (do let b ← readBuf w; pure (g (Bytes.uint b))) encode := by
  intro bs rest a hr
  obtain ⟨b,mid,hread,hpure⟩ := ByteReader.bind_eq_ok.mp hr
  obtain ⟨rfl,rfl⟩ := readBuf_eq_ok hread
  cases hpure
  rw [h _ (Bytes.uint_lt b), Bytes.putUint_uint]

theorem consumes_uint8 : Consumes uint8 writeUint8 := by
  intro bs rest a hr
  obtain ⟨b,mid,hread,hpure⟩ := ByteReader.bind_eq_ok.mp hr
  obtain ⟨rfl,hlen⟩ := readBuf_eq_ok hread
  cases hpure
  obtain ⟨c,rfl⟩ := List.length_eq_one_iff.mp hlen
  rfl

theorem consumes_int64 : Consumes int64 writeInt64 := by
  refine consumes_uint (w := 8) (g := fun n => (UInt64.ofNat n).toInt64) fun n hn => ?_
  rw [writeInt64, UInt64.toUInt64_toInt64, UInt64.toNat_ofNat_of_lt' (by simpa using hn)]

theorem consumes_int32 : Consumes int32 writeInt32 := by
  refine consumes_uint (w := 4) (g := fun n => (UInt32.ofNat n).toInt32) fun n hn => ?_
  rw [writeInt32, UInt32.toUInt32_toInt32, UInt32.toNat_ofNat_of_lt' (by simpa using hn)]

theorem consumes_uint32 : Consumes uint32 writeUint32 := by
  intro bs rest a hr
  obtain ⟨i,mid,hread,hpure⟩ := ByteReader.bind_eq_ok.mp hr
  cases hpure
  exact consumes_int32 hread

theorem binary_eq_ok {bs b rest : Bytes} (h : binary bs = .ok (b,rest)) :
    bs = writeBinary b ++ rest ∧ b.length < 2 ^ 15 := by
  obtain ⟨size,mid,hsize,h⟩ := ByteReader.bind_eq_ok.mp h
  obtain ⟨u,mid',hmake,h⟩ := ByteReader.bind_eq_ok.mp h
  obtain ⟨w,mid₀,hread,hpure⟩ := ByteReader.bind_eq_ok.mp hsize
  obtain ⟨rfl,hlen⟩ := readBuf_eq_ok hread
  cases hpure
  have hlt : Bytes.uint w < 2 ^ 16 := by
    have hu := Bytes.uint_lt w
    rw [hlen] at hu
    omega
  rw [makeslice] at hmake
  split at hmake
  · cases hmake
  · rename_i hneg
    cases hmake
    rw [int16_neg_iff _ hlt, Nat.not_le] at hneg
    have hw : writeInt16 (Bytes.uint w) = w := by
      rw [writeInt16, ← hlen, Bytes.putUint_uint]
    split at h
    · rename_i hz
      cases h
      rw [int16_eq_zero_iff _ hlt] at hz
      rw [hz] at hw
      exact ⟨by rw [writeBinary, if_pos List.length_nil, hw],by simp⟩
    · rename_i hz
      rw [int16_eq_zero_iff _ hlt] at hz
      rw [toInt_int16 _ hlt, if_pos hneg, Int.toNat_natCast] at h
      obtain ⟨rfl,hb⟩ := readBuf_eq_ok h
      refine ⟨?_,by omega⟩
      rw [writeBinary, if_neg (by omega), hb, hw, List.append_assoc]

theorem consumes_string : Consumes string writeString := fun h => (binary_eq_ok h).1

theorem binaryAll_eq_ok {bs b rest : Bytes} (h : binaryAll bs = .ok (b,rest)) :
    bs = b ∧ rest = [] := by
  have hall := finishes_binaryAll bs
  rw [Finishes, h] at hall
  cases hall
  exact ⟨rfl,rfl⟩

end LiMaoIM.Proto

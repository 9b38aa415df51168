import LiMaoIM.Foundation.ByteReader

namespace LiMaoIM.Proto

open ByteReader

namespace Decoder

def readBuf (n : Nat) : ByteReader Bytes := fun bs =>
  if bs = [] then .error "EOF"
  else if bs.length < n then
    .error ("Decoder couldn't read expect bytes " ++ toString bs.length ++ " of " ++ toString n)
  else .ok (bs.take n,bs.drop n)

def uint8 : ByteReader UInt8 := do
  let b ← readBuf 1
  pure (b.headD 0)

def int16 : ByteReader Int16 := do
  let b ← readBuf 2
  pure (UInt16.ofNat (Bytes.uint b)).toInt16

def int64 : ByteReader Int64 := do
  let b ← readBuf 8
  pure (UInt64.ofNat (Bytes.uint b)).toInt64

def int32 : ByteReader Int32 := do
  let b ← readBuf 4
  pure (UInt32.ofNat (Bytes.uint b)).toInt32

def uint32 : ByteReader UInt32 := do
  let i ← int32
  pure i.toUInt32

def makeslice (size : Int16) : ByteReader Unit := fun bs =>
  if size < 0 then .panic "runtime error: makeslice: len out of range" else .ok ((),bs)

def binary : ByteReader Bytes := do
  let size ← int16
  makeslice size
  if size = 0 then pure [] else readBuf size.toInt.toNat

def string : ByteReader Bytes := binary

def binaryAll : ByteReader Bytes := fun bs =>
  if bs.length = 0 then .ok ([],bs) else readBuf bs.length bs

end Decoder

namespace Encoder

def writeUint8 (i : UInt8) : Bytes := [i]

def writeInt16 (i : Nat) : Bytes := Bytes.putUint 2 i

def writeInt32 (i : Int32) : Bytes := Bytes.putUint 4 i.toUInt32.toNat

def writeInt64 (i : Int64) : Bytes := Bytes.putUint 8 i.toUInt64.toNat

def writeUint32 (i : UInt32) : Bytes := Bytes.putUint 4 i.toNat

def writeBinary (b : Bytes) : Bytes :=
  if b.length = 0 then writeInt16 0 else writeInt16 b.length ++ b

def writeString (str : Bytes) : Bytes := writeBinary str

end Encoder

open Decoder Encoder

theorem reads_readBuf {bs : Bytes} {n : Nat} (hn : 0 < n) (hl : bs.length = n) :
    Reads (readBuf n) bs bs := by
  intro rest
  have hne : bs ++ rest ≠ [] := by
    intro h
    rw [List.append_eq_nil_iff] at h
    simp [h.1] at hl
    omega
  have hlen : ¬ (bs ++ rest).length < n := by simp [hl]
  subst hl
  simp only [readBuf, if_neg hne, if_neg hlen, List.take_left, List.drop_left]

theorem reads_uint8 (i : UInt8) : Reads uint8 (writeUint8 i) i := by
  have h := (reads_readBuf one_pos (rfl : [i].length = 1)).bind (f := fun b => pure (b.headD 0))
    (reads_pure i)
  simpa [uint8, writeUint8] using h

theorem reads_uint {α : Type} {w n : Nat} (hw : 0 < w) (hn : n < 256 ^ w) {g : Nat → α} :
    Reads (do let b ← readBuf w; pure (g (Bytes.uint b))) (Bytes.putUint w n) (g n) := by
  have h := (reads_readBuf hw (Bytes.length_putUint w n)).bind
    (f := fun b => pure (g (Bytes.uint b))) (reads_pure _)
  rwa [List.append_nil, Bytes.uint_putUint_of_lt hn] at h

theorem reads_int64 (i : Int64) : Reads int64 (writeInt64 i) i := by
  have h := reads_uint (w := 8) (n := i.toUInt64.toNat) (by omega) i.toUInt64.toNat_lt
    (g := fun n => (UInt64.ofNat n).toInt64)
  simpa [int64, writeInt64] using h

theorem reads_int32 (i : Int32) : Reads int32 (writeInt32 i) i := by
  have h := reads_uint (w := 4) (n := i.toUInt32.toNat) (by omega) i.toUInt32.toNat_lt
    (g := fun n => (UInt32.ofNat n).toInt32)
  simpa [int32, writeInt32] using h

theorem reads_uint32 (i : UInt32) : Reads uint32 (writeUint32 i) i := by
  have h := (reads_int32 i.toInt32).bind (f := fun j => pure j.toUInt32) (reads_pure _)
  simpa [uint32, writeInt32, writeUint32] using h

theorem toInt_int16 (n : Nat) (h : n < 2 ^ 16) :
    (UInt16.ofNat n).toInt16.toInt = if n < 2 ^ 15 then (n : Int) else n - 2 ^ 16 := by
  have ht : (UInt16.ofNat n).toInt16.toInt = (BitVec.ofNat 16 n).toInt := rfl
  rw [ht, BitVec.toInt_eq_toNat_cond, BitVec.toNat_ofNat, Nat.mod_eq_of_lt h]
  split <;> split <;> omega

theorem int16_neg_iff (n : Nat) (h : n < 2 ^ 16) :
    (UInt16.ofNat n).toInt16 < 0 ↔ 2 ^ 15 ≤ n := by
  rw [Int16.lt_iff_toInt_lt, toInt_int16 n h]
  split <;> simp <;> omega

theorem int16_eq_zero_iff (n : Nat) (h : n < 2 ^ 16) :
    (UInt16.ofNat n).toInt16 = 0 ↔ n = 0 := by
  rw [← Int16.toInt_inj, toInt_int16 n h]
  split
  · simp
  · simp
    omega

theorem reads_binary (b : Bytes) (h : b.length < 2 ^ 15) : Reads binary (writeBinary b) b := by
  have hl : b.length < 2 ^ 16 := by omega
  have hi : Reads int16 (writeInt16 b.length) (UInt16.ofNat b.length).toInt16 :=
    reads_uint (w := 2) (g := fun n => (UInt16.ofNat n).toInt16) (by omega) hl
  have hneg : ¬ (UInt16.ofNat b.length).toInt16 < 0 := by rw [int16_neg_iff _ hl]; omega
  have hm : Reads (makeslice (UInt16.ofNat b.length).toInt16) [] () := by
    intro rest
    simp only [makeslice, if_neg hneg, List.nil_append]
  have htail : Reads (if (UInt16.ofNat b.length).toInt16 = 0 then pure []
      else readBuf (UInt16.ofNat b.length).toInt16.toInt.toNat) b b := by
    by_cases h0 : b.length = 0
    · rw [if_pos ((int16_eq_zero_iff _ hl).mpr h0), List.length_eq_zero_iff.mp h0]
      exact reads_pure []
    · rw [if_neg (fun hz => h0 ((int16_eq_zero_iff _ hl).mp hz)), toInt_int16 _ hl, if_pos h,
        Int.toNat_natCast]
      exact reads_readBuf (Nat.pos_of_ne_zero h0) rfl
  have hall : Reads binary (writeInt16 b.length ++ b) b :=
    hi.bind (hm.bind (f := fun _ => _) htail)
  rw [writeBinary]
  split
  · rename_i h0
    rw [h0, List.length_eq_zero_iff.mp h0, List.append_nil] at hall
    rw [List.length_eq_zero_iff.mp h0]
    exact hall
  · exact hall

theorem reads_string (str : Bytes) (h : str.length ≤ 32767) :
    Reads string (writeString str) str := reads_binary str (by omega)

theorem binary_writeBinary_long {b : Bytes} (h : 2 ^ 15 ≤ b.length % 2 ^ 16) :
    (binary (writeBinary b)).Panics := by
  have hlt : b.length % 2 ^ 16 < 2 ^ 16 := Nat.mod_lt _ (by omega)
  have hi : Reads int16 (writeInt16 b.length) (UInt16.ofNat (b.length % 2 ^ 16)).toInt16 := by
    rw [writeInt16, ← Bytes.putUint_mod]
    exact reads_uint (w := 2) (g := fun n => (UInt16.ofNat n).toInt16) (by omega) hlt
  have hneg := (int16_neg_iff _ hlt).mpr h
  have hne : ¬ b.length = 0 := by omega
  rw [writeBinary, if_neg hne, binary, bind_apply, hi, Outcome.ok_bind, bind_apply, makeslice,
    if_pos hneg]
  exact ⟨_,rfl⟩

theorem binary_writeBinary_wrapped {b : Bytes} (h : b.length % 2 ^ 16 < 2 ^ 15) :
    binary (writeBinary b) =
      .ok (b.take (b.length % 2 ^ 16),b.drop (b.length % 2 ^ 16)) := by
  have hcut : (b.take (b.length % 2 ^ 16)).length = b.length % 2 ^ 16 := by
    rw [List.length_take]
    exact Nat.min_eq_left (Nat.mod_le _ _)
  have hpre : writeBinary b =
      writeBinary (b.take (b.length % 2 ^ 16)) ++ b.drop (b.length % 2 ^ 16) := by
    have hint : writeInt16 b.length = writeInt16 (b.length % 2 ^ 16) :=
      (Bytes.putUint_mod 2 b.length).symm
    rw [writeBinary, writeBinary, hcut]
    split
    · rename_i hz
      rw [List.length_eq_zero_iff.mp hz]
      rfl
    · rw [hint]
      split
      · rename_i hz
        rw [hz, List.drop_zero]
      · rw [List.append_assoc, List.take_append_drop]
  rw [hpre]
  exact reads_binary _ (by omega) _

theorem finishes_binaryAll (bs : Bytes) : Finishes binaryAll bs bs := by
  cases bs with
  | nil => rfl
  | cons b bs => simp [Finishes, binaryAll, readBuf]

end LiMaoIM.Proto

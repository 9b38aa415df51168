import LiMaoIM.Foundation.AesInverse
import LiMaoIM.Util.Aes

namespace LiMaoIM.Util

open Outcome Aes

def KeySize (key : Bytes) : Prop := key.length = 16 ∨ key.length = 24 ∨ key.length = 32

instance (key : Bytes) : Decidable (KeySize key) :=
  inferInstanceAs (Decidable (key.length = 16 ∨ key.length = 24 ∨ key.length = 32))

def Encrypted (key iv origData : Bytes) : Bytes :=
  Base64.encodeToString (cbc.encrypt key iv (pkcs7Padding origData blockSize))

variable {key iv : Bytes}

theorem newCipher_of_keySize (hkey : KeySize key) : newCipher key = .ok () := if_pos hkey

theorem padding_bounds (bs : Bytes) :
    0 < blockSize - bs.length % blockSize ∧ blockSize - bs.length % blockSize ≤ 16 := by
  have hlt : bs.length % blockSize < blockSize := Nat.mod_lt _ (by decide)
  simp only [blockSize] at hlt ⊢
  omega

theorem pkcs7UnPadding_pkcs7Padding (bs : Bytes) :
    pkcs7UnPadding (pkcs7Padding bs blockSize) = .ok bs := by
  obtain ⟨hpos,hle⟩ := padding_bounds bs
  have hpadding : (UInt8.ofNat (blockSize - bs.length % blockSize)).toNat =
      blockSize - bs.length % blockSize := by
    rw [UInt8.toNat_ofNat']
    exact Nat.mod_eq_of_lt (by omega)
  have hlast : (pkcs7Padding bs blockSize).getLast? =
      some (UInt8.ofNat (blockSize - bs.length % blockSize)) := by
    rw [pkcs7Padding,List.getLast?_append,List.getLast?_replicate,if_neg (by omega)]
    rfl
  have hlen : (pkcs7Padding bs blockSize).length =
      bs.length + (blockSize - bs.length % blockSize) := by
    rw [pkcs7Padding,List.length_append,List.length_replicate]
  rw [pkcs7UnPadding,hlast]
  simp only [hpadding,hlen]
  rw [if_pos (Nat.le_add_left _ _),Nat.add_sub_cancel,pkcs7Padding,List.take_left]

theorem encrypt_ok (hkey : KeySize key) (hiv : iv.length = blockSize) (origData : Bytes) :
    aesEncryptPkcs7Base64 cbc origData key iv = .ok (Encrypted key iv origData) := by
  have hfull : cryptBlocks (cbc.encrypt key iv) (pkcs7Padding origData blockSize) =
      .ok (cbc.encrypt key iv (pkcs7Padding origData blockSize)) := by
    rw [cryptBlocks,if_pos (length_pkcs7Padding origData)]
  rw [aesEncryptPkcs7Base64,aesEncrypt,newCipher_of_keySize hkey,ok_bind,newBlockMode_ok hiv,
    ok_bind,hfull]
  rfl

theorem decrypt_encrypted (hkey : KeySize key) (hiv : iv.length = blockSize) (origData : Bytes) :
    aesDecryptPkcs7Base64 cbc (Encrypted key iv origData) key iv = .ok origData := by
  have hpadded := length_pkcs7Padding origData
  have hlen := cbc.length_encrypt key iv _ hpadded
  rw [aesDecryptPkcs7Base64,Encrypted,Base64.decodeString_encodeToString]
  simp only
  rw [aesDecrypt,newCipher_of_keySize hkey,ok_bind,newBlockMode_ok hiv,ok_bind,cryptBlocks,hlen,
    if_pos hpadded,cbc_decrypt_encrypt key hpadded hiv,ok_bind,pkcs7UnPadding_pkcs7Padding]

theorem newCipher_eq_ok {u : Unit} (h : newCipher key = .ok u) : KeySize key := by
  by_contra hsize
  have hbad : newCipher key = .error keySizeError := if_neg hsize
  cases hbad.symm.trans h

theorem newBlockMode_eq_ok {u : Unit} (h : newBlockMode iv = .ok u) : iv.length = blockSize := by
  by_contra hlen
  rw [newBlockMode,if_neg hlen] at h
  cases h

theorem encrypt_eq_ok {origData crypted : Bytes}
    (h : aesEncryptPkcs7Base64 cbc origData key iv = .ok crypted) :
    KeySize key ∧ iv.length = blockSize := by
  obtain ⟨data,hdata,-⟩ := bind_eq_ok.mp h
  obtain ⟨_,hkey,hrest⟩ := bind_eq_ok.mp hdata
  obtain ⟨_,hiv,-⟩ := bind_eq_ok.mp hrest
  exact ⟨newCipher_eq_ok hkey,newBlockMode_eq_ok hiv⟩

theorem aes_round_trips_iff (key iv origData : Bytes) :
    (∃ crypted, aesEncryptPkcs7Base64 cbc origData key iv = .ok crypted ∧
      aesDecryptPkcs7Base64 cbc crypted key iv = .ok origData) ↔
      KeySize key ∧ iv.length = blockSize := by
  constructor
  · rintro ⟨crypted,hencrypt,-⟩
    exact encrypt_eq_ok hencrypt
  · rintro ⟨hkey,hiv⟩
    exact ⟨_,encrypt_ok hkey hiv origData,decrypt_encrypted hkey hiv origData⟩

end LiMaoIM.Util

import LiMaoIM.Foundation.Aes
import LiMaoIM.Foundation.Base64
import LiMaoIM.Foundation.Outcome

namespace LiMaoIM.Util

open Outcome Aes

def keySizeError : String := "crypto/aes: invalid key size"

def ivLength : String := "cipher.NewCBCEncrypter: IV length must equal block size"

def notFullBlocks : String := "crypto/cipher: input not full blocks"

def indexOutOfRange : String := "runtime error: index out of range [-1]"

def sliceBoundsOutOfRange : String := "runtime error: slice bounds out of range"

def newCipher (key : Bytes) : Outcome Unit :=
  if key.length = 16 ∨ key.length = 24 ∨ key.length = 32 then .ok () else .error keySizeError

def newBlockMode (iv : Bytes) : Outcome Unit :=
  if iv.length = blockSize then .ok () else .panic ivLength

def cryptBlocks (crypt : Bytes → Bytes) (src : Bytes) : Outcome Bytes :=
  if src.length % blockSize = 0 then .ok (crypt src) else .panic notFullBlocks

def pkcs7Padding (ciphertext : Bytes) (blockSize : Nat) : Bytes :=
  let padding := blockSize - ciphertext.length % blockSize
  ciphertext ++ List.replicate padding (UInt8.ofNat padding)

def pkcs7UnPadding (origData : Bytes) : Outcome Bytes :=
  match origData.getLast? with
  | none => .panic indexOutOfRange
  | some unpadding =>
      if unpadding.toNat ≤ origData.length then
        .ok (origData.take (origData.length - unpadding.toNat))
      else .panic sliceBoundsOutOfRange

def aesEncrypt (mode : BlockMode) (origData key iv : Bytes) (padding : Bytes → Nat → Bytes) :
    Outcome Bytes := do
  newCipher key
  newBlockMode iv
  cryptBlocks (mode.encrypt key iv) (padding origData blockSize)

def aesDecrypt (mode : BlockMode) (crypted key iv : Bytes) (unPadding : Bytes → Outcome Bytes) :
    Outcome Bytes := do
  newCipher key
  newBlockMode iv
  let origData ← cryptBlocks (mode.decrypt key iv) crypted
  unPadding origData

def aesEncryptPkcs7Base64 (mode : BlockMode) (origData key iv : Bytes) : Outcome Bytes := do
  let data ← aesEncrypt mode origData key iv pkcs7Padding
  pure (Base64.encodeToString data)

def corruptInput : String := "illegal base64 data"

def aesDecryptPkcs7Base64 (mode : BlockMode) (crypted key iv : Bytes) : Outcome Bytes :=
  match Base64.decodeString crypted with
  | none => .error corruptInput
  | some cryptedData => aesDecrypt mode cryptedData key iv pkcs7UnPadding

variable {mode : BlockMode} {key iv : Bytes}

theorem length_pkcs7Padding (bs : Bytes) : (pkcs7Padding bs blockSize).length % blockSize = 0 := by
  have hlt : bs.length % blockSize < blockSize := Nat.mod_lt _ (by decide)
  simp only [pkcs7Padding, List.length_append, List.length_replicate]
  simp only [blockSize] at hlt ⊢
  omega

theorem newCipher_ok (hkey : key.length = blockSize) : newCipher key = .ok () := by
  have hsize : key.length = 16 := hkey
  rw [newCipher, if_pos (Or.inl hsize)]

theorem newBlockMode_ok (hiv : iv.length = blockSize) : newBlockMode iv = .ok () := by
  rw [newBlockMode, if_pos hiv]

theorem aesEncryptPkcs7Base64_ok (hkey : key.length = blockSize) (hiv : iv.length = blockSize)
    (origData : Bytes) : aesEncryptPkcs7Base64 mode origData key iv =
      .ok (Base64.encodeToString (mode.encrypt key iv (pkcs7Padding origData blockSize))) := by
  have hfull : cryptBlocks (mode.encrypt key iv) (pkcs7Padding origData blockSize) =
      .ok (mode.encrypt key iv (pkcs7Padding origData blockSize)) := by
    rw [cryptBlocks, if_pos (length_pkcs7Padding origData)]
  rw [aesEncryptPkcs7Base64, aesEncrypt, newCipher_ok hkey, ok_bind, newBlockMode_ok hiv, ok_bind,
    hfull]
  rfl

def Unpads (bs : Bytes) : Prop :=
  ∃ unpadding, bs.getLast? = some unpadding ∧ unpadding.toNat ≤ bs.length

theorem pkcs7UnPadding_returns (bs : Bytes) :
    (∃ origData, pkcs7UnPadding bs = .ok origData) ∧ Unpads bs ∨
      (∃ e, pkcs7UnPadding bs = .panic e) ∧ ¬ Unpads bs := by
  rw [pkcs7UnPadding]
  cases hlast : bs.getLast? with
  | none =>
    right
    refine ⟨⟨_,rfl⟩,?_⟩
    rintro ⟨unpadding,h,-⟩
    rw [hlast] at h
    cases h
  | some unpadding =>
    simp only
    split
    · rename_i hle
      exact Or.inl ⟨⟨_,rfl⟩,unpadding,hlast,hle⟩
    · rename_i hlt
      right
      refine ⟨⟨_,rfl⟩,?_⟩
      rintro ⟨unpadding',h,hle⟩
      obtain rfl := Option.some.inj (hlast.symm.trans h)
      exact hlt hle

theorem unpads_decrypt_iff {crypted : Bytes} (hfull : crypted.length % blockSize = 0) :
    Unpads (mode.decrypt key iv crypted) ↔ crypted ≠ [] ∧
      ∀ unpadding, (mode.decrypt key iv crypted).getLast? = some unpadding →
        unpadding.toNat ≤ crypted.length := by
  have hlen := mode.length_decrypt key iv crypted hfull
  constructor
  · rintro ⟨unpadding,hlast,hle⟩
    constructor
    · rintro rfl
      rw [List.eq_nil_of_length_eq_zero hlen] at hlast
      cases hlast
    · intro unpadding' hlast'
      obtain rfl := Option.some.inj (hlast.symm.trans hlast')
      rwa [← hlen]
  · rintro ⟨hne,hall⟩
    have hne' : mode.decrypt key iv crypted ≠ [] := by
      intro h
      rw [h] at hlen
      exact hne (List.eq_nil_of_length_eq_zero hlen.symm)
    refine ⟨_,List.getLast?_eq_getLast_of_ne_nil hne',?_⟩
    rw [hlen]
    exact hall _ (List.getLast?_eq_getLast_of_ne_nil hne')

def Decrypts (mode : BlockMode) (key iv crypted : Bytes) : Prop :=
  crypted ≠ [] ∧ crypted.length % blockSize = 0 ∧
    ∀ unpadding, (mode.decrypt key iv crypted).getLast? = some unpadding →
      unpadding.toNat ≤ crypted.length

theorem aesDecrypt_returns (mode : BlockMode) (hkey : key.length = blockSize)
    (hiv : iv.length = blockSize) (crypted : Bytes) :
    (∃ origData, aesDecrypt mode crypted key iv pkcs7UnPadding = .ok origData) ∧
        Decrypts mode key iv crypted ∨
      (∃ e, aesDecrypt mode crypted key iv pkcs7UnPadding = .panic e) ∧
        ¬ Decrypts mode key iv crypted := by
  rw [aesDecrypt, newCipher_ok hkey, ok_bind, newBlockMode_ok hiv, ok_bind, cryptBlocks]
  split
  · rename_i hfull
    rw [ok_bind]
    rcases pkcs7UnPadding_returns (mode.decrypt key iv crypted) with ⟨hok,hpad⟩ | ⟨hpanic,hpad⟩
    · obtain ⟨hne,hle⟩ := (unpads_decrypt_iff hfull).mp hpad
      exact Or.inl ⟨hok,hne,hfull,hle⟩
    · refine Or.inr ⟨hpanic,?_⟩
      rintro ⟨hne,-,hle⟩
      exact hpad ((unpads_decrypt_iff hfull).mpr ⟨hne,hle⟩)
  · rename_i hfull
    exact Or.inr ⟨⟨_,rfl⟩,fun h => hfull h.2.1⟩

end LiMaoIM.Util

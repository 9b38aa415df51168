import LiMaoIM.Foundation.Bytes

namespace LiMaoIM.Bytes

def spaceWidth : Bytes → Nat
  | 0x09 :: _ | 0x0A :: _ | 0x0B :: _ | 0x0C :: _ | 0x0D :: _ | 0x20 :: _ => 1
  | 0xC2 :: 0x85 :: _ | 0xC2 :: 0xA0 :: _ => 2
  | 0xE1 :: 0x9A :: 0x80 :: _ | 0xE2 :: 0x81 :: 0x9F :: _ | 0xE3 :: 0x80 :: 0x80 :: _ => 3
  | 0xE2 :: 0x80 :: c :: _ => if 0x80 ≤ c ∧ c ≤ 0x8A ∨ c = 0xA8 ∨ c = 0xA9 ∨ c = 0xAF then 3 else 0
  | _ => 0

def isBlankLoop : Nat → Bytes → Bool
  | 0, bs => bs = []
  | fuel + 1, bs => bs = [] ∨ spaceWidth bs ≠ 0 ∧ isBlankLoop fuel (bs.drop (spaceWidth bs))

def isBlank (bs : Bytes) : Bool := isBlankLoop bs.length bs

theorem isBlank_cons {b : UInt8} (hlo : 48 ≤ b.toNat) (hhi : b.toNat ≤ 57) (bs : Bytes) :
    isBlank (b :: bs) = false := by
  have hwidth : spaceWidth (b :: bs) = 0 := by
    rw [spaceWidth]
    all_goals
      intros
      rename_i heq
      obtain ⟨rfl,-⟩ := List.cons.inj heq
      revert hlo hhi
      decide
  rw [isBlank, List.length_cons, isBlankLoop, hwidth]
  simp

example : isBlank (ofString " \t　") = true ∧ isBlank (ofString " a ") = false := by decide

end LiMaoIM.Bytes

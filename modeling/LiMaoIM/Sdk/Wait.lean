import LiMaoIM.Foundation.Assoc
import LiMaoIM.Foundation.Outcome

namespace LiMaoIM.Sdk

structure Wait (ν : Type) where
  e : Nat → List (UInt64 × ν)

namespace Wait

variable {ν : Type}

def defaultListElementLength : Nat := 64

def element (id : UInt64) : Nat := id.toNat % defaultListElementLength

def new : Wait ν := ⟨fun _ => []⟩

def lookup (w : Wait ν) (id : UInt64) : Option ν := Assoc.get id (w.e (element id))

def isRegistered (w : Wait ν) (id : UInt64) : Bool := (w.lookup id).isSome

def register (id : UInt64) (newCh : ν) (w : Wait ν) : Outcome (Wait ν) :=
  if w.isRegistered id then .panic "dup id"
  else .ok ⟨Function.update w.e (element id) (Assoc.put id newCh (w.e (element id)))⟩

def unregister (id : UInt64) (w : Wait ν) : Wait ν :=
  ⟨Function.update w.e (element id) (Assoc.erase id (w.e (element id)))⟩

def trigger (id : UInt64) (w : Wait ν) : Option ν × Wait ν := (w.lookup id,w.unregister id)

variable {id id' : UInt64} {ch : ν} {w w' : Wait ν}

theorem lookup_update (w : Wait ν) (id id' : UInt64) (m : List (UInt64 × ν)) :
    lookup ⟨Function.update w.e (element id) m⟩ id' =
      if element id' = element id then Assoc.get id' m else w.lookup id' := by
  show Assoc.get id' (Function.update w.e (element id) m (element id')) = _
  split
  · rename_i hidx
    rw [hidx,Function.update_self]
  · rename_i hidx
    rw [Function.update_of_ne hidx,lookup]

theorem register_eq_ok (h : w.register id ch = .ok w') :
    w.lookup id = none ∧ ∀ id', w'.lookup id' = if id' = id then some ch else w.lookup id' := by
  rw [register] at h
  split at h
  · cases h
  · rename_i hnone
    obtain rfl := Outcome.ok.inj h
    refine ⟨Option.not_isSome_iff_eq_none.mp hnone,fun id' => ?_⟩
    rw [lookup_update]
    rcases eq_or_ne id' id with rfl | hne
    · rw [if_pos rfl,if_pos rfl,Assoc.get_put_self]
    · rw [Assoc.get_put_ne hne,if_neg hne]
      split
      · rename_i hidx
        rw [lookup,hidx]
      · rfl

theorem register_of_none (ch : ν) (h : w.lookup id = none) : ∃ w', w.register id ch = .ok w' :=
  ⟨_,if_neg (by rw [isRegistered,h]; exact Bool.false_ne_true)⟩

theorem lookup_unregister (w : Wait ν) (id id' : UInt64) :
    (w.unregister id).lookup id' = if id' = id then none else w.lookup id' := by
  rw [unregister,lookup_update]
  rcases eq_or_ne id' id with rfl | hne
  · rw [if_pos rfl,if_pos rfl,Assoc.get_erase_self]
  · rw [Assoc.get_erase_ne hne,if_neg hne]
    split
    · rename_i hidx
      rw [lookup,hidx]
    · rfl

end Wait

end LiMaoIM.Sdk

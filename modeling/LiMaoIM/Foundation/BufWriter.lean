import LiMaoIM.Foundation.Bytes
import LiMaoIM.Foundation.Exec

namespace LiMaoIM

structure BufWriter where
  buffered : Bytes
  sent : Bytes
  failed : Bool

namespace BufWriter

def defaultBufSize : Nat := 4096

def brokenPipe : String := "write: broken pipe"

def new : BufWriter := ⟨[],[],false⟩

def available (w : BufWriter) : Nat := defaultBufSize - w.buffered.length

def contents (w : BufWriter) : Bytes := w.sent ++ w.buffered

def flush (closed : Bool) : Exec BufWriter Unit := fun w =>
  if w.failed then (.error brokenPipe,w)
  else if w.buffered = [] then (.ok (),w)
  else if closed then (.error brokenPipe,{ w with failed := true })
  else (.ok (),⟨[],w.contents,false⟩)

def write (closed : Bool) (p : Bytes) : Exec BufWriter Unit := fun w =>
  if w.failed then (.error brokenPipe,w)
  else if p.length ≤ w.available then (.ok (),{ w with buffered := w.buffered ++ p })
  else if closed then
    let buffered := if w.buffered = [] then [] else w.buffered ++ p.take w.available
    (.error brokenPipe,⟨buffered,w.sent,true⟩)
  else if w.buffered = [] then (.ok (),{ w with sent := w.sent ++ p })
  else
    let full := w.contents ++ p.take w.available
    let rest := p.drop w.available
    if rest.length ≤ defaultBufSize then (.ok (),⟨rest,full,false⟩)
    else (.ok (),⟨[],full ++ rest,false⟩)

structure Grows (p : Bytes) (w w' : BufWriter) : Prop where
  before : w.failed = false
  failed : w'.failed = false
  contents : w'.contents = w.contents ++ p

variable {closed : Bool} {p : Bytes} {w w' : BufWriter}

theorem flush_spec (closed : Bool) (w : BufWriter) :
    (∃ w', flush closed w = (.ok (),w') ∧ Grows [] w w' ∧ w'.buffered = []) ∨
      ∃ w', flush closed w = (.error brokenPipe,w') ∧ w'.failed = true := by
  rw [flush]
  split
  · rename_i hfailed
    exact Or.inr ⟨w,rfl,hfailed⟩
  · rename_i hfailed
    have hfailed := Bool.eq_false_of_not_eq_true hfailed
    split
    · rename_i hempty
      exact Or.inl ⟨w,rfl,⟨hfailed,hfailed,(List.append_nil _).symm⟩,hempty⟩
    · split
      · exact Or.inr ⟨_,rfl,rfl⟩
      · exact Or.inl ⟨_,rfl,⟨hfailed,rfl,(List.append_nil _).trans (List.append_nil _).symm⟩,rfl⟩

theorem write_spec (closed : Bool) (p : Bytes) (w : BufWriter) :
    (∃ w', write closed p w = (.ok (),w') ∧ Grows p w w') ∨
      ∃ w', write closed p w = (.error brokenPipe,w') ∧ w'.failed = true := by
  rw [write]
  split
  · rename_i hfailed
    exact Or.inr ⟨w,rfl,hfailed⟩
  · rename_i hfailed
    have hfailed := Bool.eq_false_of_not_eq_true hfailed
    split
    · exact Or.inl ⟨_,rfl,hfailed,hfailed,(List.append_assoc _ _ _).symm⟩
    · split
      · exact Or.inr ⟨_,rfl,rfl⟩
      · split
        · rename_i hempty
          refine Or.inl ⟨_,rfl,hfailed,hfailed,?_⟩
          rw [contents,contents,hempty,List.append_nil,List.append_nil]
        · have hsplit :
              w.contents ++ p.take w.available ++ p.drop w.available = w.contents ++ p := by
            rw [List.append_assoc,List.take_append_drop]
          simp only
          split
          · exact Or.inl ⟨_,rfl,hfailed,rfl,hsplit⟩
          · exact Or.inl ⟨_,rfl,hfailed,rfl,(List.append_nil _).trans hsplit⟩

end BufWriter

end LiMaoIM

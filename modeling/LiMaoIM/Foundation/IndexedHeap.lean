import LiMaoIM.Foundation.HeapOrder
import LiMaoIM.Foundation.Outcome

namespace LiMaoIM

open Outcome HeapOrder

structure Entry (μ π : Type) where
  model : μ
  pri : π
  index : Int

-- the slice holds pointers: items are the handles of entries, whose fields change in place
structure IndexedHeap (μ π : Type) where
  objects : Nat → Entry μ π
  items : List Nat
  cap : Nat

namespace IndexedHeap

def indexOutOfRange : String := "runtime error: index out of range"

def sliceBoundsOutOfRange : String := "runtime error: slice bounds out of range"

variable {μ π : Type}

section Operations

def item (q : IndexedHeap μ π) (i : Nat) : Outcome Nat :=
  match q.items[i]? with
  | some h => .ok h
  | none => .panic indexOutOfRange

def pri (q : IndexedHeap μ π) (h : Nat) : π := (q.objects h).pri

def setIndex (h : Nat) (index : Int) (q : IndexedHeap μ π) : IndexedHeap μ π :=
  { q with objects := Function.update q.objects h { q.objects h with index := index } }

def swap (i j : Nat) (q : IndexedHeap μ π) : Outcome (IndexedHeap μ π) := do
  let a ← q.item i
  let b ← q.item j
  pure (({ q with items := (q.items.set i b).set j a }.setIndex b i).setIndex a j)

variable [LE π] [DecidableLE π]

def up (j : Nat) (q : IndexedHeap μ π) : Outcome (IndexedHeap μ π) :=
  if (j - 1) / 2 = j then pure q
  else do
    let child ← q.item j
    let parent ← q.item ((j - 1) / 2)
    if q.pri parent ≤ q.pri child then pure q
    else do
      let q ← q.swap ((j - 1) / 2) j
      up ((j - 1) / 2) q
termination_by j
decreasing_by omega

def rightFirst (j1 n : Nat) (q : IndexedHeap μ π) : Outcome Bool :=
  if j1 + 1 < n then do
    let left ← q.item j1
    let right ← q.item (j1 + 1)
    pure (decide (q.pri right ≤ q.pri left))
  else pure false

def down (i n : Nat) (q : IndexedHeap μ π) : Outcome (IndexedHeap μ π) :=
  if n ≤ 2 * i + 1 then pure q
  else do
    let right ← q.rightFirst (2 * i + 1) n
    let child ← q.item (2 * i + 1 + right.toNat)
    let parent ← q.item i
    if q.pri parent ≤ q.pri child then pure q
    else do
      let q ← q.swap i (2 * i + 1 + right.toNat)
      down (2 * i + 1 + right.toNat) n q
termination_by n - i
decreasing_by omega

def push (x : Nat) (q : IndexedHeap μ π) : Outcome (IndexedHeap μ π) :=
  let n := q.items.length
  let cap := if q.cap < n + 1 then q.cap * 2 else q.cap
  if cap < n + 1 then .panic sliceBoundsOutOfRange
  else ({ q with items := q.items ++ [x], cap := cap }.setIndex x n).up n

def removeLast (q : IndexedHeap μ π) : Outcome (Nat × IndexedHeap μ π) := do
  let x ← q.item (q.items.length - 1)
  pure (x,{ q with items := q.items.dropLast }.setIndex x (-1))

def pop (q : IndexedHeap μ π) : Outcome (Nat × IndexedHeap μ π) := do
  let n := q.items.length
  let q ← q.swap 0 (n - 1)
  let q ← q.down 0 (n - 1)
  let q := if n < q.cap / 2 ∧ 25 < q.cap then { q with cap := q.cap / 2 } else q
  q.removeLast

def remove (i : Nat) (q : IndexedHeap μ π) : Outcome (Nat × IndexedHeap μ π) := do
  let n := q.items.length
  let q ← if n - 1 ≠ i then do
      let q ← q.swap i (n - 1)
      let q ← q.down i (n - 1)
      q.up i
    else pure q
  q.removeLast

def peekAndShift (max : π) (q : IndexedHeap μ π) : Outcome (Option Nat × IndexedHeap μ π) :=
  match q.items.head? with
  | none => pure (none,q)
  | some x =>
      if ¬ q.pri x ≤ max then pure (none,q)
      else do
        let (_,q) ← q.pop
        pure (some x,q)

end Operations

structure Indexed (q : IndexedHeap μ π) : Prop where
  nodup : q.items.Nodup
  index : ∀ (i h : Nat), q.items[i]? = some h → (q.objects h).index = i

structure SameEntries (q q' : IndexedHeap μ π) : Prop where
  model : ∀ h, (q'.objects h).model = (q.objects h).model
  pri : ∀ h, q'.pri h = q.pri h

structure Moved (n : Nat) (q q' : IndexedHeap μ π) : Prop where
  indexed : Indexed q'
  perm : q'.items.Perm q.items
  above : ∀ i, n ≤ i → q'.items[i]? = q.items[i]?
  cap : q'.cap = q.cap
  same : SameEntries q q'
  outside : ∀ x ∉ q.items, q'.objects x = q.objects x

def level (q : IndexedHeap μ π) (k : Nat) : π := q.pri (q.items.getD k 0)

variable {q q' q'' : IndexedHeap μ π} {i j n h x : Nat}

theorem SameEntries.refl (q : IndexedHeap μ π) : SameEntries q q := ⟨fun _ => rfl,fun _ => rfl⟩

theorem SameEntries.trans (h₁ : SameEntries q q') (h₂ : SameEntries q' q'') : SameEntries q q'' :=
  ⟨fun h => (h₂.model h).trans (h₁.model h),fun h => (h₂.pri h).trans (h₁.pri h)⟩

theorem Moved.refl (hq : Indexed q) (n : Nat) : Moved n q q :=
  ⟨hq,.refl _,fun _ _ => rfl,rfl,.refl q,fun _ _ => rfl⟩

theorem Moved.trans (h₁ : Moved n q q') (h₂ : Moved n q' q'') : Moved n q q'' :=
  ⟨h₂.indexed,h₂.perm.trans h₁.perm,fun i hi => (h₂.above i hi).trans (h₁.above i hi),
    h₂.cap.trans h₁.cap,h₁.same.trans h₂.same,fun x hx =>
      (h₂.outside x fun hx' => hx (h₁.perm.mem_iff.mp hx')).trans (h₁.outside x hx)⟩

theorem Moved.mono {m : Nat} (h : Moved n q q') (hn : n ≤ m) : Moved m q q' :=
  { h with above := fun i hi => h.above i (hn.trans hi) }

theorem Moved.length (h : Moved n q q') : q'.items.length = q.items.length := h.perm.length_eq

theorem item_of_lt (hi : i < q.items.length) : q.item i = .ok q.items[i] := by
  rw [item, List.getElem?_eq_getElem hi]

theorem level_of_lt (hi : i < q.items.length) : q.level i = q.pri q.items[i] := by
  rw [level, List.getD_eq_getElem?_getD, List.getElem?_eq_getElem hi, Option.getD_some]

theorem index_setIndex_self (h : Nat) (index : Int) (q : IndexedHeap μ π) :
    ((q.setIndex h index).objects h).index = index := by
  simp only [setIndex, Function.update_self]

theorem objects_setIndex_ne (hne : x ≠ h) (index : Int) (q : IndexedHeap μ π) :
    (q.setIndex h index).objects x = q.objects x := Function.update_of_ne hne ..

theorem same_setIndex (h : Nat) (index : Int) (q : IndexedHeap μ π) :
    SameEntries q (q.setIndex h index) := by
  constructor
  · intro x
    rcases eq_or_ne x h with rfl | hne
    · simp only [setIndex, Function.update_self]
    · rw [objects_setIndex_ne hne]
  · intro x
    rcases eq_or_ne x h with rfl | hne
    · simp only [pri, setIndex, Function.update_self]
    · rw [pri, objects_setIndex_ne hne, pri]

theorem swap_moved (hq : Indexed q) (hi : i < n) (hj : j < n) (hn : n ≤ q.items.length) :
    ∃ q', q.swap i j = .ok q' ∧ Moved n q q' ∧
      (∀ k, q'.items[k]? = q.items[Equiv.swap i j k]?) ∧ q'.level = q.level ∘ Equiv.swap i j := by
  have hil : i < q.items.length := by omega
  have hjl : j < q.items.length := by omega
  have hget (k : Nat) : ((q.items.set i q.items[j]).set j q.items[i])[k]? =
      q.items[Equiv.swap i j k]? := by
    rw [List.getElem?_set, List.getElem?_set, List.length_set, if_pos hil, if_pos hjl,
      Equiv.swap_apply_def]
    rcases eq_or_ne k j with rfl | hkj
    · rcases eq_or_ne k i with rfl | hki
      · rw [if_pos rfl, if_pos rfl, List.getElem?_eq_getElem hil]
      · rw [if_pos rfl, if_neg hki, if_pos rfl, List.getElem?_eq_getElem hil]
    · rw [if_neg hkj.symm, if_neg hkj]
      rcases eq_or_ne k i with rfl | hki
      · rw [if_pos rfl, if_pos rfl, List.getElem?_eq_getElem hjl]
      · rw [if_neg hki.symm, if_neg hki]
  have hperm : ((q.items.set i q.items[j]).set j q.items[i]).Perm q.items :=
    List.set_set_perm hil hjl
  have hfirst := same_setIndex q.items[j] i
    { q with items := (q.items.set i q.items[j]).set j q.items[i] }
  have hsame : SameEntries q (({ q with
      items := (q.items.set i q.items[j]).set j q.items[i] }.setIndex q.items[j] i).setIndex
        q.items[i] j) :=
    SameEntries.trans ⟨hfirst.model,hfirst.pri⟩ (same_setIndex q.items[i] j _)
  refine ⟨({ q with
      items := (q.items.set i q.items[j]).set j q.items[i] }.setIndex q.items[j] i).setIndex
        q.items[i] j,by rw [swap, item_of_lt hil, ok_bind, item_of_lt hjl, ok_bind]; rfl,
    ⟨⟨hperm.nodup_iff.mpr hq.nodup,fun k h hk => ?_⟩,hperm,fun k hk => ?_,rfl,hsame,fun x hx => ?_⟩,
      hget,funext fun k => ?_⟩
  · have hk : ((q.items.set i q.items[j]).set j q.items[i])[k]? = some h := hk
    rw [hget] at hk
    obtain ⟨hlt,rfl⟩ := List.getElem?_eq_some_iff.mp hk
    have hne : ∀ m (hm : m < q.items.length), Equiv.swap i j k ≠ m →
        q.items[Equiv.swap i j k] ≠ q.items[m] := fun m hm hkm heq =>
      hkm ((List.Nodup.getElem_inj_iff hq.nodup).mp heq)
    rcases eq_or_ne k j with rfl | hkj
    · simp only [Equiv.swap_apply_right]
      exact index_setIndex_self _ _ _
    · rcases eq_or_ne k i with rfl | hki
      · simp only [Equiv.swap_apply_left] at hne ⊢
        rw [objects_setIndex_ne (hne k hil hkj.symm)]
        exact index_setIndex_self _ _ _
      · have hfix := Equiv.swap_apply_of_ne_of_ne hki hkj
        rw [objects_setIndex_ne (hne i hil (by rwa [hfix])),
          objects_setIndex_ne (hne j hjl (by rwa [hfix]))]
        exact hq.index k _ (by rw [← hk, hfix])
  · exact (hget k).trans (by rw [Equiv.swap_apply_of_ne_of_ne (by omega) (by omega)])
  · have hne (m : Nat) (hm : m < q.items.length) : x ≠ q.items[m] := by
      rintro rfl
      exact hx (List.getElem_mem hm)
    rw [objects_setIndex_ne (hne i hil), objects_setIndex_ne (hne j hjl)]
  · rw [Function.comp_apply, level, level, hsame.pri, List.getD_eq_getElem?_getD,
      List.getD_eq_getElem?_getD]
    exact congrArg (fun o : Option Nat => q.pri (o.getD 0)) (hget k)

structure Sound (q : IndexedHeap μ π) : Prop where
  indexed : Indexed q
  positive : 0 < q.cap
  fits : q.items.length ≤ q.cap

structure Pushed (x : Nat) (q q' : IndexedHeap μ π) : Prop where
  sound : Sound q'
  perm : q'.items.Perm (q.items ++ [x])
  same : SameEntries q q'
  outside : ∀ y ∉ q.items, y ≠ x → q'.objects y = q.objects y

structure Taken (x : Nat) (q q' : IndexedHeap μ π) : Prop where
  sound : Sound q'
  perm : q.items.Perm (x :: q'.items)
  same : SameEntries q q'
  outside : ∀ y ∉ q.items, q'.objects y = q.objects y
  gone : (q'.objects x).index = -1

theorem Sound.index_of_mem (hq : Sound q) (h : x ∈ q.items) :
    ∃ i : Nat, q.items[i]? = some x ∧ (q.objects x).index = i := by
  obtain ⟨i,hi⟩ := List.mem_iff_getElem?.mp h
  exact ⟨i,hi,hq.indexed.index i x hi⟩

theorem Taken.of_moved (hm : Moved n q q') (ht : Taken x q' q'') : Taken x q q'' :=
  ⟨ht.sound,hm.perm.symm.trans ht.perm,hm.same.trans ht.same,fun y hy =>
    (ht.outside y fun hy' => hy (hm.perm.mem_iff.mp hy')).trans (hm.outside y hy),ht.gone⟩

variable [LE π]

structure Valid (q : IndexedHeap μ π) : Prop where
  sound : Sound q
  ordered : Ordered q.level q.items.length

theorem Valid.setObject (hq : Valid q) (hx : x ∉ q.items) (e : Entry μ π) :
    Valid { q with objects := Function.update q.objects x e } := by
  have hsame (h : Nat) (hh : h ∈ q.items) : Function.update q.objects x e h = q.objects h := by
    refine Function.update_of_ne ?_ _ _
    rintro rfl
    exact hx hh
  refine ⟨⟨⟨hq.sound.indexed.nodup,fun i h hi => ?_⟩,hq.sound.positive,hq.sound.fits⟩,
    hq.ordered.congr fun k hk => ?_⟩
  · exact (congrArg Entry.index (hsame h (List.mem_of_getElem? hi))).trans
      (hq.sound.indexed.index i h hi)
  · have hlevel : level { q with objects := Function.update q.objects x e } k =
        (Function.update q.objects x e q.items[k]).pri := level_of_lt (by exact hk)
    rw [hlevel, hsame _ (List.getElem_mem hk), level_of_lt hk, pri]

theorem removeLast_taken (hq : Sound q) (hx : q.items[q.items.length - 1]? = some x) :
    ∃ q', q.removeLast = .ok (x,q') ∧ Taken x q q' ∧
      (Ordered q.level (q.items.length - 1) → Ordered q'.level q'.items.length) := by
  have hsplit : q.items = q.items.dropLast ++ [x] := by
    obtain ⟨hlt,hlast⟩ := List.getElem?_eq_some_iff.mp hx
    have hne : q.items ≠ [] := List.ne_nil_of_length_pos (by omega)
    rw [← List.getLast_eq_getElem hne] at hlast
    rw [← hlast, List.dropLast_append_getLast hne]
  have hnodup := hq.indexed.nodup
  rw [hsplit] at hnodup
  have hnot : x ∉ q.items.dropLast := fun hmem =>
    (List.nodup_append'.mp hnodup).2.2 hmem List.mem_cons_self
  have hset := same_setIndex x (-1) { q with items := q.items.dropLast }
  have hsame : SameEntries q ({ q with items := q.items.dropLast }.setIndex x (-1)) :=
    ⟨hset.model,hset.pri⟩
  have hget (k : Nat) (hk : k < q.items.length - 1) : q.items.dropLast[k]? = q.items[k]? := by
    rw [List.getElem?_dropLast, if_pos hk]
  refine ⟨{ q with items := q.items.dropLast }.setIndex x (-1),?_,
    ⟨⟨⟨?_,fun i h hi => ?_⟩,hq.positive,?_⟩,?_,hsame,fun y hy => ?_,index_setIndex_self _ _ _⟩,
    fun hordered => ?_⟩
  · rw [removeLast, item, hx]
    rfl
  · exact (List.nodup_append'.mp hnodup).1
  · replace hi : q.items.dropLast[i]? = some h := hi
    have hne : h ≠ x := by
      rintro rfl
      exact hnot (List.mem_of_getElem? hi)
    rw [objects_setIndex_ne hne]
    apply hq.indexed.index i h
    rw [List.getElem?_dropLast] at hi
    split at hi
    · exact hi
    · cases hi
  · exact (List.dropLast_sublist _).length_le.trans hq.fits
  · nth_rewrite 1 [hsplit]
    exact List.perm_append_singleton x _
  · refine objects_setIndex_ne ?_ _ _
    rintro rfl
    exact hy (List.mem_of_getElem? hx)
  · have hlen : q.items.dropLast.length = q.items.length - 1 := List.length_dropLast
    intro k hk hkn
    have hkn : k < q.items.length - 1 := hlen ▸ hkn
    have hsame' (m : Nat) (hm : m < q.items.length - 1) :
        level ({ q with items := q.items.dropLast }.setIndex x (-1)) m = q.level m := by
      rw [level, hsame.pri, level]
      exact congrArg (fun o : Option Nat => q.pri (o.getD 0)) (hget m hm)
    rw [hsame' k hkn, hsame' _ (by omega)]
    exact hordered k hk hkn

variable [Std.IsLinearPreorder π]

theorem off (hq : Ordered q.level q.items.length) (hn : q.items.length = n + 1)
    (hlevel : q'.level = q.level ∘ Equiv.swap i n) : OrderedOff q'.level n i := by
  refine ((hq.mono (by omega)).off i).congr fun k hk hki => ?_
  rw [hlevel, Function.comp_apply, Equiv.swap_apply_of_ne_of_ne hki hk.ne]

theorem Valid.all_late (hq : Valid q) {max : π}
    (hlate : ∀ x, q.items.head? = some x → ¬ q.pri x ≤ max) (hx : x ∈ q.items) :
    ¬ q.pri x ≤ max := by
  intro hle
  obtain ⟨k,hk,rfl⟩ := List.mem_iff_getElem.mp hx
  have hroot := hq.ordered.root_le hk
  have hpos : 0 < q.items.length := Nat.lt_of_le_of_lt (Nat.zero_le _) hk
  rw [level_of_lt hk, level_of_lt hpos] at hroot
  refine hlate _ ?_ (Std.le_trans hroot hle)
  rw [List.head?_eq_getElem?, List.getElem?_eq_getElem hpos]

variable [DecidableLE π]

theorem up_moved (hq : Indexed q) (hj : j < n) (hn : n ≤ q.items.length) :
    ∃ q', q.up j = .ok q' ∧ Moved n q q' ∧ (OrderedBelow q.level n j → Ordered q'.level n) := by
  induction j using Nat.strong_induction_on generalizing q with
  | _ j ih =>
    rw [up]
    split
    · exact ⟨q,rfl,.refl hq n,fun h => h.ordered fun hpos => by omega⟩
    · rename_i hroot
      have hjl : j < q.items.length := by omega
      have hparent : (j - 1) / 2 < q.items.length := by omega
      rw [item_of_lt hjl, ok_bind, item_of_lt hparent, ok_bind, ← level_of_lt hjl,
        ← level_of_lt hparent]
      split
      · rename_i hle
        exact ⟨q,rfl,.refl hq n,fun h => h.ordered fun _ => hle⟩
      · rename_i hless
        have hlt : (j - 1) / 2 < n := by omega
        obtain ⟨q₁,hswap,hm,-,hlevel⟩ := swap_moved hq hlt hj hn
        obtain ⟨q₂,hup,hm',hordered⟩ := ih ((j - 1) / 2) (by omega) hm.indexed hlt (hm.length ▸ hn)
        rw [hswap, ok_bind, hup]
        refine ⟨q₂,rfl,hm.trans hm',fun h => hordered ?_⟩
        rw [hlevel]
        exact h.up (by omega) hj (Std.le_of_not_ge hless)

theorem rightFirst_ok (hi : 2 * i + 1 < n) (hn : n ≤ q.items.length) :
    ∃ right, q.rightFirst (2 * i + 1) n = .ok right ∧ Child n i (2 * i + 1 + right.toNat) ∧
      ∀ k, Child n i k → q.level (2 * i + 1 + right.toNat) ≤ q.level k := by
  rw [rightFirst]
  split
  · rename_i hright
    rw [item_of_lt (by omega), ok_bind, item_of_lt (by omega), ok_bind, ← level_of_lt,
      ← level_of_lt]
    refine ⟨_,rfl,?_⟩
    by_cases hle : q.level (2 * i + 1 + 1) ≤ q.level (2 * i + 1)
    · rw [decide_eq_true hle, Bool.toNat_true]
      refine ⟨⟨by omega,hright,by omega⟩,fun k hk => ?_⟩
      obtain ⟨hpos,hkn,hp⟩ := hk
      rcases eq_or_ne k (2 * i + 1) with rfl | hne
      · exact hle
      · obtain rfl : k = 2 * i + 1 + 1 := by omega
        exact Std.le_refl _
    · rw [decide_eq_false hle, Bool.toNat_false, Nat.add_zero]
      refine ⟨⟨by omega,hi,by omega⟩,fun k hk => ?_⟩
      obtain ⟨hpos,hkn,hp⟩ := hk
      rcases eq_or_ne k (2 * i + 1) with rfl | hne
      · exact Std.le_refl _
      · obtain rfl : k = 2 * i + 1 + 1 := by omega
        exact Std.le_of_not_ge hle
  · refine ⟨false,rfl,⟨by omega,hi,by simp⟩,fun k hk => ?_⟩
    obtain ⟨hpos,hkn,hp⟩ := hk
    obtain rfl : k = 2 * i + 1 := by omega
    exact Std.le_refl _

structure Sunk (n i : Nat) (q q' : IndexedHeap μ π) : Prop where
  moved : Moved n q q'
  ordered : OrderedOff q.level n i → OrderedBelow q'.level n i
  before : ∀ k < i, q'.level k = q.level k
  from_child : ∃ k, (k = i ∨ Child n i k) ∧ q'.level i = q.level k

theorem down_sunk (hq : Indexed q) (hn : n ≤ q.items.length) (i : Nat) :
    ∃ q', q.down i n = .ok q' ∧ Sunk n i q q' := by
  induction hk : n - i using Nat.strong_induction_on generalizing q i with
  | _ k ih =>
    rw [down]
    split
    · exact ⟨q,rfl,.refl hq n,fun h => ⟨h,fun k hk hkn hp => by omega⟩,fun _ _ => rfl,i,
        Or.inl rfl,rfl⟩
    · rename_i hchild
      obtain ⟨right,hright,hj,hleast⟩ := rightFirst_ok (q := q) (Nat.lt_of_not_le hchild) hn
      have hlt := hj.2.1
      have hi : i < n := by omega
      have hil : i < q.items.length := by omega
      have hjl : 2 * i + 1 + right.toNat < q.items.length := by omega
      rw [hright, ok_bind, item_of_lt hjl, ok_bind, item_of_lt hil, ok_bind, ← level_of_lt hil,
        ← level_of_lt hjl]
      split
      · rename_i hle
        refine ⟨q,rfl,.refl hq n,fun h => ⟨h,fun k hk hkn hp => ?_⟩,fun _ _ => rfl,i,Or.inl rfl,rfl⟩
        exact Std.le_trans hle (hleast k ⟨hk,hkn,hp⟩)
      · rename_i hless
        have hless := Std.le_of_not_ge hless
        obtain ⟨q₁,hswap,hm,-,hlevel⟩ := swap_moved hq hi hlt hn
        obtain ⟨q₂,hdown,hs⟩ := ih (n - (2 * i + 1 + right.toNat)) (by omega) hm.indexed
          (hm.length ▸ hn) _ rfl
        rw [hswap, ok_bind, hdown]
        have hbefore := hs.before
        have hfrom := hs.from_child
        have hordered := hs.ordered
        rw [hlevel] at hbefore hfrom hordered
        refine ⟨q₂,rfl,hm.trans hs.moved,fun h => ?_,fun k hk => ?_,_,Or.inr hj,?_⟩
        · exact (h.sunk hj hleast hless (hordered (h.down hj hleast)) hbefore hfrom).1
        · rw [hbefore k (by omega), Function.comp_apply,
            Equiv.swap_apply_of_ne_of_ne (by omega) (by omega)]
        · rw [hbefore i (by omega), Function.comp_apply, Equiv.swap_apply_left]

theorem push_pushed (hq : Sound q) (hx : x ∉ q.items) :
    ∃ q', q.push x = .ok q' ∧ Pushed x q q' ∧
      (Ordered q.level q.items.length → Ordered q'.level q'.items.length) := by
  have hpos := hq.positive
  have hfits := hq.fits
  have hcap : q.items.length + 1 ≤ if q.cap < q.items.length + 1 then q.cap * 2 else q.cap := by
    split
    · omega
    · omega
  rw [push]
  generalize (if q.cap < q.items.length + 1 then q.cap * 2 else q.cap) = cap at hcap ⊢
  have hset := same_setIndex x q.items.length { q with items := q.items ++ [x], cap := cap }
  have hsame : SameEntries q
      ({ q with items := q.items ++ [x], cap := cap }.setIndex x q.items.length) :=
    ⟨hset.model,hset.pri⟩
  have hindexed : Indexed
      ({ q with items := q.items ++ [x], cap := cap }.setIndex x q.items.length) := by
    constructor
    · refine hq.indexed.nodup.append (List.nodup_singleton x) fun h hh hx' => ?_
      obtain rfl := List.mem_singleton.mp hx'
      exact hx hh
    · intro i h hi
      replace hi : (q.items ++ [x])[i]? = some h := hi
      rcases Nat.lt_or_ge i q.items.length with hlt | hge
      · rw [List.getElem?_append_left hlt] at hi
        have hne : h ≠ x := by
          rintro rfl
          exact hx (List.mem_of_getElem? hi)
        rw [objects_setIndex_ne hne]
        exact hq.indexed.index i h hi
      · rw [List.getElem?_append_right hge] at hi
        obtain ⟨hzero,rfl⟩ := List.getElem?_eq_some_iff.mp hi
        have heq : i = q.items.length := by
          rw [List.length_singleton] at hzero
          omega
        rw [List.getElem_singleton, index_setIndex_self, heq]
  have hlevel : ∀ k < q.items.length,
      level ({ q with items := q.items ++ [x], cap := cap }.setIndex x q.items.length) k =
        q.level k := by
    intro k hk
    have hget : (q.items ++ [x]).getD k 0 = q.items.getD k 0 := by
      rw [List.getD_eq_getElem?_getD, List.getElem?_append_left hk, ← List.getD_eq_getElem?_getD]
    rw [level, hsame.pri, level, ← hget]
    rfl
  have hlen : ({ q with items := q.items ++ [x], cap := cap }.setIndex x
      q.items.length).items.length = q.items.length + 1 := List.length_append
  obtain ⟨q',hup,hm,hordered⟩ := up_moved hindexed (Nat.lt_succ_self _) hlen.ge
  have hlen' : q'.items.length = q.items.length + 1 := hm.length.trans hlen
  refine ⟨q',?_,⟨⟨hm.indexed,?_,?_⟩,hm.perm,hsame.trans hm.same,fun y hy hne => ?_⟩,fun h => ?_⟩
  · rw [if_neg (Nat.not_lt.mpr hcap), hup]
  · rw [hm.cap]
    exact Nat.lt_of_lt_of_le (Nat.succ_pos _) hcap
  · rw [hm.cap, hlen']
    exact hcap
  · have hy' : y ∉ q.items ++ [x] := fun hmem =>
      (List.mem_append.mp hmem).elim hy fun heq => hne (List.mem_singleton.mp heq)
    rw [hm.outside y hy', objects_setIndex_ne hne]
  · rw [hlen']
    exact hordered (h.append hlevel)

theorem pop_taken (hq : Sound q) (hx : q.items.head? = some x) :
    ∃ q', q.pop = .ok (x,q') ∧ Taken x q q' ∧
      (Ordered q.level q.items.length → Ordered q'.level q'.items.length) := by
  have hpos := hq.positive
  have hfits := hq.fits
  have hzero : q.items[0]? = some x := by rwa [← List.head?_eq_getElem?]
  obtain ⟨hlen,-⟩ := List.getElem?_eq_some_iff.mp hzero
  obtain ⟨q₁,hswap,hm₁,hget,hlevel⟩ :=
    swap_moved hq.indexed hlen (j := q.items.length - 1) (by omega) (Nat.le_refl _)
  have hn : q.items.length - 1 ≤ q₁.items.length := by
    rw [hm₁.length]
    omega
  obtain ⟨q₂,hdown,hs⟩ := down_sunk hm₁.indexed hn 0
  have hm₂ := hs.moved
  have hlen₂ : q₂.items.length = q.items.length := hm₂.length.trans hm₁.length
  have hcap₂ : q₂.cap = q.cap := hm₂.cap.trans hm₁.cap
  have hx₂ : q₂.items[q.items.length - 1]? = some x := by
    rw [hm₂.above _ (Nat.le_refl _), hget, Equiv.swap_apply_right, hzero]
  have hordered (h : Ordered q.level q.items.length) : Ordered q₂.level (q.items.length - 1) := by
    rcases Nat.eq_zero_or_pos (q.items.length - 1) with hone | hmore
    · rw [hone]
      exact fun k _ hk => absurd hk (Nat.not_lt_zero k)
    · exact (hs.ordered (off h (by omega) hlevel)).ordered fun h => absurd h (Nat.lt_irrefl 0)
  have hall : Moved q.items.length q q₂ := hm₁.trans (hm₂.mono (Nat.sub_le _ _))
  have hlast (cap : Nat) (hcap : 0 < cap) (hroom : q.items.length ≤ cap) :
      ∃ q', removeLast { q₂ with cap := cap } = .ok (x,q') ∧ Taken x q q' ∧
        (Ordered q.level q.items.length → Ordered q'.level q'.items.length) := by
    obtain ⟨q',hremove,ht,hkept⟩ := removeLast_taken (q := { q₂ with cap := cap })
      ⟨⟨hm₂.indexed.nodup,hm₂.indexed.index⟩,hcap,hlen₂ ▸ hroom⟩ (by rw [hlen₂]; exact hx₂)
    have ht' : Taken x q₂ q' := ⟨ht.sound,ht.perm,⟨ht.same.model,ht.same.pri⟩,ht.outside,ht.gone⟩
    exact ⟨q',hremove,.of_moved hall ht',fun h => hkept (hlen₂ ▸ hordered h)⟩
  rw [pop]
  simp only [hswap, ok_bind, hdown]
  split
  · rename_i hshrink
    rw [hcap₂] at hshrink ⊢
    exact hlast _ (by omega) (by omega)
  · exact hlast q₂.cap (by omega) (by omega)

theorem remove_taken (hq : Sound q) (hx : q.items[i]? = some x) :
    ∃ q', q.remove i = .ok (x,q') ∧ Taken x q q' ∧
      (Ordered q.level q.items.length → Ordered q'.level q'.items.length) := by
  obtain ⟨hlen,-⟩ := List.getElem?_eq_some_iff.mp hx
  rw [remove]
  rcases eq_or_ne (q.items.length - 1) i with rfl | hne
  · rw [if_neg (not_not.mpr rfl)]
    obtain ⟨q',hremove,ht,hkept⟩ := removeLast_taken hq hx
    exact ⟨q',hremove,ht,fun h => hkept (h.mono (Nat.sub_le _ _))⟩
  · rw [if_pos hne]
    obtain ⟨q₁,hswap,hm₁,hget,hlevel⟩ :=
      swap_moved hq.indexed hlen (j := q.items.length - 1) (by omega) (Nat.le_refl _)
    have hn₁ : q.items.length - 1 ≤ q₁.items.length := by
      rw [hm₁.length]
      omega
    obtain ⟨q₂,hdown,hs⟩ := down_sunk hm₁.indexed hn₁ i
    have hn₂ : q.items.length - 1 ≤ q₂.items.length := by
      rw [hs.moved.length]
      exact hn₁
    obtain ⟨q₃,hup,hm₃,hordered⟩ := up_moved hs.moved.indexed (j := i) (by omega) hn₂
    have hm := hs.moved.trans hm₃
    have hx₃ : q₃.items[q.items.length - 1]? = some x := by
      rw [hm.above _ (Nat.le_refl _), hget, Equiv.swap_apply_right, hx]
    have hall : Moved q.items.length q q₃ := hm₁.trans (hm.mono (Nat.sub_le _ _))
    have hsound : Sound q₃ := by
      refine ⟨hm.indexed,?_,?_⟩
      · rw [hall.cap]
        exact hq.positive
      · rw [hall.cap, hall.length]
        exact hq.fits
    rw [← hall.length] at hx₃
    obtain ⟨q',hremove,ht,hkept⟩ := removeLast_taken hsound hx₃
    simp only [hswap, ok_bind, hdown, hup]
    refine ⟨q',hremove,.of_moved hall ht,fun h => hkept ?_⟩
    rw [hall.length]
    exact hordered (hs.ordered (off h (by omega) hlevel))

theorem peekAndShift_taken (hq : Sound q) (max : π) :
    q.peekAndShift max = .ok (none,q) ∧ (∀ x, q.items.head? = some x → ¬ q.pri x ≤ max) ∨
      ∃ x q', q.peekAndShift max = .ok (some x,q') ∧ q.pri x ≤ max ∧ Taken x q q' ∧
        (Ordered q.level q.items.length → Ordered q'.level q'.items.length) := by
  rw [peekAndShift]
  cases hhead : q.items.head? with
  | none => exact Or.inl ⟨rfl,fun x hx => by cases hx⟩
  | some x =>
    simp only
    split
    · rename_i hlate
      refine Or.inl ⟨rfl,fun y hy => ?_⟩
      obtain rfl := Option.some.inj hy
      exact hlate
    · rename_i hdue
      obtain ⟨q',hpop,ht,hordered⟩ := pop_taken hq hhead
      rw [hpop]
      exact Or.inr ⟨x,q',rfl,not_not.mp hdue,ht,hordered⟩

end IndexedHeap
end LiMaoIM

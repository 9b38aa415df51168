import LiMaoIM.Db.TopicLayout

namespace LiMaoIM.Db

open Outcome

def Numbered : Nat → List Log → Prop
  | _, [] => True
  | n, l :: ls => l.offset.toInt = n + 1 ∧ Numbered (n + 1) ls

theorem numbered_append {n : Nat} {ls ms : List Log} :
    Numbered n (ls ++ ms) ↔ Numbered n ls ∧ Numbered (n + ls.length) ms := by
  induction ls generalizing n with
  | nil => simp [Numbered]
  | cons l ls ih =>
    have hlen : n + 1 + ls.length = n + (l :: ls).length := by
      rw [List.length_cons]
      omega
    rw [List.cons_append, Numbered, Numbered, ih, hlen, and_assoc]

theorem Numbered.bounds {n : Nat} {ls : List Log} (h : Numbered n ls) {l : Log} (hl : l ∈ ls) :
    (n : Int) < l.offset.toInt ∧ l.offset.toInt ≤ n + ls.length := by
  induction ls generalizing n with
  | nil => cases hl
  | cons x ls ih =>
    obtain ⟨hx,hrest⟩ := h
    rw [List.length_cons]
    rcases List.mem_cons.mp hl with rfl | hl
    · omega
    · have hb := ih hrest hl
      omega

theorem Numbered.filter_eq_drop {n : Nat} {ls : List Log} (h : Numbered n ls) (o : Int64) :
    ls.filter (fun l => decide (o ≤ l.offset)) = ls.drop (o.toInt - n - 1).toNat := by
  induction ls generalizing n with
  | nil => simp
  | cons l ls ih =>
    obtain ⟨hl,hrest⟩ := h
    rw [List.filter_cons]
    rcases Int.lt_or_le l.offset.toInt o.toInt with hlt | hle
    · have hfalse : ¬ o ≤ l.offset := by
        rw [Int64.le_iff_toInt_le]
        omega
      have hk : (o.toInt - n - 1).toNat = (o.toInt - (n + 1 : Nat) - 1).toNat + 1 := by omega
      rw [if_neg (by simp [hfalse]), ih hrest, hk, List.drop_succ_cons]
    · have hz : (o.toInt - n - 1).toNat = 0 := by omega
      have hz' : (o.toInt - (n + 1 : Nat) - 1).toNat = 0 := by omega
      rw [if_pos (by simp [Int64.le_iff_toInt_le, hle]), ih hrest, hz, hz', List.drop_zero,
        List.drop_zero]

theorem Numbered.split {n : Nat} {ls : List Log} (h : Numbered n ls) {k : Nat}
    (hk : k < ls.length) :
    ∃ pre l post, ls = pre ++ l :: post ∧ pre.length = k ∧ ls.drop k = l :: post ∧
      l.offset.toInt = n + k + 1 ∧ ∀ x ∈ pre, x.offset ≠ l.offset := by
  have hsplit : ls = ls.take k ++ ls[k] :: ls.drop (k + 1) := by
    rw [← List.drop_eq_getElem_cons hk, List.take_append_drop]
  have hlen : (ls.take k).length = k := by
    rw [List.length_take]
    omega
  rw [hsplit, numbered_append, hlen] at h
  obtain ⟨hpre,hl,-⟩ := h
  refine ⟨ls.take k,ls[k],ls.drop (k + 1),hsplit,hlen,List.drop_eq_getElem_cons hk,?_,?_⟩
  · rw [hl]
    push_cast
    rfl
  · intro x hx he
    have hb := (hpre.bounds hx).2
    rw [he, hl, hlen] at hb
    omega

def Placed : Nat → Parts → Prop
  | _, [] => True
  | n, (b,p) :: rest => b.toInt = n + 1 ∧ p ≠ [] ∧ Placed (n + p.length) rest

theorem placed_append {n : Nat} {parts : Parts} {b : Int64} {p : List Log} :
    Placed n (parts ++ [(b,p)]) ↔
      Placed n parts ∧ b.toInt = n + parts.flat.length + 1 ∧ p ≠ [] := by
  induction parts generalizing n with
  | nil => simp [Placed, Parts.flat]
  | cons e parts ih =>
    obtain ⟨c,q⟩ := e
    have hlen : ((n + q.length : Nat) : Int) + (Parts.flat parts).length =
        n + (Parts.flat ((c,q) :: parts)).length := by
      simp only [Parts.flat, List.flatMap_cons, List.length_append]
      omega
    rw [List.cons_append, Placed, Placed, ih, hlen]
    simp only [and_assoc]

theorem Placed.lt_key {n : Nat} {parts : Parts} (h : Placed n parts) {b : Int64}
    (hb : b ∈ Assoc.keys parts) : (n : Int) < b.toInt ∧ b.toInt ≤ n + parts.flat.length := by
  induction parts generalizing n with
  | nil => cases hb
  | cons e parts ih =>
    obtain ⟨c,q⟩ := e
    obtain ⟨hc,hq,hrest⟩ := h
    have hpos := List.length_pos_of_ne_nil hq
    simp only [Parts.flat, List.flatMap_cons, List.length_append] at ih ⊢
    rcases List.mem_cons.mp hb with rfl | hb
    · omega
    · have hlt := ih hrest hb
      omega

theorem Placed.nodup {n : Nat} {parts : Parts} (h : Placed n parts) :
    (Assoc.keys parts).Nodup := by
  induction parts generalizing n with
  | nil => exact List.nodup_nil
  | cons e parts ih =>
    obtain ⟨c,q⟩ := e
    obtain ⟨hc,hq,hrest⟩ := h
    have hpos := List.length_pos_of_ne_nil hq
    rw [Assoc.keys_cons, List.nodup_cons]
    refine ⟨fun hmem => ?_,ih hrest⟩
    have hlt := hrest.lt_key hmem
    omega

structure Arranged (parts : Parts) : Prop where
  placed : ∃ p rest, parts = (0,p) :: rest ∧ Placed p.length rest
  numbered : Numbered 0 parts.flat
  small : ∀ l ∈ parts.flat, l.data.length ≤ logMaxSize

namespace Arranged

variable {parts : Parts}

theorem key_bounds (h : Arranged parts) {b : Int64} (hb : b ∈ Assoc.keys parts) :
    0 ≤ b.toInt ∧ b.toInt ≤ parts.flat.length := by
  obtain ⟨p,rest,rfl,hrest⟩ := h.placed
  simp only [Parts.flat, List.flatMap_cons, List.length_append]
  rw [Assoc.keys_cons] at hb
  rcases List.mem_cons.mp hb with rfl | hb
  · have hz : (0 : Int64).toInt = 0 := rfl
    omega
  · have hlt := hrest.lt_key hb
    rw [Parts.flat] at hlt
    omega

theorem nodup (h : Arranged parts) : (Assoc.keys parts).Nodup := by
  obtain ⟨p,rest,rfl,hrest⟩ := h.placed
  rw [Assoc.keys_cons, List.nodup_cons]
  refine ⟨fun hmem => ?_,hrest.nodup⟩
  have hlt := (hrest.lt_key hmem).1
  have hz : (0 : Int64).toInt = 0 := rfl
  omega

theorem get_of_split (h : Arranged parts) {pre post : Parts} {b : Int64} {p : List Log}
    (hs : parts = pre ++ (b,p) :: post) : Assoc.get b parts = some p :=
  Assoc.get_of_mem h.nodup (by simp [hs])

theorem extend {front : Parts} {b : Int64} {p : List Log} {log : Log}
    (h : Arranged (front ++ [(b,p)]))
    (ho : log.offset.toInt = (Parts.flat (front ++ [(b,p)])).length + 1)
    (hl : log.data.length ≤ logMaxSize) : Arranged (front ++ [(b,p ++ [log])]) := by
  have hflat : Parts.flat (front ++ [(b,p ++ [log])]) = Parts.flat (front ++ [(b,p)]) ++ [log] := by
    simp [Parts.flat]
  refine ⟨?_,?_,?_⟩
  · obtain ⟨q,rest,hparts,hrest⟩ := h.placed
    cases front with
    | nil =>
      obtain ⟨rfl,rfl⟩ : b = 0 ∧ rest = [] := by simp_all
      exact ⟨p ++ [log],[],rfl,trivial⟩
    | cons e front =>
      obtain ⟨rfl,rfl⟩ : e = (0,q) ∧ rest = front ++ [(b,p)] := by simp_all
      rw [placed_append] at hrest
      exact ⟨q,front ++ [(b,p ++ [log])],rfl,placed_append.mpr ⟨hrest.1,hrest.2.1,by simp⟩⟩
  · rw [hflat, numbered_append]
    refine ⟨h.numbered,?_,trivial⟩
    rw [ho]
    push_cast
    omega
  · intro l hmem
    rw [hflat] at hmem
    rcases List.mem_append.mp hmem with hmem | hmem
    · exact h.small l hmem
    · rw [List.mem_singleton.mp hmem]
      exact hl

theorem roll {log : Log} (h : Arranged parts) (ho : log.offset.toInt = parts.flat.length + 1)
    (hl : log.data.length ≤ logMaxSize) : Arranged (parts ++ [(log.offset,[log])]) := by
  have hflat : Parts.flat (parts ++ [(log.offset,[log])]) = parts.flat ++ [log] := by
    simp [Parts.flat]
  refine ⟨?_,?_,?_⟩
  · obtain ⟨q,rest,rfl,hrest⟩ := h.placed
    refine ⟨q,rest ++ [(log.offset,[log])],rfl,placed_append.mpr ⟨hrest,?_,by simp⟩⟩
    rw [ho]
    simp [Parts.flat]
  · rw [hflat, numbered_append]
    refine ⟨h.numbered,?_,trivial⟩
    rw [ho]
    push_cast
    omega
  · intro l hmem
    rw [hflat] at hmem
    rcases List.mem_append.mp hmem with hmem | hmem
    · exact h.small l hmem
    · rw [List.mem_singleton.mp hmem]
      exact hl

end Arranged

section Routing

variable {o b : Int64} {n : Nat} {p : List Log} {rest : Parts}

structure Routed (o : Int64) (n : Nat) (parts : Parts) (pre : Parts) (c : Int64) (q : List Log)
    (post : Parts) : Prop where
  split : parts = pre ++ (c,q) :: post
  found : Topic.baseOffsetLoop o (Assoc.keys parts) = .ok c
  before : (n + pre.flat.length : Int) < o.toInt
  base : c.toInt ≤ n + pre.flat.length + 1
  after : post ≠ [] → o.toInt ≤ n + pre.flat.length + q.length + 1 ∧ ∃ d ∈ Assoc.keys post, o ≤ d

theorem exists_routed (hb : b.toInt ≤ n + 1) (ho : (n : Int) < o.toInt)
    (hrest : Placed (n + p.length) rest) :
    ∃ pre c q post, Routed o n ((b,p) :: rest) pre c q post := by
  induction rest generalizing n b p with
  | nil =>
    have hle : b ≤ o := by
      rw [Int64.le_iff_toInt_le]
      omega
    refine ⟨[],b,p,[],rfl,?_,?_,?_,fun h => absurd rfl h⟩
    · rw [Assoc.keys_cons, Assoc.keys, List.map_nil, Topic.baseOffsetLoop, if_pos hle]
    · simpa [Parts.flat] using ho
    · simpa [Parts.flat] using hb
  | cons e rest ih =>
    obtain ⟨c,q⟩ := e
    obtain ⟨hc,hq,hrest⟩ := hrest
    rcases Int.lt_or_le c.toInt o.toInt with hlt | hge
    · have hskip : ¬ (b ≤ o ∧ o ≤ c) := by
        rw [Int64.le_iff_toInt_le, Int64.le_iff_toInt_le]
        omega
      obtain ⟨pre,d,r,post,hr⟩ := ih (b := c) (n := n + p.length) (p := q) (by omega) (by omega)
        hrest
      have hlen : (Parts.flat ((b,p) :: pre)).length = p.length + pre.flat.length := by
        simp [Parts.flat]
      have hbefore := hr.before
      have hbase := hr.base
      have hafter := hr.after
      push_cast at hbefore hbase hafter
      refine ⟨(b,p) :: pre,d,r,post,by rw [hr.split]; rfl,?_,?_,?_,?_⟩
      · rw [Assoc.keys_cons, Assoc.keys_cons, Topic.baseOffsetLoop, if_neg hskip,
          ← Assoc.keys_cons (v := q)]
        exact hr.found
      · rw [hlen]
        omega
      · rw [hlen]
        omega
      · intro hne
        obtain ⟨hle,d,hd,hod⟩ := hafter hne
        rw [hlen]
        exact ⟨by omega,d,hd,hod⟩
    · have htake : b ≤ o ∧ o ≤ c := by
        rw [Int64.le_iff_toInt_le, Int64.le_iff_toInt_le]
        omega
      refine ⟨[],b,p,(c,q) :: rest,rfl,?_,?_,?_,fun _ => ?_⟩
      · rw [Assoc.keys_cons, Assoc.keys_cons, Topic.baseOffsetLoop, if_pos htake]
      · simpa [Parts.flat] using ho
      · simpa [Parts.flat] using hb
      · have hnil : (Parts.flat []).length = 0 := rfl
        exact ⟨by omega,c,List.mem_cons_self,htake.2⟩

theorem nextBaseOffsetLoop_skip {pre l : List Int64} (h : b ∉ pre) :
    Topic.nextBaseOffsetLoop b (pre ++ l) = Topic.nextBaseOffsetLoop b l := by
  induction pre with
  | nil => rfl
  | cons a pre ih =>
    have hne : a ≠ b := fun he => h (he ▸ List.mem_cons_self)
    have hrest := ih fun hm => h (List.mem_cons_of_mem _ hm)
    rw [List.cons_append, ← hrest]
    cases pre ++ l with
    | nil => rfl
    | cons c bs => rw [Topic.nextBaseOffsetLoop, if_neg hne]

theorem Arranged.nextBaseOffset {parts pre post : Parts} {t : Topic} (h : Arranged parts)
    (ht : t.segments = Assoc.keys parts) (hs : parts = pre ++ (b,p) :: post) :
    t.nextBaseOffset b = match post with
      | [] => -1
      | (c,_) :: _ => c := by
  have hkeys : Assoc.keys parts = Assoc.keys pre ++ b :: Assoc.keys post := by
    rw [hs, Assoc.keys, List.map_append]
    rfl
  have hnot : b ∉ Assoc.keys pre := by
    have hn := h.nodup
    rw [hkeys, List.nodup_append] at hn
    exact fun hm => hn.2.2 b hm b List.mem_cons_self rfl
  rw [Topic.nextBaseOffset, ht, hkeys, nextBaseOffsetLoop_skip hnot]
  cases post with
  | nil => rfl
  | cons e post =>
    rw [Assoc.keys_cons, Topic.nextBaseOffsetLoop, if_pos rfl]

end Routing
end LiMaoIM.Db

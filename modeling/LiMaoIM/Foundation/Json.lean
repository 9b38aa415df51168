import LiMaoIM.Foundation.Assoc
import LiMaoIM.Foundation.Bytes

namespace LiMaoIM.Json

open Outcome Bytes

def quote : UInt8 := 0x22

def backslash : UInt8 := 0x5C

def utf8 (cs : List Char) : Bytes := cs.flatMap String.utf8EncodeChar

def hexValue (b : UInt8) : Option Nat :=
  if 48 ≤ b.toNat ∧ b.toNat ≤ 57 then some (b.toNat - 48)
  else if 97 ≤ b.toNat ∧ b.toNat ≤ 102 then some (b.toNat - 87)
  else if 65 ≤ b.toNat ∧ b.toNat ≤ 70 then some (b.toNat - 55)
  else none

def unicodeEscape (n : Nat) : Bytes :=
  [backslash,0x75,hexDigit (n / 4096 % 16),hexDigit (n / 256 % 16),hexDigit (n / 16 % 16),
    hexDigit (n % 16)]

def encodeChar (c : Char) : Bytes :=
  if c = '"' ∨ c = '\\' then [backslash,UInt8.ofNat c.toNat]
  else if c = '\n' then [backslash,0x6E]
  else if c = '\r' then [backslash,0x72]
  else if c = '\t' then [backslash,0x74]
  else if c.toNat < 0x20 ∨ c = '<' ∨ c = '>' ∨ c = '&' ∨ c.toNat = 0x2028 ∨ c.toNat = 0x2029 then
    unicodeEscape c.toNat
  else String.utf8EncodeChar c

def encodeString (cs : List Char) : Bytes := quote :: (cs.flatMap encodeChar ++ [quote])

def getu4 : Bytes → Option (Nat × Bytes)
  | a :: b :: c :: d :: rest => do
      let w ← hexValue a
      let x ← hexValue b
      let y ← hexValue c
      let z ← hexValue d
      pure (((w * 16 + x) * 16 + y) * 16 + z,rest)
  | _ => none

def encodeRune (n : Nat) : Bytes := String.utf8EncodeChar (Char.ofNat n)

def isSurrogate (n : Nat) : Bool := 0xD800 ≤ n ∧ n < 0xE000

def lowSurrogate (bs : Bytes) : Option (Nat × Bytes) :=
  match bs with
  | 0x5C :: 0x75 :: rest =>
      match getu4 rest with
      | some (n,rest) => if 0xDC00 ≤ n ∧ n < 0xE000 then some (n,rest) else none
      | none => none
  | _ => none

def unicode (bs : Bytes) : Option (Bytes × Bytes) :=
  match getu4 bs with
  | none => none
  | some (n,rest) =>
      if isSurrogate n then
        match (if n < 0xDC00 then lowSurrogate rest else none) with
        | some (low,rest) =>
            some (encodeRune ((n - 0xD800) * 0x400 + (low - 0xDC00) + 0x10000),rest)
        | none => some (encodeRune 0xFFFD,rest)
      else some (encodeRune n,rest)

def escape : Bytes → Option (Bytes × Bytes)
  | 0x22 :: rest => some ([0x22],rest)
  | 0x5C :: rest => some ([0x5C],rest)
  | 0x2F :: rest => some ([0x2F],rest)
  | 0x62 :: rest => some ([0x08],rest)
  | 0x66 :: rest => some ([0x0C],rest)
  | 0x6E :: rest => some ([0x0A],rest)
  | 0x72 :: rest => some ([0x0D],rest)
  | 0x74 :: rest => some ([0x09],rest)
  | 0x75 :: rest => unicode rest
  | _ => none

def unquoteUnit : Bytes → Option (Bytes × Bytes)
  | [] => none
  | b :: rest =>
      if b = backslash then escape rest
      else if b.toNat < 0x20 then none
      else some ([b],rest)

def stringLoop : Nat → Bytes → Bytes → Option (Bytes × Bytes)
  | 0, _, _ => none
  | fuel + 1, input, acc =>
      if input.head? = some quote then some (acc,input.tail)
      else
        match unquoteUnit input with
        | none => none
        | some (out,rest) => stringLoop fuel rest (acc ++ out)

def parseString (input : Bytes) : Option (Bytes × Bytes) :=
  if input.head? = some quote then stringLoop input.length input.tail [] else none

def isSpace (b : UInt8) : Bool := b = 0x20 ∨ b = 0x09 ∨ b = 0x0A ∨ b = 0x0D

def skipSpace (input : Bytes) : Bytes := input.dropWhile isSpace

def null : Bytes := [0x6E,0x75,0x6C,0x6C]

def parseValue (input : Bytes) : Option (Bytes × Bytes) :=
  if null <+: input then some ([],input.drop 4) else parseString input

def expect (b : UInt8) (input : Bytes) : Option Bytes :=
  if input.head? = some b then some input.tail else none

def membersLoop : Nat → Bytes → List (Bytes × Bytes) → Option (List (Bytes × Bytes))
  | 0, _, _ => none
  | fuel + 1, input, acc => do
      let (key,rest) ← parseString (skipSpace input)
      let rest ← expect 0x3A (skipSpace rest)
      let (value,rest) ← parseValue (skipSpace rest)
      let acc := Assoc.put key value acc
      if (skipSpace rest).head? = some 0x2C then membersLoop fuel (skipSpace rest).tail acc
      else if (skipSpace rest).head? = some 0x7D then some acc
      else none

def parseObject (input : Bytes) : Option (List (Bytes × Bytes)) :=
  if null <+: skipSpace input then some []
  else do
    let rest ← expect 0x7B (skipSpace input)
    if (skipSpace rest).head? = some 0x7D then some [] else membersLoop rest.length rest []

def encodeMember (e : List Char × List Char) : Bytes :=
  encodeString e.1 ++ (0x3A :: encodeString e.2)

def encodeObject (m : List (List Char × List Char)) : Bytes :=
  0x7B :: ([0x2C].intercalate (m.map encodeMember) ++ [0x7D])

section Strings

def Consumes (bs out : Bytes) : Prop :=
  ∃ k ≤ bs.length, ∀ fuel rest acc,
    stringLoop (fuel + k) (bs ++ rest) acc = stringLoop fuel rest (acc ++ out)

theorem consumes_nil : Consumes [] [] := ⟨0,Nat.zero_le _,fun fuel rest acc => by simp⟩

theorem Consumes.append {a b x y : Bytes} (h : Consumes a x) (h' : Consumes b y) :
    Consumes (a ++ b) (x ++ y) := by
  obtain ⟨j,hj,hloop⟩ := h
  obtain ⟨k,hk,hloop'⟩ := h'
  refine ⟨k + j,by rw [List.length_append]; omega,fun fuel rest acc => ?_⟩
  rw [← Nat.add_assoc, List.append_assoc, hloop, hloop', List.append_assoc]

theorem consumes_unit {b : UInt8} {bs out : Bytes} (hq : b ≠ quote)
    (h : ∀ rest, unquoteUnit (b :: (bs ++ rest)) = some (out,rest)) : Consumes (b :: bs) out := by
  refine ⟨1,by simp,fun fuel rest acc => ?_⟩
  have hhead : ¬ (b :: bs ++ rest).head? = some quote := by simpa using hq
  rw [stringLoop, if_neg hhead, List.cons_append, h]

theorem consumes_raw {b : UInt8} (hq : b ≠ quote) (hb : b ≠ backslash) (hlow : 0x20 ≤ b.toNat) :
    Consumes [b] [b] := by
  apply consumes_unit hq
  intro rest
  rw [List.nil_append, unquoteUnit, if_neg hb, if_neg (by omega)]

theorem consumes_high {bs : Bytes} (h : ∀ b ∈ bs, 0x80 ≤ b.toNat) : Consumes bs bs := by
  induction bs with
  | nil => exact consumes_nil
  | cons b bs ih =>
    have hb := h b List.mem_cons_self
    have hq : b ≠ quote := by
      rintro rfl
      exact absurd hb (by decide)
    have hs : b ≠ backslash := by
      rintro rfl
      exact absurd hb (by decide)
    exact (consumes_raw hq hs (by omega)).append (ih fun x hx => h x (List.mem_cons_of_mem _ hx))

theorem hexValue_hexDigit {n : Nat} (h : n < 16) : hexValue (hexDigit n) = some n := by
  revert n
  decide

theorem getu4_hex {n : Nat} (h : n < 65536) (rest : Bytes) :
    getu4 (hexDigit (n / 4096 % 16) :: hexDigit (n / 256 % 16) :: hexDigit (n / 16 % 16) ::
      hexDigit (n % 16) :: rest) = some (n,rest) := by
  have hlt : ∀ m, m % 16 < 16 := fun m => Nat.mod_lt m (by omega)
  have hn : ((n / 4096 % 16 * 16 + n / 256 % 16) * 16 + n / 16 % 16) * 16 + n % 16 = n := by omega
  rw [getu4, hexValue_hexDigit (hlt _), hexValue_hexDigit (hlt _), hexValue_hexDigit (hlt _),
    hexValue_hexDigit (hlt _)]
  simp only [Option.bind_eq_bind, Option.bind_some, hn]
  rfl

theorem consumes_unicode {c : Char} (h : c.toNat < 0xD800) :
    Consumes (unicodeEscape c.toNat) (String.utf8EncodeChar c) := by
  apply consumes_unit (by decide)
  intro rest
  have hs : isSurrogate c.toNat = false := by
    rw [isSurrogate, decide_eq_false_iff_not]
    omega
  have hunicode := getu4_hex (show c.toNat < 65536 by omega) rest
  show unicode (hexDigit (c.toNat / 4096 % 16) :: hexDigit (c.toNat / 256 % 16) ::
    hexDigit (c.toNat / 16 % 16) :: hexDigit (c.toNat % 16) :: rest) = _
  rw [unicode, hunicode]
  simp [hs, encodeRune, Char.ofNat_toNat]

theorem utf8EncodeChar_ascii {c : Char} (h : c.toNat < 0x80) :
    String.utf8EncodeChar c = [UInt8.ofNat c.toNat] := by
  have hle : c.val.toNat ≤ 0x7F := Nat.le_of_lt_succ h
  rw [String.utf8EncodeChar, if_pos hle]
  rfl

theorem utf8EncodeChar_high {c : Char} (h : 0x80 ≤ c.toNat) :
    ∀ b ∈ String.utf8EncodeChar c, 0x80 ≤ b.toNat := by
  have hv : 0x80 ≤ c.val.toNat := h
  intro b hb
  simp only [String.utf8EncodeChar] at hb
  rw [if_neg (by omega)] at hb
  split at hb
  · simp only [List.mem_cons, List.not_mem_nil, or_false] at hb
    rcases hb with rfl | rfl <;> simp <;> omega
  · split at hb
    · simp only [List.mem_cons, List.not_mem_nil, or_false] at hb
      rcases hb with rfl | rfl | rfl <;> simp <;> omega
    · simp only [List.mem_cons, List.not_mem_nil, or_false] at hb
      rcases hb with rfl | rfl | rfl | rfl <;> simp <;> omega

theorem consumes_plain {c : Char} (hq : c ≠ '"') (hb : c ≠ '\\') (hlow : 0x20 ≤ c.toNat) :
    Consumes (String.utf8EncodeChar c) (String.utf8EncodeChar c) := by
  rcases Nat.lt_or_ge c.toNat 0x80 with hlt | hge
  · have hnat : (UInt8.ofNat c.toNat).toNat = c.toNat := by
      rw [UInt8.toNat_ofNat', Nat.mod_eq_of_lt (by omega)]
    have hback : ∀ d : Char, c ≠ d → d.toNat < 0x80 → UInt8.ofNat c.toNat ≠ UInt8.ofNat d.toNat := by
      intro d hne hd he
      have hval := congrArg UInt8.toNat he
      rw [hnat, UInt8.toNat_ofNat', Nat.mod_eq_of_lt (by omega)] at hval
      exact hne (Char.toNat_inj.mp hval)
    rw [utf8EncodeChar_ascii hlt]
    exact consumes_raw (hback '"' hq (by decide)) (hback '\\' hb (by decide)) (by omega)
  · exact consumes_high (utf8EncodeChar_high hge)

theorem consumes_encodeChar (c : Char) : Consumes (encodeChar c) (String.utf8EncodeChar c) := by
  have hescape : ∀ b : UInt8, ∀ out : Bytes, (∀ rest, escape (b :: rest) = some (out,rest)) →
      Consumes [backslash,b] out := by
    intro b out h
    apply consumes_unit (by decide)
    intro rest
    rw [unquoteUnit, if_pos rfl]
    exact h rest
  rw [encodeChar]
  split_ifs with hq hn hr ht hu
  · rcases hq with rfl | rfl
    · exact hescape _ _ fun rest => rfl
    · exact hescape _ _ fun rest => rfl
  · subst hn
    exact hescape _ _ fun rest => rfl
  · subst hr
    exact hescape _ _ fun rest => rfl
  · subst ht
    exact hescape _ _ fun rest => rfl
  · apply consumes_unicode
    rcases hu with h | rfl | rfl | rfl | h | h
    · omega
    · decide
    · decide
    · decide
    · omega
    · omega
  · rw [not_or] at hq
    exact consumes_plain hq.1 hq.2 (by omega)

theorem consumes_chars (cs : List Char) : Consumes (cs.flatMap encodeChar) (utf8 cs) := by
  induction cs with
  | nil => exact consumes_nil
  | cons c cs ih =>
    rw [utf8, List.flatMap_cons, List.flatMap_cons]
    exact (consumes_encodeChar c).append ih

theorem parseString_encodeString (cs : List Char) (rest : Bytes) :
    parseString (encodeString cs ++ rest) = some (utf8 cs,rest) := by
  obtain ⟨k,hk,hloop⟩ := consumes_chars cs
  have hlen : (encodeString cs ++ rest).length =
      (rest.length + 1 + ((cs.flatMap encodeChar).length - k)) + 1 + k := by
    rw [encodeString]
    simp only [List.cons_append, List.length_cons, List.length_append, List.length_nil]
    omega
  have htail : (encodeString cs ++ rest).tail = cs.flatMap encodeChar ++ (quote :: rest) := by
    rw [encodeString]
    simp
  have hhead : (encodeString cs ++ rest).head? = some quote := rfl
  rw [parseString, if_pos hhead, hlen, htail, hloop, stringLoop,
    if_pos List.head?_cons]
  rfl

end Strings

section Objects

theorem skipSpace_cons {b : UInt8} (h : isSpace b = false) (rest : Bytes) :
    skipSpace (b :: rest) = b :: rest := by
  rw [skipSpace, List.dropWhile_cons_of_neg (by simp [h])]

theorem skipSpace_encodeString (cs : List Char) (rest : Bytes) :
    skipSpace (encodeString cs ++ rest) = encodeString cs ++ rest :=
  skipSpace_cons (by decide) _

def putAll (m : List (List Char × List Char)) (acc : List (Bytes × Bytes)) : List (Bytes × Bytes) :=
  m.foldl (fun acc e => Assoc.put (utf8 e.1) (utf8 e.2) acc) acc

theorem membersLoop_member {fuel : Nat} (e : List Char × List Char) (rest : Bytes)
    (acc : List (Bytes × Bytes)) {b : UInt8} (hb : isSpace b = false) :
    membersLoop (fuel + 1) (encodeMember e ++ b :: rest) acc =
      if b = 0x2C then membersLoop fuel rest (Assoc.put (utf8 e.1) (utf8 e.2) acc)
      else if b = 0x7D then some (Assoc.put (utf8 e.1) (utf8 e.2) acc)
      else none := by
  have hinput : encodeMember e ++ b :: rest =
      encodeString e.1 ++ (0x3A :: (encodeString e.2 ++ b :: rest)) := by
    simp [encodeMember]
  have hnull : ¬ null <+: encodeString e.2 ++ b :: rest := by
    rintro ⟨t,ht⟩
    exact absurd (List.cons.inj ht).1 (by decide)
  have hexpect : expect 0x3A (skipSpace (0x3A :: (encodeString e.2 ++ b :: rest))) =
      some (encodeString e.2 ++ b :: rest) := by
    rw [skipSpace_cons (by decide)]
    rfl
  rw [membersLoop, hinput, skipSpace_encodeString, parseString_encodeString]
  simp only [Option.bind_eq_bind, Option.bind_some, hexpect, skipSpace_encodeString, parseValue,
    if_neg hnull, parseString_encodeString, skipSpace_cons hb, List.head?_cons, List.tail_cons,
    Option.some.injEq]

theorem membersLoop_encode {m : List (List Char × List Char)} (hm : m ≠ []) {fuel : Nat}
    (hf : m.length ≤ fuel) (acc : List (Bytes × Bytes)) :
    membersLoop fuel ([0x2C].intercalate (m.map encodeMember) ++ [0x7D]) acc =
      some (putAll m acc) := by
  induction m generalizing fuel acc with
  | nil => exact absurd rfl hm
  | cons e m ih =>
    obtain ⟨fuel,rfl⟩ : ∃ n, fuel = n + 1 := ⟨fuel - 1,by simp at hf; omega⟩
    cases m with
    | nil =>
      have hone : [0x2C].intercalate ([e].map encodeMember) ++ [0x7D] =
          encodeMember e ++ 0x7D :: [] := by
        simp
      rw [hone, membersLoop_member e [] acc (by decide), if_neg (by decide), if_pos rfl]
      rfl
    | cons e' m =>
      have hmore : [0x2C].intercalate ((e :: e' :: m).map encodeMember) ++ [0x7D] =
          encodeMember e ++
            0x2C :: ([0x2C].intercalate ((e' :: m).map encodeMember) ++ [0x7D]) := by
        simp [List.intercalate]
      rw [hmore, membersLoop_member e _ acc (by decide), if_pos rfl,
        ih (by simp) (by simpa using hf)]
      rfl

theorem encodeMember_cons (e : List Char × List Char) : ∃ bs, encodeMember e = quote :: bs :=
  ⟨_,rfl⟩

theorem intercalate_members {m : List (List Char × List Char)} (hm : m ≠ []) :
    (∃ bs, [0x2C].intercalate (m.map encodeMember) = quote :: bs) ∧
      m.length ≤ ([0x2C].intercalate (m.map encodeMember)).length := by
  induction m with
  | nil => exact absurd rfl hm
  | cons e m ih =>
    obtain ⟨bs,hbs⟩ := encodeMember_cons e
    cases m with
    | nil => exact ⟨⟨bs,by simp [hbs]⟩,by simp [hbs]⟩
    | cons e' m =>
      have hmore : [0x2C].intercalate ((e :: e' :: m).map encodeMember) =
          quote :: (bs ++ 0x2C :: [0x2C].intercalate ((e' :: m).map encodeMember)) := by
        simp [List.intercalate, hbs]
      have hlen := (ih (by simp)).2
      refine ⟨⟨_,hmore⟩,?_⟩
      rw [hmore]
      simp only [List.length_cons, List.length_append] at hlen ⊢
      omega

theorem parseObject_encodeObject {m : List (List Char × List Char)} (hm : m ≠ []) :
    parseObject (encodeObject m) = some (putAll m []) := by
  obtain ⟨⟨bs,hbs⟩,hlen⟩ := intercalate_members hm
  have hloop := membersLoop_encode hm (Nat.le_succ_of_le hlen) []
  rw [hbs] at hloop hlen
  have hskip : skipSpace (encodeObject m) = 0x7B :: (quote :: bs ++ [0x7D]) := by
    rw [encodeObject, hbs]
    exact skipSpace_cons (by decide) _
  have hnull : ¬ null <+: skipSpace (encodeObject m) := by
    rw [hskip]
    rintro ⟨t,ht⟩
    exact absurd (List.cons.inj ht).1 (by decide)
  have hexpect : expect 0x7B (skipSpace (encodeObject m)) = some (quote :: bs ++ [0x7D]) := by
    rw [hskip]
    rfl
  have hhead : ¬ (skipSpace (quote :: bs ++ [0x7D])).head? = some 0x7D := by
    rw [List.cons_append, skipSpace_cons (by decide), List.head?_cons]
    decide
  have hfuel : (quote :: bs ++ [0x7D]).length = (quote :: bs).length + 1 := by simp
  rw [parseObject, if_neg hnull, hexpect]
  simp only [Option.bind_eq_bind, Option.bind_some, if_neg hhead]
  rw [hfuel]
  exact hloop

end Objects

example : parseObject (encodeObject [("a<\"".toList,"é\n".toList)]) =
    some [(utf8 "a<\"".toList,utf8 "é\n".toList)] := by decide +kernel

end LiMaoIM.Json

import Ar8030Transport.Library.FormText

/-!
# Query parameters

`query_param` of `lifecycle_http.c`: the value of a key in the query of a request, decoded into a
buffer.

A pointer into a string stands as the bytes from it up to the terminator. Reading behind the
terminator, moving a pointer past it and writing outside of the buffer are not defined: there the
result is `none`. It is `none` as well when the fuel, which counts the turns of a loop, runs out.
So a result is always that of a run that ends and stays where it may be.
-/

namespace Ar8030

open HexText FormText

/-! ### Pointers -/

/-- A string: bytes without a terminator in them. -/
structure CStr where
  bytes : List UInt8
  zero_notMem : 0 ∉ bytes

/-- `p[i]`. -/
def charAt (p : List UInt8) (i : ℕ) : Option UInt8 := (p ++ [0])[i]?

/-- `p + n`. -/
def movePtr (p : List UInt8) (n : ℕ) : Option (List UInt8) :=
  if n ≤ p.length then some (p.drop n) else none

/-- `out[i] = b`, for a buffer of `out.length` bytes. -/
def writeAt (out : List UInt8) (i : ℕ) (b : UInt8) : Option (List UInt8) :=
  if i < out.length then some (out.set i b) else none

/-- `strncmp(p, key, strlen(key)) == 0`. -/
def strncmpEq (p key : List UInt8) : Bool := key.isPrefixOf p

/-- `strchr`. -/
def strchr (p : List UInt8) (c : UInt8) : Option (List UInt8) :=
  if p.dropWhile (· != c) = [] then none else some (p.dropWhile (· != c))

/-! ### The function -/

/-- `hex_nibble`; `none` is -1. -/
def hexNibble (c : UInt8) : Option ℕ := hexVal c

/-- The byte a turn of the decoding loop writes, and how far it moves. -/
def decodeAt (v : List UInt8) : Option (UInt8 × ℕ) :=
  (charAt v 0).bind fun c =>
    if c = 43 then some (32, 1)
    else if c = 37 then
      (charAt v 1).bind fun c1 =>
        if c1 = 0 then some (c, 1)
        else
          (charAt v 2).bind fun c2 =>
            if c2 = 0 then some (c, 1)
            else
              match hexNibble c1, hexNibble c2 with
              | some hi, some lo => some (UInt8.ofNat (hi <<< 4 ||| lo), 3)
              | _, _ => some (c, 1)
    else some (c, 1)

/-- The decoding loop: how much it has written, and the buffer. -/
def decodeLoop : ℕ → List UInt8 → ℕ → List UInt8 → Option (ℕ × List UInt8)
  | 0, _, _, _ => none
  | fuel + 1, v, i, out =>
    (charAt v 0).bind fun c =>
      if c ≠ 0 ∧ c ≠ 38 ∧ i < out.length - 1 then
        (decodeAt v).bind fun r =>
          (writeAt out i r.1).bind fun out =>
            (movePtr v r.2).bind fun v => decodeLoop fuel v (i + 1) out
      else some (i, out)

/-- Whether the text at `q` is that of the key. -/
def matchesKey (q key : List UInt8) : Option Bool :=
  if strncmpEq q key then
    (charAt q key.length).map fun c => c == 61 || c == 38 || c == 0
  else some false

/-- Decode the value behind the key. -/
def copyValue (fuel : ℕ) (q key out : List UInt8) : Option (ℤ × List UInt8) :=
  (charAt q key.length).bind fun c =>
    (movePtr q (if c = 61 then key.length + 1 else key.length)).bind fun v =>
      (decodeLoop fuel v 0 out).bind fun r =>
        (writeAt r.2 r.1 0).map fun out => (0, out)

/-- The loop over the parameters. -/
def queryLoop (key out : List UInt8) : ℕ → List UInt8 → Option (ℤ × List UInt8)
  | 0, _ => none
  | fuel + 1, q =>
    (charAt q 0).bind fun c =>
      if c = 0 then some (-1, out)
      else if c = 38 then (movePtr q 1).bind (queryLoop key out fuel)
      else
        (matchesKey q key).bind fun found =>
          if found then copyValue (fuel + 1) q key out
          else
            match strchr q 38 with
            | none => some (-1, out)
            | some p => (movePtr p 1).bind (queryLoop key out fuel)

/-- `query_param`: what it returns, and the buffer, whose length is `out_sz`. -/
def queryParam (fuel : ℕ) (query key : Option CStr) (out : Option (List UInt8)) :
    Option (ℤ × Option (List UInt8)) :=
  match query, key, out with
  | some q, some k, some out =>
    if out.length = 0 then some (-1, some out)
    else (queryLoop k.bytes out fuel q.bytes).map fun r => (r.1, some r.2)
  | _, _, out => some (-1, out)

/-! ### Reading and moving -/

@[simp]
theorem charAt_cons_zero (c : UInt8) (p : List UInt8) : charAt (c :: p) 0 = some c := rfl

@[simp]
theorem charAt_cons_succ (c : UInt8) (p : List UInt8) (i : ℕ) :
    charAt (c :: p) (i + 1) = charAt p i := rfl

/-- The byte behind a text. -/
theorem charAt_append_length (p : List UInt8) (c : UInt8) (r : List UInt8) :
    charAt (p ++ c :: r) p.length = some c := by
  rw [charAt, List.append_assoc, List.getElem?_append_right le_rfl, Nat.sub_self]
  rfl

/-- Past a text. -/
theorem movePtr_append_length (p r : List UInt8) : movePtr (p ++ r) p.length = some r := by
  rw [movePtr, if_pos (by simp), List.drop_left]

/-- A loop with fuel takes a turn. -/
theorem exists_turn {n fuel : ℕ} (h : n < fuel) : ∃ rest, fuel = rest + 1 :=
  Nat.exists_eq_succ_of_ne_zero (Nat.ne_of_gt (Nat.zero_lt_of_lt h))

/-! ### Staying inside -/

theorem charAt_of_lt {p : List UInt8} {i : ℕ} (h : i < p.length) : charAt p i = some p[i] := by
  rw [charAt, List.getElem?_append_left h, List.getElem?_eq_getElem h]

/-- Up to the terminator there is something to read, and what is not 0 lies in front of it. -/
theorem exists_charAt {p : List UInt8} {i : ℕ} (hi : i ≤ p.length) :
    ∃ c, charAt p i = some c ∧ (c ≠ 0 → i < p.length) := by
  rcases hi.eq_or_lt with rfl | hlt
  · refine ⟨0, ?_, fun h => absurd rfl h⟩
    rw [charAt, List.getElem?_append_right le_rfl, Nat.sub_self]
    rfl
  · exact ⟨p[i], charAt_of_lt hlt, fun _ => hlt⟩

/-- A turn of the decoding loop reads no further than the terminator, and moves no further. -/
theorem decodeAt_safe {v : List UInt8} (hne : 0 < v.length) :
    ∃ b n, decodeAt v = some (b, n) ∧ 0 < n ∧ n ≤ v.length := by
  obtain ⟨c, hc, -⟩ := exists_charAt (Nat.zero_le _)
  obtain ⟨c1, hc1, hlt1⟩ := exists_charAt hne
  rw [decodeAt, hc, Option.bind_some]
  by_cases hplus : c = 43
  · exact ⟨32, 1, if_pos hplus, Nat.one_pos, hne⟩
  rw [if_neg hplus]
  by_cases hpercent : c = 37
  swap
  · exact ⟨c, 1, if_neg hpercent, Nat.one_pos, hne⟩
  rw [if_pos hpercent, hc1, Option.bind_some]
  by_cases hend : c1 = 0
  · exact ⟨c, 1, if_pos hend, Nat.one_pos, hne⟩
  -- the second digit is only read behind a first one
  obtain ⟨c2, hc2, hlt2⟩ := exists_charAt (hlt1 hend)
  rw [if_neg hend, hc2, Option.bind_some]
  by_cases hend2 : c2 = 0
  · exact ⟨c, 1, if_pos hend2, Nat.one_pos, hne⟩
  rw [if_neg hend2]
  cases hexNibble c1 with
  | none => exact ⟨c, 1, rfl, Nat.one_pos, hne⟩
  | some hi =>
    cases hexNibble c2 with
    | none => exact ⟨c, 1, rfl, Nat.one_pos, hne⟩
    | some lo => exact ⟨_, 3, rfl, by decide, hlt2 hend2⟩

/-- The decoding loop ends, and leaves room for the terminator. -/
theorem decodeLoop_safe {fuel : ℕ} {v out : List UInt8} {i : ℕ}
    (hfuel : v.length < fuel) (hi : i < out.length) :
    ∃ j out', decodeLoop fuel v i out = some (j, out') ∧ j < out.length ∧
      out'.length = out.length := by
  induction fuel generalizing v i out with
  | zero => exact absurd hfuel (Nat.not_lt_zero _)
  | succ fuel ih =>
    obtain ⟨c, hc, hlt⟩ := exists_charAt (Nat.zero_le _)
    rw [decodeLoop, hc, Option.bind_some]
    split_ifs with hgo
    · obtain ⟨b, n, hdecode, hpos, hle⟩ := decodeAt_safe (hlt hgo.1)
      rw [hdecode, Option.bind_some, writeAt, if_pos hi, Option.bind_some, movePtr, if_pos hle,
        Option.bind_some]
      obtain ⟨j, out', hloop, hj, hlen⟩ := @ih (v.drop n) (out.set i b) (i + 1)
        (by rw [List.length_drop]; omega) (by rw [List.length_set]; omega)
      rw [List.length_set] at hj hlen
      exact ⟨j, out', hloop, hj, hlen⟩
    · exact ⟨i, out, rfl, hi, rfl⟩

/-- `strncmp` compares what is there. -/
theorem length_le_of_strncmpEq {q key : List UInt8} (h : strncmpEq q key = true) :
    key.length ≤ q.length := (List.isPrefixOf_iff_prefix.mp h).length_le

/-- A key that is found lies in front of the terminator. -/
theorem matchesKey_safe (q key : List UInt8) :
    ∃ found, matchesKey q key = some found ∧ (found = true → key.length ≤ q.length) := by
  rw [matchesKey]
  split_ifs with heq
  · have hle := length_le_of_strncmpEq heq
    obtain ⟨c, hc, -⟩ := exists_charAt hle
    exact ⟨_, by rw [hc, Option.map_some], fun _ => hle⟩
  · exact ⟨false, rfl, fun h => absurd h Bool.false_ne_true⟩

theorem copyValue_safe {fuel : ℕ} {q key out : List UInt8} (hfuel : q.length < fuel)
    (hout : 0 < out.length) (hkey : key.length ≤ q.length) :
    ∃ out', copyValue fuel q key out = some (0, out') ∧ out'.length = out.length := by
  obtain ⟨c, hc, hlt⟩ := exists_charAt hkey
  have hle : (if c = 61 then key.length + 1 else key.length) ≤ q.length := by
    split_ifs with heq
    · exact hlt (heq ▸ by decide)
    · exact hkey
  rw [copyValue, hc, Option.bind_some, movePtr, if_pos hle, Option.bind_some]
  generalize (if c = 61 then key.length + 1 else key.length) = n at hle
  obtain ⟨j, out', hloop, hj, hlen⟩ := @decodeLoop_safe fuel (q.drop n) out 0
    (by rw [List.length_drop]; omega) hout
  rw [hloop, Option.bind_some, writeAt, if_pos (hlen ▸ hj)]
  exact ⟨_, rfl, by rw [List.length_set, hlen]⟩

/-- What `strchr` finds lies in the string. -/
theorem strchr_eq_some {q p : List UInt8} {c : UInt8} (h : strchr q c = some p) :
    p <:+ q ∧ 0 < p.length := by
  rw [strchr] at h
  split_ifs at h with hnil
  obtain rfl := Option.some.inj h
  exact ⟨List.dropWhile_suffix _, List.length_pos_iff.mpr hnil⟩

theorem queryLoop_safe {key out : List UInt8} {fuel : ℕ} {q : List UInt8}
    (hfuel : q.length < fuel) (hout : 0 < out.length) :
    ∃ r out', queryLoop key out fuel q = some (r, out') ∧ (r = 0 ∨ r = -1) ∧
      out'.length = out.length := by
  induction fuel generalizing q with
  | zero => exact absurd hfuel (Nat.not_lt_zero _)
  | succ fuel ih =>
    obtain ⟨c, hc, hlt⟩ := exists_charAt (Nat.zero_le _)
    rw [queryLoop, hc, Option.bind_some]
    split_ifs with hend hamp
    · exact ⟨-1, out, rfl, .inr rfl, rfl⟩
    · have hpos : 1 ≤ q.length := hlt hend
      rw [movePtr, if_pos hpos, Option.bind_some]
      exact ih (by rw [List.length_drop]; omega)
    · obtain ⟨found, hmatch, hle⟩ := matchesKey_safe q key
      rw [hmatch, Option.bind_some]
      split_ifs with hfound
      · obtain ⟨out', hcopy, hlen⟩ := copyValue_safe hfuel hout (hle hfound)
        exact ⟨0, out', hcopy, .inl rfl, hlen⟩
      · cases hchr : strchr q 38 with
        | none => exact ⟨-1, out, rfl, .inr rfl, rfl⟩
        | some p =>
          obtain ⟨hsuffix, hpos⟩ := strchr_eq_some hchr
          have hlen := hsuffix.length_le
          dsimp only
          rw [movePtr, if_pos (show 1 ≤ p.length from hpos), Option.bind_some]
          exact ih (by rw [List.length_drop]; omega)

/-! ### Decoding a value -/

/-- The digits of a byte make the byte. -/
theorem ofNat_digits (b : UInt8) :
    UInt8.ofNat ((b.toNat / 16) <<< 4 ||| (b.toNat % 16)) = b := by
  have hlo : b.toNat % 16 < 2 ^ 4 := Nat.mod_lt _ (by decide)
  rw [← Nat.shiftLeft_add_eq_or_of_lt hlo, Nat.shiftLeft_eq, Nat.div_add_mod', UInt8.ofNat_toNat]

/-- A text of a byte is read as this byte. -/
theorem decodeAt_byteText {b : UInt8} {l : List UInt8} (h : ByteText b l) (rest : List UInt8) :
    decodeAt (l ++ rest) = some (b, l.length) := by
  cases h with
  | self _ hpercent hplus =>
    rw [decodeAt, List.singleton_append, charAt_cons_zero, Option.bind_some, if_neg hplus,
      if_neg hpercent]
    rfl
  | space => rfl
  | @escape _ hi lo hhi hlo =>
    obtain ⟨hhi, -, hi0⟩ := hhi.spec (Nat.div_lt_of_lt_mul b.toNat_lt)
    obtain ⟨hlo, -, lo0⟩ := hlo.spec (Nat.mod_lt _ (by decide))
    show decodeAt (37 :: hi :: lo :: rest) = some (b, 3)
    rw [decodeAt, charAt_cons_zero, Option.bind_some, if_neg (by decide), if_pos rfl,
      charAt_cons_succ, charAt_cons_zero, Option.bind_some, if_neg hi0, charAt_cons_succ,
      charAt_cons_succ, charAt_cons_zero, Option.bind_some, if_neg lo0, hexNibble, hexNibble, hhi,
      hlo]
    dsimp only
    rw [ofNat_digits]

/-- What follows a value: nothing, or a `&`. -/
def EndsValue (rest : List UInt8) : Prop := ∀ c ∈ rest.head?, c = 38

theorem charAt_of_endsValue {rest : List UInt8} (h : EndsValue rest) :
    charAt rest 0 = some 0 ∨ charAt rest 0 = some 38 := by
  cases rest with
  | nil => exact .inl rfl
  | cons c rest => exact .inr (congrArg some (h c rfl))

/-- Bytes in a buffer from `i` on. -/
theorem set_append_drop {out bs : List UInt8} {i : ℕ} (hi : i < out.length) (b : UInt8) :
    (out.set i b).take (i + 1) ++ bs ++ (out.set i b).drop (i + 1 + bs.length) =
      out.take i ++ (b :: bs) ++ out.drop (i + (b :: bs).length) := by
  have htake : (out.set i b).take (i + 1) = out.take i ++ [b] := by
    rw [List.take_add_one, List.take_set_of_le le_rfl, List.getElem?_set_self hi]
    rfl
  rw [htake, List.drop_set_of_lt (by omega), List.length_cons, List.append_assoc, List.append_assoc,
    List.append_assoc, List.singleton_append, List.cons_append, Nat.add_assoc, Nat.add_comm 1]

/-- **A text of a value is decoded** into what the buffer has room for. -/
theorem decodeLoop_valueText {value l rest : List UInt8} (h : ValueText value l)
    (hzero : 0 ∉ value) (hrest : EndsValue rest) {fuel : ℕ} {out : List UInt8} {i : ℕ}
    (hfuel : l.length < fuel) (hi : i < out.length) :
    decodeLoop fuel (l ++ rest) i out =
      some (i + (value.take (out.length - 1 - i)).length,
        out.take i ++ value.take (out.length - 1 - i) ++
          out.drop (i + (value.take (out.length - 1 - i)).length)) := by
  induction h generalizing fuel out i with
  | nil =>
    obtain ⟨fuel, rfl⟩ := exists_turn hfuel
    have hstop : decodeLoop (fuel + 1) rest i out = some (i, out) := by
      rw [decodeLoop]
      rcases charAt_of_endsValue hrest with h | h <;> rw [h, Option.bind_some, if_neg (by simp)]
    rw [List.nil_append, List.take_nil, List.append_nil, List.length_nil, Nat.add_zero i,
      List.take_append_drop]
    exact hstop
  | @cons b bs l ls hb hbs ih =>
    obtain ⟨hb0, hbs0⟩ := not_or.mp (fun h => hzero (List.mem_cons.mpr h))
    obtain ⟨hamp, hzeroText⟩ := hb.notMem
    obtain ⟨fuel, rfl⟩ := exists_turn hfuel
    obtain ⟨c, l', rfl⟩ : ∃ c l', l = c :: l' := by cases hb <;> exact ⟨_, _, rfl⟩
    have hc0 : c ≠ 0 := fun h => hzeroText (Ne.symm hb0) (h ▸ List.mem_cons_self)
    have hc38 : c ≠ 38 := fun h => hamp (h ▸ List.mem_cons_self)
    have hc : charAt (c :: l' ++ ls ++ rest) 0 = some c := charAt_cons_zero c _
    rw [decodeLoop, hc, Option.bind_some]
    by_cases hroom : i < out.length - 1
    · have hmove : movePtr (c :: l' ++ ls ++ rest) (c :: l').length = some (ls ++ rest) := by
        rw [List.append_assoc, movePtr_append_length]
      rw [if_pos ⟨hc0, hc38, hroom⟩, List.append_assoc, decodeAt_byteText hb, Option.bind_some,
        writeAt, if_pos hi, Option.bind_some, ← List.append_assoc]
      dsimp only
      rw [hmove, Option.bind_some, @ih hbs0 fuel (out.set i b) (i + 1)
        (by simp only [List.length_append, List.length_cons] at hfuel ⊢; omega)
        (by rw [List.length_set]; omega), List.length_set, set_append_drop hi]
      -- one byte less of room, and one byte less to go
      obtain ⟨n, hn⟩ : ∃ n, out.length - 1 - i = n + 1 := ⟨out.length - 1 - i - 1, by omega⟩
      rw [hn, List.take_succ_cons, List.length_cons, show out.length - 1 - (i + 1) = n by omega,
        Nat.add_assoc, Nat.add_comm 1]
      rfl
    · rw [if_neg fun h => hroom h.2.2, show out.length - 1 - i = 0 by omega, List.take_zero,
        List.append_nil, List.length_nil, Nat.add_zero, List.take_append_drop]

/-! ### Finding the key -/

/-- The buffer with a value in it, cut to its room, and a terminator. -/
def holding (out value : List UInt8) : List UInt8 :=
  value.take (out.length - 1) ++ 0 :: out.drop ((value.take (out.length - 1)).length + 1)

theorem copyValue_text {p : Pair} {l rest : List UInt8} (h : ValueText p.value l)
    (hrest : EndsValue rest) {fuel : ℕ} {out : List UInt8}
    (hfuel : (p.key.bytes ++ 61 :: (l ++ rest)).length < fuel) (hout : 0 < out.length) :
    copyValue fuel (p.key.bytes ++ 61 :: (l ++ rest)) p.key.bytes out =
      some (0, holding out p.value) := by
  have hlen : (p.key.bytes ++ 61 :: (l ++ rest)).length =
      p.key.bytes.length + (l.length + rest.length + 1) := by simp
  have hmove : movePtr (p.key.bytes ++ 61 :: (l ++ rest)) (p.key.bytes.length + 1) =
      some (l ++ rest) := by
    rw [movePtr, if_pos (by omega), List.drop_length_add_append]
    rfl
  rw [copyValue, charAt_append_length, Option.bind_some, if_pos rfl, hmove, Option.bind_some,
    decodeLoop_valueText h p.zero_notMem hrest (by omega) hout, Option.bind_some, List.take_zero,
    List.nil_append, Nat.zero_add, Nat.sub_zero, holding]
  have hroom : (p.value.take (out.length - 1)).length < out.length := by
    rw [List.length_take]
    omega
  generalize p.value.take (out.length - 1) = stored at hroom
  have hset : (stored ++ out.drop stored.length).set stored.length 0 =
      stored ++ 0 :: out.drop (stored.length + 1) := by
    rw [List.set_append_right _ _ le_rfl, Nat.sub_self, List.drop_eq_getElem_cons hroom,
      List.set_cons_zero]
  dsimp only
  rw [writeAt, if_pos (by rw [List.length_append, List.length_drop]; omega), Option.map_some, hset]

/-- Of two keys, one is only the start of the other's text if they are the same. -/
theorem matchesKey_text (k' k : Key) (r : List UInt8) :
    matchesKey (k'.bytes ++ 61 :: r) k.bytes = some (decide (k' = k)) := by
  rw [matchesKey]
  by_cases heq : k' = k
  · subst heq
    have hpref : strncmpEq (k'.bytes ++ 61 :: r) k'.bytes = true :=
      List.isPrefixOf_iff_prefix.mpr (List.prefix_append _ _)
    rw [if_pos hpref, charAt_append_length]
    simp
  · rw [decide_eq_false heq]
    split_ifs with hcmp
    swap
    · rfl
    obtain ⟨s, hs⟩ := List.isPrefixOf_iff_prefix.mp hcmp
    rcases List.append_eq_append_iff.mp hs with ⟨a, hk', hr⟩ | ⟨a, hk, hr⟩
    · -- the other key goes on where this one ends
      obtain ⟨c, a, rfl⟩ : ∃ c a', a = c :: a' := by
        refine List.exists_cons_of_ne_nil fun hnil => heq ?_
        rw [hnil, List.append_nil] at hk'
        cases k
        cases k'
        congr
      have hmem : c ∈ k'.bytes := by
        rw [hk']
        simp
      have hchar : charAt (k'.bytes ++ 61 :: r) k.bytes.length = some c := by
        rw [hk', List.append_assoc, List.cons_append, charAt_append_length]
      rw [hchar, Option.map_some]
      have h61 : c ≠ 61 := fun h => k'.eq_notMem (h ▸ hmem)
      have h38 : c ≠ 38 := fun h => k'.amp_notMem (h ▸ hmem)
      have h0 : c ≠ 0 := fun h => k'.zero_notMem (h ▸ hmem)
      simp [h61, h38, h0]
    · -- this one would have the `=` in it
      cases a with
      | nil =>
        rw [List.append_nil] at hk
        cases k
        cases k'
        exact absurd (by congr; exact hk.symm) heq
      | cons c a =>
        obtain rfl : 61 = c := (List.cons.inj hr).1
        refine absurd ?_ k.eq_notMem
        rw [hk]
        simp

/-- There is no `&` before the end of a value. -/
theorem strchr_text {p : Pair} {l : List UInt8} (h : ValueText p.value l) {rest : List UInt8}
    (hrest : EndsValue rest) :
    strchr (p.key.bytes ++ 61 :: (l ++ rest)) 38 = if rest = [] then none else some rest := by
  have hskip : (p.key.bytes ++ 61 :: (l ++ rest)).dropWhile (· != 38) = rest := by
    have hfree : ∀ c ∈ p.key.bytes ++ 61 :: l, (c != 38) = true := by
      intro c hc
      rw [bne_iff_ne]
      rintro rfl
      have hamp := h.amp_notMem
      have hkey := p.key.amp_notMem
      simp [hamp, hkey] at hc
    rw [show p.key.bytes ++ 61 :: (l ++ rest) = (p.key.bytes ++ 61 :: l) ++ rest by simp,
      List.dropWhile_append_of_pos hfree]
    cases rest with
    | nil => rfl
    | cons c rest =>
      obtain rfl := hrest c rfl
      rfl
  rw [strchr, hskip]

/-- **One parameter**: its value is copied, or the search goes on behind it. -/
theorem queryLoop_pair {p : Pair} {l rest : List UInt8} (h : ValueText p.value l)
    (hrest : EndsValue rest) (k : Key) {fuel : ℕ} {out : List UInt8}
    (hfuel : (p.key.bytes ++ 61 :: (l ++ rest)).length < fuel + 1) (hout : 0 < out.length) :
    queryLoop k.bytes out (fuel + 1) (p.key.bytes ++ 61 :: (l ++ rest)) =
      if p.key = k then some (0, holding out p.value)
      else if rest = [] then some (-1, out)
      else queryLoop k.bytes out fuel rest.tail := by
  obtain ⟨c, r, hcr, h0, h38⟩ : ∃ c r, p.key.bytes ++ 61 :: (l ++ rest) = c :: r ∧ c ≠ 0 ∧
      c ≠ 38 := by
    cases hk : p.key.bytes with
    | nil => exact ⟨61, _, rfl, by decide, by decide⟩
    | cons c ks =>
      refine ⟨c, _, rfl, fun h => ?_, fun h => ?_⟩
      · exact p.key.zero_notMem (by simp [hk, h])
      · exact p.key.amp_notMem (by simp [hk, h])
  have hchar : charAt (p.key.bytes ++ 61 :: (l ++ rest)) 0 = some c := by
    rw [hcr, charAt_cons_zero]
  rw [queryLoop, hchar, Option.bind_some, if_neg h0, if_neg h38, matchesKey_text, Option.bind_some]
  by_cases heq : p.key = k
  · rw [if_pos heq, if_pos (decide_eq_true heq), ← heq]
    exact copyValue_text h hrest hfuel hout
  · rw [if_neg heq, if_neg (by simpa using heq), strchr_text h hrest]
    cases rest with
    | nil => rfl
    | cons c rest =>
      rw [if_neg (List.cons_ne_nil _ _), if_neg (List.cons_ne_nil _ _)]
      rfl

/-- **The search in a text** finds the first value of the key. -/
theorem queryLoop_text {ps : List Pair} {l : List UInt8} (h : QueryText ps l) (k : Key)
    {fuel : ℕ} {out : List UInt8} (hfuel : l.length < fuel) (hout : 0 < out.length) :
    queryLoop k.bytes out fuel l =
      match ps.find? fun p => p.key = k with
      | some p => some (0, holding out p.value)
      | none => some (-1, out) := by
  induction h generalizing fuel with
  | nil =>
    obtain ⟨fuel, rfl⟩ := exists_turn hfuel
    rfl
  | @amp ps l _ ih =>
    obtain ⟨fuel, rfl⟩ := exists_turn hfuel
    have hmove : movePtr (38 :: l) 1 = some l := movePtr_append_length [38] l
    rw [queryLoop, charAt_cons_zero, Option.bind_some, if_neg (by decide), if_pos rfl, hmove,
      Option.bind_some]
    exact ih (Nat.lt_of_succ_lt_succ hfuel)
  | @last p v hv =>
    obtain ⟨fuel, rfl⟩ := exists_turn hfuel
    have hpair := @queryLoop_pair p v [] hv (by simp [EndsValue]) k fuel out
      (by simpa using hfuel) hout
    rw [List.append_nil] at hpair
    rw [hpair, List.find?_cons, List.find?_nil]
    by_cases heq : p.key = k <;> simp [heq]
  | @cons p ps v l hv _ ih =>
    obtain ⟨fuel, rfl⟩ := exists_turn hfuel
    rw [queryLoop_pair hv (by simp [EndsValue]) k hfuel hout, List.find?_cons]
    by_cases heq : p.key = k
    · simp [heq]
    · rw [if_neg heq, if_neg (List.cons_ne_nil _ _), decide_eq_false heq]
      refine ih ?_
      simp only [List.length_append, List.length_cons] at hfuel
      omega

/-! ### The parameters of a request -/

/-- A key as a string. -/
def Key.str (k : Key) : CStr := ⟨k.bytes, k.zero_notMem⟩

theorem queryParam_text {ps : List Pair} {l : List UInt8} (h : QueryText ps l) (k : Key)
    {fuel : ℕ} {out : List UInt8} (hfuel : l.length < fuel) (hout : 1 ≤ out.length) :
    queryParam fuel (some ⟨l, h.zero_notMem⟩) (some (Key.str k)) (some out) =
      match ps.find? fun p => p.key = k with
      | some p => some (0, some (holding out p.value))
      | none => some (-1, some out) := by
  have hloop := queryLoop_text h k hfuel hout
  rw [queryParam]
  dsimp only
  rw [if_neg (by omega), Key.str, hloop]
  cases ps.find? fun p => p.key = k <;> rfl

/-- **Query decoding undoes form encoding.** In a text of a list of keys and values the first value
of a key is found, decoded, cut to the room there is and terminated; where no pair has the key the
result is -1. And on any string the search ends, reads nothing behind the terminator and writes
only into the buffer. -/
theorem queryParam_undoes (out : List UInt8) :
    (∀ (ps : List Pair) (l : List UInt8) (h : QueryText ps l) (k : Key) (fuel : ℕ),
      1 ≤ out.length → l.length < fuel →
      (∀ before p after, ps = before ++ p :: after → p.key = k → (∀ p' ∈ before, p'.key ≠ k) →
        queryParam fuel (some ⟨l, h.zero_notMem⟩) (some (Key.str k)) (some out) =
          some (0, some (p.value.take (out.length - 1) ++
            0 :: out.drop ((p.value.take (out.length - 1)).length + 1)))) ∧
      ((∀ p ∈ ps, p.key ≠ k) →
        queryParam fuel (some ⟨l, h.zero_notMem⟩) (some (Key.str k)) (some out) =
          some (-1, some out))) ∧
    ∀ (query key : CStr) (fuel : ℕ), query.bytes.length < fuel →
      ∃ r out', queryParam fuel (some query) (some key) (some out) = some (r, some out') ∧
        (r = 0 ∨ r = -1) ∧ out'.length = out.length := by
  refine ⟨fun ps l h k fuel hout hfuel => ⟨?_, fun hnone => ?_⟩, fun query key fuel hfuel => ?_⟩
  · rintro before p after rfl hp hbefore
    have hfind : (before ++ p :: after).find? (fun p => p.key = k) = some p := by
      rw [List.find?_eq_some_iff_append]
      exact ⟨decide_eq_true hp, before, after, rfl, fun p' hp' => by simpa using hbefore p' hp'⟩
    rw [queryParam_text h k hfuel hout, hfind]
    rfl
  · have hfind : ps.find? (fun p => p.key = k) = none :=
      List.find?_eq_none.mpr fun p hp => by simpa using hnone p hp
    rw [queryParam_text h k hfuel hout, hfind]
  · rw [queryParam]
    split_ifs with hempty
    · exact ⟨-1, out, rfl, .inr rfl, rfl⟩
    · obtain ⟨r, out', hloop, hr, hlen⟩ :=
        @queryLoop_safe key.bytes out fuel query.bytes hfuel (Nat.pos_of_ne_zero hempty)
      rw [hloop]
      exact ⟨r, out', rfl, hr, hlen⟩

/-- `&a=+%7e%4A&b=` has the value ` ~J` of `a`, cut to two bytes here, and nothing of `c`. In
`a=%7` the escape ends too soon. -/
theorem queryParam_undoes_cut :
    queryParam 16 (some ⟨[38, 97, 61, 43, 37, 55, 101, 37, 52, 65, 38, 98, 61], by decide⟩)
        (some ⟨[97], by decide⟩) (some [1, 1, 1]) = some (0, some [32, 126, 0]) ∧
      queryParam 16 (some ⟨[38, 97, 61, 43, 37, 55, 101, 37, 52, 65, 38, 98, 61], by decide⟩)
        (some ⟨[99], by decide⟩) (some [1, 1, 1]) = some (-1, some [1, 1, 1]) ∧
      ∃ r out', queryParam 5 (some ⟨[97, 61, 37, 55], by decide⟩) (some ⟨[97], by decide⟩)
        (some [1, 1, 1]) = some (r, some out') ∧ (r = 0 ∨ r = -1) ∧ out'.length = 3 := by
  have hvalue : ValueText [32, 126, 74] [43, 37, 55, 101, 37, 52, 65] :=
    .cons .space (.cons (.escape (.inl (by decide)) (.inl (by decide)))
      (.cons (.escape (.inl (by decide)) (.inr (by decide))) .nil))
  have hlast : QueryText [⟨⟨[98], by decide, by decide, by decide⟩, [], by decide⟩] [98, 61] :=
    @QueryText.last ⟨⟨[98], by decide, by decide, by decide⟩, [], by decide⟩ [] .nil
  have htext : QueryText
      [⟨⟨[97], by decide, by decide, by decide⟩, [32, 126, 74], by decide⟩,
        ⟨⟨[98], by decide, by decide, by decide⟩, [], by decide⟩]
      [38, 97, 61, 43, 37, 55, 101, 37, 52, 65, 38, 98, 61] :=
    .amp (@QueryText.cons ⟨⟨[97], by decide, by decide, by decide⟩, [32, 126, 74], by decide⟩ _ _ _
      hvalue hlast)
  have hundoes := queryParam_undoes [1, 1, 1]
  refine ⟨?_, ?_, hundoes.2 ⟨[97, 61, 37, 55], by decide⟩ ⟨[97], by decide⟩ 5 (by decide)⟩
  · exact (hundoes.1 _ _ htext ⟨[97], by decide, by decide, by decide⟩ 16 (by decide)
      (by decide)).1 [] _ _ rfl rfl (by simp)
  · exact (hundoes.1 _ _ htext ⟨[99], by decide, by decide, by decide⟩ 16 (by decide)
      (by decide)).2 (by decide)

end Ar8030

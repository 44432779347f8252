import Ar8030Transport.Lifecycled.QueryParam
import Ar8030Transport.Wire.Control

/-!
# Reading a request

`read_request_line` of `lifecycle_http.c`: the bytes of a connection, as far as they are needed,
and what stands on their first line. Headers and a body may follow, they are not looked at.

A connection is the bytes its peer has written and what the calls of `read` come to. Nothing
depends on how the bytes are split over the calls as long as the first line arrives at all, and a
form-encoded value that a client puts in the query is the one the handlers find
(`request_received`).
-/

namespace Ar8030

open FormText

/-! ### Strings -/

namespace CStr

theorem eq_of_bytes {s t : CStr} (h : s.bytes = t.bytes) : s = t := by
  cases s
  cases t
  congr

instance : DecidableEq CStr := fun s t =>
  decidable_of_iff (s.bytes = t.bytes) ⟨eq_of_bytes, congrArg CStr.bytes⟩

/-- The string a buffer holds. -/
def ofBuffer (buf : List UInt8) : CStr :=
  ⟨cString buf, fun h => absurd (List.mem_takeWhile_imp h) (by decide)⟩

/-- The string with a terminator in place of its first character of `cs`. -/
def upTo (cs : List UInt8) (s : CStr) : CStr :=
  ⟨s.bytes.takeWhile (· ∉ cs), fun h => s.zero_notMem (List.takeWhile_subset _ h)⟩

/-- The string behind the first `c`, if there is one. -/
def behind (c : UInt8) (s : CStr) : CStr :=
  ⟨(s.bytes.dropWhile (· ≠ c)).drop 1,
    fun h => s.zero_notMem (List.dropWhile_subset _ (List.drop_subset _ _ h))⟩

/-- The string as far as `size` bytes hold it. -/
def cut (size : ℕ) (s : CStr) : CStr :=
  ⟨s.bytes.take (size - 1), fun h => s.zero_notMem (List.take_subset _ _ h)⟩

@[simp]
theorem bytes_ofBuffer (buf : List UInt8) : (ofBuffer buf).bytes = cString buf := rfl

@[simp]
theorem bytes_upTo (cs : List UInt8) (s : CStr) :
    (s.upTo cs).bytes = s.bytes.takeWhile (· ∉ cs) := rfl

@[simp]
theorem bytes_behind (c : UInt8) (s : CStr) :
    (s.behind c).bytes = (s.bytes.dropWhile (· ≠ c)).drop 1 := rfl

@[simp]
theorem bytes_cut (size : ℕ) (s : CStr) : (s.cut size).bytes = s.bytes.take (size - 1) := rfl

end CStr

/-! ### Reading -/

/-- `HTTP_MAX_REQ`. -/
def httpMaxReq : ℕ := 4096

/-- `HTTP_MAX_QUERY`. -/
def httpMaxQuery : ℕ := 512

/-- What a `read` of a connection comes to. -/
inductive HttpRead where
  /-- `EINTR`. -/
  | interrupted
  /-- The peer has closed, an error, or nothing came within the timeout. -/
  | stopped
  /-- At most `n + 1` bytes are there. -/
  | arrived (n : ℕ)
  deriving DecidableEq, Repr

/-- The loop of `read_request_line`: what is in its buffer at the end. `conn` is what the peer has
written and was not read. -/
def readLoop : List HttpRead → List UInt8 → List UInt8 → List UInt8
  | [], _, buf => buf
  | r :: reads, conn, buf =>
    if buf.length < httpMaxReq - 1 then
      match r with
      | .interrupted => readLoop reads conn buf
      | .stopped => buf
      | .arrived n =>
        let got := conn.take (min (n + 1) (httpMaxReq - 1 - buf.length))
        if got = [] then buf
        else if 10 ∈ buf ++ got then buf ++ got
        else readLoop reads (conn.drop got.length) (buf ++ got)
    else buf

/-- `method`, `path` and `query` of `http_thread_main`. -/
structure RequestLine where
  method : CStr
  path : CStr
  query : CStr
  deriving DecidableEq

/-- `read_request_line` after its loop. -/
def parseRequestLine (buf : List UInt8) : Option RequestLine :=
  if buf = [] then none
  else
    let line := (CStr.ofBuffer buf).upTo [13, 10]
    if 32 ∈ line.bytes then
      let uri := (line.behind 32).upTo [32]
      some ⟨(line.upTo [32]).cut 8, (uri.upTo [63]).cut 256, (uri.behind 63).cut httpMaxQuery⟩
    else none

/-- `read_request_line`; `none` is -1. -/
def readRequestLine (reads : List HttpRead) (conn : List UInt8) : Option RequestLine :=
  parseRequestLine (readLoop reads conn [])

/-- `query_param` into a buffer of `size` bytes: the string in it, `none` is -1. -/
def RequestLine.param (r : RequestLine) (key : Key) (size : ℕ) : Option CStr :=
  match queryParam (r.query.bytes.length + 1) (some r.query) (some (Key.str key))
      (some (List.replicate size 0)) with
  | some (0, some out) => some (CStr.ofBuffer out)
  | _ => none

/-- How many bytes the reads can bring before one of them stops the loop. -/
def delivered : List HttpRead → ℕ
  | [] => 0
  | .interrupted :: reads => delivered reads
  | .stopped :: _ => 0
  | .arrived n :: reads => n + 1 + delivered reads

/-! ### What a client writes -/

/-- The first line of a request. -/
def requestText (method target version : List UInt8) : List UInt8 :=
  method ++ 32 :: (target ++ 32 :: (version ++ [13, 10]))

/-- A word of this line: nothing in it ends a string, a line or a word. -/
def IsWord (l : List UInt8) : Prop := ∀ b ∈ l, b ≠ 0 ∧ b ≠ 10 ∧ b ≠ 13 ∧ b ≠ 32

instance (l : List UInt8) : Decidable (IsWord l) :=
  List.decidableBAll _ l

/-- What a client asks for: a path, and a query behind a `?`. -/
def targetText (path : List UInt8) (query : Option (List UInt8)) : List UInt8 :=
  path ++ query.elim [] (63 :: ·)

/-- A request with parameters, as a client may write it. -/
structure ClientRequest where
  method : List UInt8
  path : List UInt8
  params : List Pair
  query : List UInt8
  version : List UInt8
  method_word : IsWord method
  method_lt : method.length < 8
  path_word : IsWord path
  path_mark : 63 ∉ path
  path_lt : path.length < 256
  query_text : QueryText params query
  query_word : IsWord query
  query_lt : query.length < httpMaxQuery
  version_line : 10 ∉ version

/-- Its first line. -/
def ClientRequest.text (c : ClientRequest) : List UInt8 :=
  requestText c.method (targetText c.path (some c.query)) c.version

/-! ### The split does not matter -/

/-- **The first line arrives**, and some of what follows it. -/
theorem readLoop_line {reads : List HttpRead} {l rest buf : List UInt8} (hl : 10 ∉ l)
    (hbuf : 10 ∉ buf) (hroom : buf.length + (l.length + 1) ≤ httpMaxReq - 1)
    (hreads : l.length + 1 ≤ delivered reads) :
    ∃ more, more <+: rest ∧ readLoop reads (l ++ 10 :: rest) buf = buf ++ l ++ 10 :: more := by
  induction reads generalizing l buf with
  | nil => exact absurd hreads (Nat.not_succ_le_zero _)
  | cons r reads ih =>
    cases r with
    | interrupted =>
      rw [readLoop, if_pos (by omega)]
      exact ih hl hbuf hroom hreads
    | stopped => exact absurd hreads (Nat.not_succ_le_zero _)
    | arrived n =>
      rw [readLoop, if_pos (by omega)]
      dsimp only
      rw [delivered] at hreads
      have hpos : 0 < min (n + 1) (httpMaxReq - 1 - buf.length) := by omega
      rcases Nat.lt_or_ge l.length (min (n + 1) (httpMaxReq - 1 - buf.length)) with hlt | hge
      · -- the end of the line is among the bytes of this read
        generalize min (n + 1) (httpMaxReq - 1 - buf.length) = m at hlt
        obtain ⟨k, rfl⟩ : ∃ k, m = l.length + (k + 1) := ⟨m - l.length - 1, by omega⟩
        have htake : (l ++ 10 :: rest).take (l.length + (k + 1)) = l ++ 10 :: rest.take k := by
          rw [List.take_length_add_append]
          rfl
        rw [htake, if_neg (by simp), if_pos (by simp)]
        exact ⟨rest.take k, List.take_prefix _ _, (List.append_assoc ..).symm⟩
      · -- the room is enough for the line, so this read brought all that was there
        have hm : min (n + 1) (httpMaxReq - 1 - buf.length) = n + 1 := by omega
        rw [hm] at hge ⊢
        have hgot : (l ++ 10 :: rest).take (n + 1) = l.take (n + 1) := by
          rw [List.take_append_of_le_length hge]
        have hlen : (l.take (n + 1)).length = n + 1 := List.length_take_of_le hge
        have hfree : 10 ∉ buf ++ l.take (n + 1) := by
          rw [List.mem_append, not_or]
          exact ⟨hbuf, fun h => hl (List.take_subset _ _ h)⟩
        rw [hgot, if_neg (List.ne_nil_of_length_pos (by omega)), if_neg hfree, hlen,
          List.drop_append_of_le_length hge]
        obtain ⟨more, hmore, heq⟩ := @ih (l.drop (n + 1)) (buf ++ l.take (n + 1))
          (fun h => hl (List.drop_subset _ _ h)) hfree
          (by rw [List.length_append, hlen, List.length_drop]; omega)
          (by rw [List.length_drop]; omega)
        refine ⟨more, hmore, ?_⟩
        rw [heq, List.append_assoc buf, List.take_append_drop]

/-! ### The line is parsed -/

section Parse

variable {p : UInt8 → Bool} {l : List UInt8} {c : UInt8}

/-- Up to a character that a text is free of, -/
theorem takeWhile_append_cons (h : ∀ b ∈ l, p b = true) (hc : p c = false) (rest : List UInt8) :
    (l ++ c :: rest).takeWhile p = l := by
  have hneg : ¬p c = true := by simp [hc]
  rw [List.takeWhile_append_of_pos h, List.takeWhile_cons_of_neg hneg, List.append_nil]

/-- and from there on. -/
theorem dropWhile_append_cons (h : ∀ b ∈ l, p b = true) (hc : p c = false) (rest : List UInt8) :
    (l ++ c :: rest).dropWhile p = c :: rest := by
  have hneg : ¬p c = true := by simp [hc]
  rw [List.dropWhile_append_of_pos h, List.dropWhile_cons_of_neg hneg]

end Parse

variable {method path target version : List UInt8} {query : Option (List UInt8)}

theorem IsWord.targetText (hpath : IsWord path) (hquery : ∀ q ∈ query, IsWord q) :
    IsWord (targetText path query) := by
  intro b hb
  rcases List.mem_append.mp hb with hb | hb
  · exact hpath b hb
  · cases query with
    | none => cases hb
    | some q =>
      rcases List.mem_cons.mp hb with rfl | hb
      · decide
      · exact hquery q rfl b hb

/-- The words stand in front of the end of the string and of the line. -/
theorem bytes_firstLine (hmethod : IsWord method) (htarget : IsWord target) (rest : List UInt8) :
    ∃ z, ((CStr.ofBuffer (method ++ 32 :: (target ++ 32 :: rest))).upTo [13, 10]).bytes =
      method ++ 32 :: (target ++ 32 :: z) := by
  have hkeep : ∀ b ∈ method ++ 32 :: (target ++ [32]), b ≠ 0 ∧ b ≠ 13 ∧ b ≠ 10 := by
    intro b hb
    simp only [List.mem_append, List.mem_cons, List.not_mem_nil, or_false] at hb
    rcases hb with hb | rfl | hb | rfl
    · exact ⟨(hmethod b hb).1, (hmethod b hb).2.2.1, (hmethod b hb).2.1⟩
    · decide
    · exact ⟨(htarget b hb).1, (htarget b hb).2.2.1, (htarget b hb).2.1⟩
    · decide
  have hsplit : ∀ y, method ++ 32 :: (target ++ 32 :: y) =
      (method ++ 32 :: (target ++ [32])) ++ y := fun y => by simp
  refine ⟨(cString rest).takeWhile (· ∉ [13, 10]), ?_⟩
  rw [CStr.bytes_upTo, CStr.bytes_ofBuffer, hsplit rest, hsplit (List.takeWhile _ _), cString,
    List.takeWhile_append_of_pos fun b hb => bne_iff_ne.mpr (hkeep b hb).1,
    List.takeWhile_append_of_pos fun b hb => by simpa using (hkeep b hb).2]
  rfl

/-- **The words of the first line** are what is made of it, whatever comes behind them. -/
theorem parseRequestLine_text (hmethod : IsWord method) (hpath : IsWord path) (h63 : 63 ∉ path)
    (hquery : ∀ q ∈ query, IsWord q) (rest : List UInt8) :
    ∃ r, parseRequestLine (method ++ 32 :: (targetText path query ++ 32 :: rest)) = some r ∧
      r.method.bytes = method.take 7 ∧ r.path.bytes = path.take 255 ∧
      r.query.bytes = (query.getD []).take 511 := by
  have htarget := hpath.targetText hquery
  obtain ⟨z, hline⟩ := bytes_firstLine hmethod htarget rest
  have hne : method ++ 32 :: (targetText path query ++ 32 :: rest) ≠ [] := by simp
  rw [parseRequestLine, if_neg hne]
  dsimp only
  generalize (CStr.ofBuffer _).upTo [13, 10] = line at hline
  have hword : ∀ {w : List UInt8}, IsWord w → ∀ b ∈ w, decide (b ∉ [32]) = true :=
    fun hw b hb => by simpa using (hw b hb).2.2.2
  have hword' : ∀ {w : List UInt8}, IsWord w → ∀ b ∈ w, decide (b ≠ 32) = true :=
    fun hw b hb => decide_eq_true (hw b hb).2.2.2
  rw [if_pos (by rw [hline]; simp)]
  have huri : ((line.behind 32).upTo [32]).bytes = targetText path query := by
    rw [CStr.bytes_upTo, CStr.bytes_behind, hline, dropWhile_append_cons (hword' hmethod) rfl,
      List.drop_one, List.tail_cons, takeWhile_append_cons (hword htarget) rfl]
  generalize (line.behind 32).upTo [32] = uri at huri
  have hp : ∀ b ∈ path, decide (b ∉ [63]) = true := fun b hb => by
    simpa using fun h : b = 63 => h63 (h ▸ hb)
  have hp' : ∀ b ∈ path, decide (b ≠ 63) = true := fun b hb =>
    decide_eq_true fun h => h63 (h ▸ hb)
  refine ⟨_, rfl, ?_, ?_, ?_⟩
  · rw [CStr.bytes_cut, CStr.bytes_upTo, hline, takeWhile_append_cons (hword hmethod) rfl]
  · rw [CStr.bytes_cut, CStr.bytes_upTo, huri, targetText]
    cases query with
    | none => rw [Option.elim_none, List.append_nil, List.takeWhile_eq_self_iff.mpr hp]
    | some q => rw [Option.elim_some, takeWhile_append_cons hp rfl]
  · rw [CStr.bytes_cut, CStr.bytes_behind, huri, targetText]
    cases query with
    | none =>
      rw [Option.elim_none, List.append_nil, List.dropWhile_eq_nil_iff.mpr hp']
      rfl
    | some q =>
      rw [Option.elim_some, dropWhile_append_cons hp' rfl]
      rfl

/-- Nothing behind the first line matters. -/
theorem parseRequestLine_line (l rest : List UInt8) :
    parseRequestLine (l ++ 10 :: rest) = parseRequestLine (l ++ [10]) := by
  have hline : ∀ z, (CStr.ofBuffer (l ++ 10 :: z)).upTo [13, 10] =
      (CStr.ofBuffer (l ++ [10])).upTo [13, 10] := by
    intro z
    apply CStr.eq_of_bytes
    simp only [CStr.bytes_upTo, CStr.bytes_ofBuffer, cString, List.takeWhile_takeWhile]
    induction l with
    | nil => simp
    | cons b l ih => simp only [List.cons_append, List.takeWhile_cons, ih]
  have hne : ∀ z, l ++ 10 :: z ≠ [] := fun z => by simp
  rw [parseRequestLine, if_neg (hne rest), hline rest, parseRequestLine, if_neg (hne [])]

/-! ### A parameter -/

theorem cString_holding (size : ℕ) {value : List UInt8} (hvalue : 0 ∉ value) :
    cString (holding (List.replicate size 0) value) = value.take (size - 1) := by
  rw [holding, List.length_replicate, cString]
  exact takeWhile_append_cons
    (fun b hb => bne_iff_ne.mpr fun h => hvalue (List.take_subset _ _ (h ▸ hb))) rfl _

/-- The first value of a key, as far as there is room for it. -/
theorem RequestLine.param_text {ps : List Pair} {q : List UInt8} (hq : QueryText ps q)
    {r : RequestLine} (hr : r.query.bytes = q) (k : Key) {size : ℕ} (hsize : 0 < size) :
    (r.param k size).map CStr.bytes =
      (ps.find? fun p => p.key = k).map fun p => p.value.take (size - 1) := by
  have hquery : r.query = ⟨q, hq.zero_notMem⟩ := CStr.eq_of_bytes hr
  have htext := @queryParam_text ps q hq k (q.length + 1) (List.replicate size 0)
    (Nat.lt_succ_self _) (by rwa [List.length_replicate])
  rw [RequestLine.param, hquery, htext]
  cases ps.find? fun p => p.key = k with
  | none => rfl
  | some p => exact congrArg some (cString_holding size p.zero_notMem)

/-! ### Received -/

theorem readRequestLine_line {reads : List HttpRead} {l : List UInt8} (hl : 10 ∉ l)
    (hlen : l.length + 1 < httpMaxReq) (hreads : l.length + 1 ≤ delivered reads)
    (rest : List UInt8) :
    readRequestLine reads (l ++ 10 :: rest) = parseRequestLine (l ++ [10]) := by
  have hroom : ([] : List UInt8).length + (l.length + 1) ≤ httpMaxReq - 1 := by
    rw [List.length_nil]
    omega
  obtain ⟨more, -, hbuf⟩ := @readLoop_line reads l rest [] hl List.not_mem_nil hroom hreads
  rw [readRequestLine, hbuf, List.nil_append, parseRequestLine_line]

theorem ClientRequest.text_eq (c : ClientRequest) :
    ∃ l, c.text = l ++ [10] ∧ 10 ∉ l ∧ ∃ z, c.text =
      c.method ++ 32 :: (targetText c.path (some c.query) ++ 32 :: z) := by
  have htarget : IsWord (targetText c.path (some c.query)) :=
    c.path_word.targetText fun q hq => Option.some.inj hq ▸ c.query_word
  refine ⟨c.method ++ 32 :: (targetText c.path (some c.query) ++ 32 :: (c.version ++ [13])),
    by simp [ClientRequest.text, requestText], ?_, _, rfl⟩
  simp only [List.mem_append, List.mem_cons, List.not_mem_nil, or_false, not_or]
  exact ⟨fun h => (c.method_word 10 h).2.1 rfl, by decide, fun h => (htarget 10 h).2.1 rfl,
    by decide, c.version_line, by decide⟩

/-- What the server has of a request with parameters. -/
theorem ClientRequest.received (c : ClientRequest) (rest : List UInt8) {reads : List HttpRead}
    (hlen : c.text.length < httpMaxReq) (hreads : c.text.length ≤ delivered reads) :
    ∃ r, readRequestLine reads (c.text ++ rest) = some r ∧ r.method.bytes = c.method ∧
      r.path.bytes = c.path ∧ ∀ (k : Key) (size : ℕ), 0 < size →
        (r.param k size).map CStr.bytes =
          (c.params.find? fun p => p.key = k).map fun p => p.value.take (size - 1) := by
  obtain ⟨l, htext, hl, z, hwords⟩ := c.text_eq
  have hword : ∀ q ∈ some c.query, IsWord q := fun q hq => Option.some.inj hq ▸ c.query_word
  obtain ⟨r, hparse, hmethod, hpath, hquery⟩ := parseRequestLine_text c.method_word c.path_word
    c.path_mark hword z
  rw [List.take_of_length_le (Nat.le_of_lt_succ c.method_lt)] at hmethod
  rw [List.take_of_length_le (Nat.le_of_lt_succ c.path_lt)] at hpath
  rw [Option.getD_some, List.take_of_length_le (Nat.le_of_lt_succ c.query_lt)] at hquery
  have hlength : c.text.length = l.length + 1 := by rw [htext, List.length_append]; rfl
  rw [hlength] at hlen hreads
  refine ⟨r, ?_, hmethod, hpath, fun k size hsize => r.param_text c.query_text hquery k hsize⟩
  rw [htext, List.append_assoc, List.singleton_append, readRequestLine_line hl hlen hreads,
    ← htext, hwords, hparse]

/-- **A request is received** however its bytes are split. Whatever stands on the first line, the
outcome is the same for all reads that bring it; and of a request with parameters the method, the
path and every value are the ones the client has put in. -/
theorem request_received :
    (∀ (l rest rest' : List UInt8) (reads reads' : List HttpRead), 10 ∉ l →
      l.length + 1 < httpMaxReq → l.length + 1 ≤ delivered reads →
      l.length + 1 ≤ delivered reads' →
      readRequestLine reads (l ++ 10 :: rest) = readRequestLine reads' (l ++ 10 :: rest')) ∧
    ∀ (c : ClientRequest) (rest : List UInt8) (reads : List HttpRead),
      c.text.length < httpMaxReq → c.text.length ≤ delivered reads →
      ∃ r, readRequestLine reads (c.text ++ rest) = some r ∧ r.method.bytes = c.method ∧
        r.path.bytes = c.path ∧ ∀ (k : Key) (size : ℕ), 0 < size →
          (r.param k size).map CStr.bytes =
            (c.params.find? fun p => p.key = k).map fun p => p.value.take (size - 1) := by
  refine ⟨fun l rest rest' reads reads' hl hlen hreads hreads' => ?_,
    fun c rest reads hlen hreads => c.received rest hlen hreads⟩
  rw [readRequestLine_line hl hlen hreads, readRequestLine_line hl hlen hreads']

/-- A short request, in two pieces and with an interruption. -/
theorem request_received_pieces :
    let k : Key := ⟨ascii ['s'], by decide, by decide, by decide⟩
    let c : ClientRequest :=
      { method := ascii ['P', 'O', 'S', 'T'], path := ascii ['/', 'a'],
        params := [⟨k, ascii ['1'], by decide⟩],
        query := ascii ['s', '=', '1'], version := ascii ['H', 'T', 'T', 'P'],
        method_word := by decide, method_lt := by decide, path_word := by decide,
        path_mark := by decide, path_lt := by decide,
        query_text := QueryText.last (ValueText.cons
          (ByteText.self (by decide) (by decide) (by decide)) ValueText.nil),
        query_word := by decide, query_lt := by decide, version_line := by decide }
    ∃ r, readRequestLine [.arrived 3, .interrupted, .arrived 99] (c.text ++ [13, 10]) = some r ∧
      r.path.bytes = c.path ∧ (r.param k 32).map CStr.bytes = some (ascii ['1']) := by
  intro k c
  obtain ⟨r, hread, -, hpath, hparam⟩ := request_received.2 c [13, 10]
    [.arrived 3, .interrupted, .arrived 99] (by decide) (by decide)
  exact ⟨r, hread, hpath, hparam k 32 (by decide)⟩

end Ar8030

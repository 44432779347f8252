import Mathlib.Data.List.DropRight
import Ar8030Transport.Library.HexText
import Ar8030Transport.Wire.Chunker

/-!
# Control messages

The command lines on the video socket: `SYNC` and `IDR` from the ground (`rx/idr_relay.c`, read
by `tx/idr_ctrl.c`), `SYNCR` from the air (`stage_outq` of `tx/main.c`, read by
`handle_air_ctrl` of `rx/main.c`). Each is the payload of one chunk.

The numbers are written by `snprintf` and read by `sscanf`. What `sscanf` stores for a number
that its variable cannot hold is not specified, and stands as the parameter `beyond`.
-/

namespace Ar8030

open HexText

/-- `AR8030_CTRL_MAX_PAYLOAD`. -/
def ctrlMaxPayload : ℕ := 64

/-- The bytes of an ASCII text. -/
def ascii (l : List Char) : List UInt8 := l.map fun c => UInt8.ofNat c.toNat

/-- `"SYNC "`. -/
def syncTag : List UInt8 := ascii ['S', 'Y', 'N', 'C', ' ']

/-- `"SYNCR "`. -/
def syncrTag : List UInt8 := ascii ['S', 'Y', 'N', 'C', 'R', ' ']

/-- `"IDR "`. -/
def idrTag : List UInt8 := ascii ['I', 'D', 'R', ' ']

/-- The string in a buffer. -/
def cString (l : List UInt8) : List UInt8 := l.takeWhile (· != 0)

/-- `snprintf` into `cap` bytes: the string in the buffer, and the length of the whole text. -/
def snprintf (cap : ℕ) (l : List UInt8) : List UInt8 × ℕ := (l.take (cap - 1), l.length)

/-! ### Reading fields -/

section Fields

variable (beyond : ℕ → Bool × ℕ → ℕ)

/-- What is stored in a variable of `w` bits. -/
def storeHex (w : ℕ) (v : Bool × ℕ) : ℕ :=
  if v.2 < 2 ^ w then if v.1 then (2 ^ w - v.2) % 2 ^ w else v.2 else beyond w v

/-- `sscanf` for `%x` fields into variables of these widths, with white space in between: the
values stored, up to the first field that does not match. -/
def scanFields : List ℕ → List UInt8 → List ℕ
  | [], _ => []
  | w :: ws, l =>
    match scanHex l with
    | none => []
    | some (v, rest) => storeHex beyond w v :: scanFields ws (rest.dropWhile isSpace)

end Fields

/-! ### The ground -/

/-- `IDR_RELAY_TOKEN_MAX`. -/
def idrRelayTokenMax : ℕ := 16

/-- The payload of a `SYNC`, in `idr_relay_thread_main`. A text longer than the buffer would be
sent with bytes from behind it; this is not modelled. -/
def idrRelaySync (seq t1 : ℕ) : Option (List UInt8) :=
  let r := snprintf ctrlMaxPayload (syncTag ++ hex seq ++ 32 :: hex t1)
  if r.2 ≤ r.1.length then some r.1 else none

/-- The token in a datagram, in `idr_relay_thread_main`: without the white space at its end. -/
def idrRelayToken (datagram : List UInt8) : Option (List UInt8) :=
  let buf := (datagram.take 63).rdropWhile isSpace
  if buf = [] ∨ idrRelayTokenMax < buf.length then none else some (cString buf)

/-- The payload of an `IDR`. -/
def idrRelayIdr (datagram : List UInt8) : Option (List UInt8) :=
  (idrRelayToken datagram).map fun token => (snprintf ctrlMaxPayload (idrTag ++ token)).1

/-- `handle_air_ctrl`: sequence number and times of a `SYNCR`. -/
def handleAirCtrl (beyond : ℕ → Bool × ℕ → ℕ) (payload : List UInt8) :
    Option (ℕ × ℕ × ℕ × ℕ) :=
  if payload.length = 0 ∨ ctrlMaxPayload ≤ payload.length then none
  else if syncrTag.isPrefixOf (cString payload) then
    match scanFields beyond [32, 64, 64, 64] ((cString payload).drop 6) with
    | [seq, t1, t2, t3] => some (seq, t1, t2, t3)
    | _ => none
  else none

/-! ### The air -/

/-- A command line. -/
inductive CtrlCommand where
  | sync (seq t1 : ℕ)
  | idr (token : List UInt8)
  | unknown
  deriving DecidableEq, Repr

/-- The test for a `SYNC`, in `idr_ctrl_thread_main`. -/
def syncFields (beyond : ℕ → Bool × ℕ → ℕ) (cmd : List UInt8) : List ℕ :=
  if syncTag.isPrefixOf cmd then scanFields beyond [32, 64] (cmd.drop 5) else []

/-- What `idr_ctrl_thread_main` takes the payload of a control chunk for. -/
def idrCtrlCommand (beyond : ℕ → Bool × ℕ → ℕ) (payload : List UInt8) : Option CtrlCommand :=
  if payload.length = 0 ∨ ctrlMaxPayload ≤ payload.length then none
  else
    match syncFields beyond (cString payload) with
    | [seq, t1] => some (.sync seq t1)
    | _ =>
      if idrTag.isPrefixOf (cString payload) ∧ 4 < (cString payload).length then
        some (.idr ((cString payload).drop 4))
      else some .unknown

/-- `tx_outq_item_t`. -/
structure TxOutqItem where
  data : List UInt8
  codec : UInt8
  isSyncr : Bool
  syncSeq : ℕ
  t1Us : ℕ
  t2Us : ℕ

/-- The payload `stage_outq` makes of an item, with `t3` the time it reads. -/
def stageOutq (auxPayloadMax : ℕ) (item : TxOutqItem) (t3 : ℕ) : Option (List UInt8) :=
  let r := snprintf ctrlMaxPayload (syncrTag ++ hex item.syncSeq ++ 32 :: hex item.t1Us ++
    32 :: hex item.t2Us ++ 32 :: hex t3)
  if item.isSyncr ∧ (r.2 = 0 ∨ ctrlMaxPayload ≤ r.2) then none
  else
    let data := if item.isSyncr then r.1 else item.data
    if data.length = 0 ∨ auxPayloadMax < data.length then none else some data

/-! ### Rows of numbers -/

/-- Numbers with a blank between two of them. -/
def hexRow : List ℕ → List UInt8
  | [] => []
  | [n] => hex n
  | n :: m :: ns => hex n ++ 32 :: hexRow (m :: ns)

/-- The white space between two fields does not matter. -/
theorem scanFields_space (beyond : ℕ → Bool × ℕ → ℕ) (ws : List ℕ) (l : List UInt8) :
    scanFields beyond ws ((32 :: l).dropWhile isSpace) = scanFields beyond ws l := by
  cases ws with
  | nil => rfl
  | cons w ws => rw [scanFields, scanFields, scanHex_dropWhile, scanHex_cons_space]

/-- **A row is read back** into variables that can hold its numbers. -/
theorem scanFields_hexRow (beyond : ℕ → Bool × ℕ → ℕ) {ws ns : List ℕ}
    (h : List.Forall₂ (fun w n => n < 2 ^ w) ws ns) : scanFields beyond ws (hexRow ns) = ns := by
  induction h with
  | nil => rfl
  | @cons w n ws ns hn htail ih =>
    have hstore : storeHex beyond w (false, n) = n := if_pos hn
    cases htail with
    | nil =>
      have hscan := scanHex_hex n ends_nil
      rw [List.append_nil] at hscan
      rw [scanFields, hexRow, hscan]
      dsimp only
      rw [hstore, scanFields]
    | @cons v m vs ms hm htail =>
      rw [scanFields, hexRow, scanHex_hex n (ends_space _)]
      dsimp only
      rw [hstore, scanFields_space, ih]

theorem zero_notMem_hexRow : ∀ ns : List ℕ, 0 ∉ hexRow ns
  | [] => List.not_mem_nil
  | [n] => zero_notMem_hex n
  | n :: m :: ns => by
    rw [hexRow, List.mem_append, List.mem_cons, not_or, not_or]
    exact ⟨zero_notMem_hex n, by decide, zero_notMem_hexRow (m :: ns)⟩

theorem cString_of_notMem {l : List UInt8} (h : 0 ∉ l) : cString l = l := by
  refine List.takeWhile_eq_self_iff.mpr fun b hb => ?_
  exact bne_iff_ne.mpr fun h0 => h (h0 ▸ hb)

/-! ### The lines -/

/-- The chunker makes one chunk of `l`. -/
def OneChunk (l : List UInt8) (chunkPayload : ℕ) : Prop :=
  ∀ (info : FrameInfo) (acc : List Chunk) (scratchCap : ℕ),
    chunkHdrSize + chunkPayload ≤ scratchCap →
      ∃ c : Chunk, c.payload = l ∧ c.Sealed ∧
        chunkFrame info l chunkPayload collect acc scratchCap = some ⟨1, 1, acc ++ [c]⟩

/-- **Data that fits into one chunk** is handed to the send function as one. -/
theorem chunkFrame_single {σ : Type*} (send : σ → Chunk → Bool × σ) (ctx : σ) (info : FrameInfo)
    {l : List UInt8} {chunkPayload scratchCap : ℕ} (hpos : 0 < chunkPayload)
    (hlen : l.length ≤ chunkPayload) (hmax : chunkPayload ≤ chunkMaxPayload)
    (hscratch : chunkHdrSize + chunkPayload ≤ scratchCap) :
    ∃ c : Chunk, c.payload = l ∧ c.Sealed ∧
      c = runChunk info l chunkPayload 0 1 1 false false 0 ∧
        chunkFrame info l chunkPayload send ctx scratchCap =
          some ⟨(sendChunks send [c] ctx).1, 1, (sendChunks send [c] ctx).2⟩ := by
  have hmax' : chunkPayload ≤ 65535 := hmax
  have hneeded : Pieces.piecesNeeded l.length chunkPayload = 1 := by
    refine max_eq_left (Nat.le_of_lt_succ ((Nat.div_lt_iff_lt_mul hpos).mpr ?_))
    omega
  have hcount : chunkCountOf l.length chunkPayload = 1 := by
    rw [chunkCountOf_eq (by omega), hneeded]
  refine ⟨runChunk info l chunkPayload 0 1 1 false false 0, ?_, runChunk_sealed hmax 0, rfl, ?_⟩
  · show (l.drop (0 * chunkPayload)).take chunkPayload = l
    rw [Nat.zero_mul, List.drop_zero, List.take_of_length_le hlen]
  · have hpay : ¬ (chunkPayload = 0 ∨ chunkMaxPayload < chunkPayload) := by omega
    rw [chunkFrame, if_neg hpay, hcount, if_neg (by decide),
      chunkRun_eq_some hpos hmax hscratch (by rw [hcount]; decide), hcount]
    rfl

theorem oneChunk {l : List UInt8} {chunkPayload : ℕ} (hpos : 0 < chunkPayload)
    (hlen : l.length ≤ chunkPayload) (hmax : chunkPayload ≤ chunkMaxPayload) :
    OneChunk l chunkPayload := by
  intro info acc scratchCap hscratch
  obtain ⟨c, hpayload, hsealed, -, hframe⟩ :=
    chunkFrame_single collect acc info hpos hlen hmax hscratch
  exact ⟨c, hpayload, hsealed, by rw [hframe, sendChunks_collect]; rfl⟩

theorem length_hex_le_of_lt {t : ℕ} (h : t < 2 ^ 60) : (hex t).length ≤ 15 :=
  length_hex_le (by rwa [show 16 ^ 15 = 2 ^ 60 by decide]) (by decide)

theorem snprintf_of_lt {cap : ℕ} {l : List UInt8} (h : l.length < cap) :
    snprintf cap l = (l, l.length) := by
  rw [snprintf, List.take_of_length_le (Nat.le_sub_one_of_lt h)]

/-- No line that is neither empty nor too long is refused. -/
theorem not_refused {l : List UInt8} (hpos : 0 < l.length) (hlt : l.length < ctrlMaxPayload) :
    ¬ (l.length = 0 ∨ ctrlMaxPayload ≤ l.length) := by omega

/-- A row of numbers behind a tag has no zero in it. -/
theorem cString_row {tag : List UInt8} (htag : 0 ∉ tag) (ns : List ℕ) :
    cString (tag ++ hexRow ns) = tag ++ hexRow ns := by
  refine cString_of_notMem ?_
  rw [List.mem_append, not_or]
  exact ⟨htag, zero_notMem_hexRow ns⟩

/-- A token is short, and a string. -/
theorem idrRelayToken_spec {datagram token : List UInt8}
    (h : idrRelayToken datagram = some token) :
    token.length ≤ idrRelayTokenMax ∧ 0 ∉ token := by
  rw [idrRelayToken] at h
  split_ifs at h with hbad
  rw [not_or, not_lt] at hbad
  obtain rfl := Option.some.inj h
  constructor
  · exact (List.takeWhile_sublist _).length_le.trans hbad.2
  · intro hmem
    exact absurd (List.mem_takeWhile_imp hmem) (by decide)

section Lines

variable (beyond : ℕ → Bool × ℕ → ℕ) {seq t1 t2 t3 : ℕ}

/-- The air reads the `SYNC` of the ground. -/
theorem sync_line (hseq : seq < 2 ^ 32) (h1 : t1 < 2 ^ 60) :
    ∃ line, idrRelaySync seq t1 = some line ∧ line.length < ctrlMaxPayload ∧
      idrCtrlCommand beyond line = some (.sync seq t1) := by
  have hseqLen : (hex seq).length ≤ 8 := length_hex_le (by omega) (by decide)
  have h1Len := length_hex_le_of_lt h1
  have hlength : (syncTag ++ hexRow [seq, t1]).length =
      5 + ((hex seq).length + (1 + (hex t1).length)) := by
    simp only [hexRow, syncTag, ascii, List.length_append, List.length_cons, List.length_map,
      List.length_nil]
    omega
  have hlt : (syncTag ++ hexRow [seq, t1]).length < ctrlMaxPayload := by
    show _ < 64
    omega
  have hfields : syncFields beyond (syncTag ++ hexRow [seq, t1]) = [seq, t1] := by
    rw [syncFields, if_pos (List.isPrefixOf_iff_prefix.mpr (List.prefix_append _ _))]
    exact scanFields_hexRow beyond (.cons hseq (.cons (by omega) .nil))
  refine ⟨syncTag ++ hexRow [seq, t1], ?_, hlt, ?_⟩
  · have htext : syncTag ++ hex seq ++ 32 :: hex t1 = syncTag ++ hexRow [seq, t1] :=
      List.append_assoc _ _ _
    rw [idrRelaySync, htext, snprintf_of_lt hlt]
    exact if_pos le_rfl
  · rw [idrCtrlCommand, if_neg (not_refused (by omega) hlt), cString_row (by decide), hfields]

/-- The ground reads the `SYNCR` of the air. -/
theorem syncr_line (hseq : seq < 2 ^ 32) (h1 : t1 < 2 ^ 60) (h2 : t2 < 2 ^ 60)
    (h3 : t3 < 2 ^ 60) :
    ∃ line, line.length < ctrlMaxPayload ∧
      (∀ (auxPayloadMax : ℕ) (item : TxOutqItem), 63 ≤ auxPayloadMax → item.isSyncr = true →
        item.syncSeq = seq → item.t1Us = t1 → item.t2Us = t2 →
          stageOutq auxPayloadMax item t3 = some line) ∧
      handleAirCtrl beyond line = some (seq, t1, t2, t3) := by
  have hseqLen : (hex seq).length ≤ 8 := length_hex_le (by omega) (by decide)
  have h1Len := length_hex_le_of_lt h1
  have h2Len := length_hex_le_of_lt h2
  have h3Len := length_hex_le_of_lt h3
  have hlength : (syncrTag ++ hexRow [seq, t1, t2, t3]).length =
      6 + ((hex seq).length + (1 + ((hex t1).length + (1 + ((hex t2).length + (1 +
        (hex t3).length)))))) := by
    simp only [hexRow, syncrTag, ascii, List.length_append, List.length_cons, List.length_map,
      List.length_nil]
    omega
  have hlt : (syncrTag ++ hexRow [seq, t1, t2, t3]).length < ctrlMaxPayload := by
    show _ < 64
    omega
  have hpos := not_refused (by omega) hlt
  have hfields : scanFields beyond [32, 64, 64, 64]
      ((syncrTag ++ hexRow [seq, t1, t2, t3]).drop 6) = [seq, t1, t2, t3] :=
    scanFields_hexRow beyond
      (.cons hseq (.cons (by omega) (.cons (by omega) (.cons (by omega) .nil))))
  refine ⟨syncrTag ++ hexRow [seq, t1, t2, t3], hlt, ?_, ?_⟩
  · intro auxPayloadMax item haux hsyncr hs ht1 ht2
    have htext : syncrTag ++ hex item.syncSeq ++ 32 :: hex item.t1Us ++ 32 :: hex item.t2Us ++
        32 :: hex t3 = syncrTag ++ hexRow [seq, t1, t2, t3] := by
      rw [hs, ht1, ht2]
      simp only [hexRow, List.append_assoc, List.cons_append]
    have hfits : ¬ ((syncrTag ++ hexRow [seq, t1, t2, t3]).length = 0 ∨
        auxPayloadMax < (syncrTag ++ hexRow [seq, t1, t2, t3]).length) := by omega
    rw [stageOutq, htext, snprintf_of_lt hlt]
    dsimp only
    rw [if_neg fun h => hpos h.2, if_pos hsyncr, if_neg hfits]
  · rw [handleAirCtrl, if_neg hpos, cString_row (by decide),
      if_pos (List.isPrefixOf_iff_prefix.mpr (List.prefix_append _ _)), hfields]

/-- An `IDR` is read as one, unless its token is empty. -/
theorem idr_line {datagram line : List UInt8} (h : idrRelayIdr datagram = some line) :
    ∃ token, idrRelayToken datagram = some token ∧ line.length < ctrlMaxPayload ∧
      idrCtrlCommand beyond line = some (if token = [] then .unknown else .idr token) := by
  obtain ⟨token, htoken, rfl⟩ := Option.map_eq_some_iff.mp h
  obtain ⟨hlen, hzero⟩ := idrRelayToken_spec htoken
  have hlength : (idrTag ++ token).length = 4 + token.length := List.length_append
  have hshort : token.length ≤ 16 := hlen
  have hlt : (idrTag ++ token).length < ctrlMaxPayload := by
    show _ < 64
    omega
  have hpos := not_refused (by omega) hlt
  have hstring : cString (idrTag ++ token) = idrTag ++ token := by
    refine cString_of_notMem ?_
    rw [List.mem_append, not_or]
    exact ⟨by decide, hzero⟩
  have hfields : syncFields beyond (idrTag ++ token) = [] := if_neg Bool.false_ne_true
  have hdrop : (idrTag ++ token).drop 4 = token := rfl
  have hpref : idrTag.isPrefixOf (idrTag ++ token) = true :=
    List.isPrefixOf_iff_prefix.mpr (List.prefix_append _ _)
  refine ⟨token, htoken, by rwa [snprintf_of_lt hlt], ?_⟩
  rw [snprintf_of_lt hlt, idrCtrlCommand, if_neg hpos, hstring, hfields, hlength, hdrop]
  -- the air wants at least one character behind the tag
  by_cases hnil : token = []
  · rw [if_pos hnil, if_neg fun hidr => ?_]
    simp [hnil] at hidr
  · have hlong := List.length_pos_iff.mpr hnil
    rw [if_neg hnil, if_pos ⟨hpref, by omega⟩]

/-- **The clock-sync lines go through their text form.** The air reads what the ground wrote and
the ground reads what the air wrote, each line is one chunk, and neither command to the air is
taken for the other. -/
theorem sync_lines_round_trip (hseq : seq < 2 ^ 32) (h1 : t1 < 2 ^ 60) (h2 : t2 < 2 ^ 60)
    (h3 : t3 < 2 ^ 60) :
    ∃ sync syncr,
      (idrRelaySync seq t1 = some sync ∧ sync.length < ctrlMaxPayload ∧
        OneChunk sync ctrlMaxPayload ∧ idrCtrlCommand beyond sync = some (.sync seq t1)) ∧
      (∀ (auxPayloadMax : ℕ) (item : TxOutqItem), 63 ≤ auxPayloadMax → item.isSyncr = true →
        item.syncSeq = seq → item.t1Us = t1 → item.t2Us = t2 →
          stageOutq auxPayloadMax item t3 = some syncr ∧
            (auxPayloadMax ≤ chunkMaxPayload → OneChunk syncr auxPayloadMax)) ∧
      (syncr.length < ctrlMaxPayload ∧ handleAirCtrl beyond syncr = some (seq, t1, t2, t3)) ∧
      ∀ datagram line, idrRelayIdr datagram = some line →
        line ≠ sync ∧ ∃ command, idrCtrlCommand beyond line = some command ∧
          ∀ seq' t1', command ≠ .sync seq' t1' := by
  obtain ⟨sync, hsync, hsyncLen, hair⟩ := sync_line beyond hseq h1
  obtain ⟨syncr, hsyncrLen, hstage, hground⟩ := syncr_line beyond hseq h1 h2 h3
  have hsyncrLen' : syncr.length < 64 := hsyncrLen
  refine ⟨sync, syncr, ⟨hsync, hsyncLen, ?_, hair⟩, ?_, ⟨hsyncrLen, hground⟩, ?_⟩
  · exact oneChunk (by decide) hsyncLen.le (by decide)
  · intro auxPayloadMax item haux hsyncr hs ht1 ht2
    exact ⟨hstage auxPayloadMax item haux hsyncr hs ht1 ht2,
      fun hmax => oneChunk (by omega) (by omega) hmax⟩
  · intro datagram line hline
    obtain ⟨token, -, -, hread⟩ := idr_line beyond hline
    have hother : ∀ seq' t1', (if token = [] then CtrlCommand.unknown else .idr token) ≠
        .sync seq' t1' := by
      intro seq' t1'
      split_ifs <;> nofun
    refine ⟨?_, _, hread, hother⟩
    rintro rfl
    exact hother seq t1 (Option.some.inj (hread.symm.trans hair))

/-- A number as the clock gives it after some days. -/
theorem sync_lines_round_trip_days :
    ∃ sync, idrRelaySync 4294967295 864000000000 = some sync ∧
      idrCtrlCommand (fun _ _ => 0) sync = some (.sync 4294967295 864000000000) := by
  obtain ⟨sync, -, ⟨hsync, -, -, hair⟩, -⟩ := @sync_lines_round_trip (fun _ _ => 0)
    4294967295 864000000000 864000004000 864000004500 (by decide) (by decide) (by decide)
    (by decide)
  exact ⟨sync, hsync, hair⟩

end Lines

end Ar8030

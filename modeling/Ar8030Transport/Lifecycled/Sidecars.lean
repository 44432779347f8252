import Ar8030Transport.Library.DecimalText
import Ar8030Transport.Lifecycled.Daemon
import Ar8030Transport.Wire.Control

/-!
# The files of the settings

The lifecycle daemon keeps each of its settings in a file of its own next to the baseband
configuration: `ar8030.tuning`, `ar8030.retx`, `ar8030.channel` and `ar8030.power`. The load and
save functions are those of `lifecycled/lifecycle_tuning.c`. A save writes a temporary file and
renames it, so a file is only ever replaced as a whole; here it is its bytes.

What is saved is loaded again, and whatever the bytes, what is loaded is a setting that may be
saved (`sidecars_round_trip`).

`scanf` leaves open what an `int` gets from a number that it cannot hold: `intOf` says it.
-/

namespace Ar8030

open DecimalText
open HexText (isSpace)

/-! ### Bandwidth -/

/-- `lc_tuning_save`: the text, or a refusal. -/
def lcTuningSave (mhz : ℤ) : Option (List UInt8) :=
  if mhz ∈ validMhz then some (decimal mhz ++ [10]) else none

/-- `lc_tuning_load`; `none` is -1. -/
def lcTuningLoad (intOf : ℤ → ℤ) (text : List UInt8) : Option ℤ :=
  match scanDecimal text with
  | none => none
  | some r => if intOf r.1 ∈ validMhz then some (intOf r.1) else none

/-! ### Retransmissions -/

/-- `lc_retx_valid`. -/
def RetxCfg.isValid (r : RetxCfg) : Bool :=
  r.win ≤ 255 ∧ r.busy ≤ 255 ∧ r.idle ≤ 255 ∧ r.contiBusy ≤ 255 ∧ r.contiIdle ≤ 255

/-- `lc_retx_save`. -/
def lcRetxSave (r : RetxCfg) : Option (List UInt8) :=
  if r.isValid then
    some (decimal r.win ++ 32 :: (decimal r.busy ++ 32 :: (decimal r.idle ++ 32 ::
      (decimal r.contiBusy ++ 32 :: (decimal r.contiIdle ++ [10])))))
  else none

/-- Some numbers in a row, as far as there are any. -/
def scanInts (intOf : ℤ → ℤ) : ℕ → List UInt8 → List ℤ
  | 0, _ => []
  | n + 1, text =>
    match scanDecimal text with
    | none => []
    | some r => intOf r.1 :: scanInts intOf n r.2

/-- `lc_retx_load`. -/
def lcRetxLoad (intOf : ℤ → ℤ) (text : List UInt8) : Option RetxCfg :=
  match scanInts intOf 5 text with
  | [win, busy, idle, contiBusy, contiIdle] =>
    if [win, busy, idle, contiBusy, contiIdle].all fun z => decide (0 ≤ z ∧ z ≤ 255) then
      some ⟨win.toNat, busy.toNat, idle.toNat, contiBusy.toNat, contiIdle.toNat⟩
    else none
  | _ => none

/-! ### Channel and power -/

/-- `auto`. -/
def autoText : List UInt8 := ascii ['a', 'u', 't', 'o']

/-- `none`. -/
def noneText : List UInt8 := ascii ['n', 'o', 'n', 'e']

/-- `lc_channel_parse` of a string. A number out of range is refused, whether or not it fits a
`long`. -/
def lcChannelParse (s : List UInt8) : Option Channel :=
  if s = [] then none
  else if s = autoText then some .auto
  else if s = noneText then some .none
  else
    match scanDecimal s with
    | some (z, []) => if 0 ≤ z ∧ z < maxChanNum then some (.index z.toNat) else none
    | _ => none

/-- `lc_power_parse`: a number, and `mw` or `mW` behind it. -/
def lcPowerParse (s : List UInt8) : Option PowerLevel :=
  if s = [] then none
  else if s = autoText then some .auto
  else if s = noneText then some .none
  else
    match scanDecimal s with
    | none => none
    | some r =>
      if (r.2 = [] ∨ r.2 = ascii ['m', 'w'] ∨ r.2 = ascii ['m', 'W']) ∧ 0 < r.1 ∧ r.1 ≤ 10000 then
        some (.mw r.1.toNat)
      else none

/-- `%15s`: a word of up to 15 characters, if there is one. -/
def scanWord (text : List UInt8) : Option (List UInt8) :=
  let word := (text.dropWhile isSpace).takeWhile fun b => !isSpace b
  if word = [] then none else some (cString (word.take 15))

/-- `lc_channel_load`. -/
def lcChannelLoad (text : List UInt8) : Option Channel :=
  match (scanWord text).bind lcChannelParse with
  | some .none => none
  | chan => chan

/-- `lc_channel_save`. -/
def lcChannelSave : Channel → Option (List UInt8)
  | .auto => some (autoText ++ [10])
  | .none => none
  | .index n => if n < maxChanNum then some (decimal n ++ [10]) else none

/-- `lc_power_load`. -/
def lcPowerLoad (text : List UInt8) : Option PowerLevel :=
  match (scanWord text).bind lcPowerParse with
  | some .none => none
  | level => level

/-- `lc_power_save`. -/
def lcPowerSave : PowerLevel → Option (List UInt8)
  | .auto => some (autoText ++ [10])
  | .none => none
  | .mw n => if 0 < n then some (decimal n ++ [10]) else none

/-- The power levels there can be in a file. -/
def PowerLevel.isStorable : PowerLevel → Bool
  | .auto => true
  | .none => false
  | .mw n => 0 < n ∧ n ≤ 10000

/-! ### Numbers in a file -/

/-- What `int` holds it keeps. -/
def KeepsInts (intOf : ℤ → ℤ) : Prop := ∀ z, -2 ^ 31 ≤ z → z < 2 ^ 31 → intOf z = z

section Numbers

variable {intOf : ℤ → ℤ}

theorem lcTuningLoad_save (hint : KeepsInts intOf) {mhz : ℤ} (h : mhz ∈ validMhz) :
    ∃ text, lcTuningSave mhz = some text ∧ lcTuningLoad intOf text = some mhz := by
  have hkeep : intOf mhz = mhz := by
    have hall : ∀ z ∈ validMhz, -2 ^ 31 ≤ z ∧ z < 2 ^ 31 := by decide
    exact hint mhz (hall mhz h).1 (hall mhz h).2
  refine ⟨_, if_pos h, ?_⟩
  rw [lcTuningLoad, scanDecimal_decimal mhz (ends_cons rfl [])]
  dsimp only
  rw [hkeep, if_pos h]

/-- A number of a row, and the blank behind it. -/
theorem scanInts_decimal (hint : KeepsInts intOf) (k : ℕ) {n : ℕ} (hn : n ≤ 255) {b : UInt8}
    (hb : isDigit b = false) (rest : List UInt8) :
    scanInts intOf (k + 1) (decimal n ++ b :: rest) = (n : ℤ) :: scanInts intOf k (b :: rest) := by
  rw [scanInts, scanDecimal_decimal n (ends_cons hb rest)]
  dsimp only
  rw [hint n (by omega) (by omega)]

theorem scanInts_space (k : ℕ) (text : List UInt8) :
    scanInts intOf (k + 1) (32 :: text) = scanInts intOf (k + 1) text := by
  rw [scanInts, scanInts, scanDecimal_cons_space rfl]

theorem lcRetxLoad_save (hint : KeepsInts intOf) {r : RetxCfg} (h : r.isValid = true) :
    ∃ text, lcRetxSave r = some text ∧ lcRetxLoad intOf text = some r := by
  refine ⟨_, if_pos h, ?_⟩
  obtain ⟨hwin, hbusy, hidle, hcb, hci⟩ := of_decide_eq_true h
  rw [lcRetxLoad, scanInts_decimal hint 4 hwin rfl, scanInts_space,
    scanInts_decimal hint 3 hbusy rfl, scanInts_space, scanInts_decimal hint 2 hidle rfl,
    scanInts_space, scanInts_decimal hint 1 hcb rfl, scanInts_space,
    scanInts_decimal hint 0 hci rfl]
  dsimp only [scanInts]
  rw [if_pos]
  · simp only [Int.toNat_natCast]
  · simp only [List.all_cons, List.all_nil, Bool.and_true, Bool.and_eq_true, decide_eq_true_eq]
    omega

end Numbers

/-! ### Words in a file -/

/-- A word without white space or a terminator is read back. -/
theorem scanWord_line {word : List UInt8} (hne : word ≠ []) (hlen : word.length ≤ 15)
    (hword : ∀ b ∈ word, isSpace b = false ∧ b ≠ 0) : scanWord (word ++ [10]) = some word := by
  have hdrop : (word ++ [10]).dropWhile isSpace = word ++ [10] := by
    obtain ⟨b, bs, rfl⟩ := List.exists_cons_of_ne_nil hne
    rw [List.cons_append, List.dropWhile_cons_of_neg]
    rw [(hword b List.mem_cons_self).1]
    exact Bool.false_ne_true
  have htake : (word ++ [10]).takeWhile (fun b => !isSpace b) = word := by
    rw [List.takeWhile_append_of_pos fun b hb => by rw [(hword b hb).1]; rfl]
    exact List.append_nil _
  rw [scanWord, hdrop, htake, if_neg hne, List.take_of_length_le hlen,
    cString_of_notMem (fun h0 => (hword 0 h0).2 rfl)]

theorem scanWord_auto : scanWord (autoText ++ [10]) = some autoText := by
  have hall : autoText.all (fun b => !isSpace b && b != 0) = true := rfl
  refine scanWord_line (List.cons_ne_nil _ _) (by decide) fun b hb => ?_
  simpa using List.all_eq_true.mp hall b hb

theorem length_decimal_natCast_le {n k : ℕ} (h : n < 10 ^ k) (hk : 0 < k) :
    (decimal (n : ℤ)).length ≤ k := by
  rw [decimal_natCast]
  exact length_natural_le h hk

theorem isDigit_of_mem_decimal {n : ℕ} {b : UInt8} (h : b ∈ decimal (n : ℤ)) :
    isDigit b = true := by
  rw [decimal_natCast] at h
  exact isDigit_of_mem_natural h

theorem scanWord_decimal {n : ℕ} (h : n < 10 ^ 15) :
    scanWord (decimal (n : ℤ) ++ [10]) = some (decimal n) := by
  refine scanWord_line (decimal_ne_nil _) (length_decimal_natCast_le h (by decide)) fun b hb => ?_
  obtain ⟨hspace, -, -, hzero⟩ := of_isDigit (isDigit_of_mem_decimal hb)
  exact ⟨hspace, hzero⟩

/-- A number is none of the words. -/
theorem decimal_ne_word {n : ℕ} {word : List UInt8} (hword : ∃ b ∈ word, isDigit b = false) :
    decimal (n : ℤ) ≠ word := by
  obtain ⟨b, hb, hdigit⟩ := hword
  rintro rfl
  exact Bool.false_ne_true (hdigit.symm.trans (isDigit_of_mem_decimal hb))

theorem lcChannelParse_decimal {n : ℕ} (h : n < maxChanNum) :
    lcChannelParse (decimal (n : ℤ)) = some (.index n) := by
  rw [lcChannelParse, if_neg (decimal_ne_nil _),
    if_neg (decimal_ne_word ⟨97, by decide, by decide⟩),
    if_neg (decimal_ne_word ⟨110, by decide, by decide⟩), scanDecimal_decimal_nil]
  dsimp only
  rw [if_pos ⟨by omega, by omega⟩, Int.toNat_natCast]

theorem lcPowerParse_decimal {n : ℕ} (hpos : 0 < n) (h : n ≤ 10000) :
    lcPowerParse (decimal (n : ℤ)) = some (.mw n) := by
  rw [lcPowerParse, if_neg (decimal_ne_nil _),
    if_neg (decimal_ne_word ⟨97, by decide, by decide⟩),
    if_neg (decimal_ne_word ⟨110, by decide, by decide⟩), scanDecimal_decimal_nil]
  dsimp only
  rw [if_pos ⟨Or.inl rfl, by omega, by omega⟩, Int.toNat_natCast]

theorem lcChannelLoad_save {chan : Channel} (h : chan.isRequestable = true) :
    ∃ text, lcChannelSave chan = some text ∧ lcChannelLoad text = some chan := by
  cases chan with
  | auto =>
    refine ⟨_, rfl, ?_⟩
    rw [lcChannelLoad, scanWord_auto]
    rfl
  | none => exact absurd h Bool.false_ne_true
  | index n =>
    have hn : n < maxChanNum := of_decide_eq_true h
    refine ⟨_, if_pos hn, ?_⟩
    rw [lcChannelLoad, scanWord_decimal (hn.trans (by decide)), Option.bind_some,
      lcChannelParse_decimal hn]

theorem lcPowerLoad_save {level : PowerLevel} (h : level.isStorable = true) :
    ∃ text, lcPowerSave level = some text ∧ lcPowerLoad text = some level := by
  cases level with
  | auto =>
    refine ⟨_, rfl, ?_⟩
    rw [lcPowerLoad, scanWord_auto]
    rfl
  | none => exact absurd h Bool.false_ne_true
  | mw n =>
    obtain ⟨hpos, hle⟩ := of_decide_eq_true h
    refine ⟨_, if_pos hpos, ?_⟩
    rw [lcPowerLoad, scanWord_decimal (lt_of_le_of_lt hle (by decide)), Option.bind_some,
      lcPowerParse_decimal hpos hle]

/-! ### Any text -/

theorem lcTuningLoad_mem {intOf : ℤ → ℤ} {text : List UInt8} {mhz : ℤ}
    (h : lcTuningLoad intOf text = some mhz) : mhz ∈ validMhz := by
  rw [lcTuningLoad] at h
  split at h
  · cases h
  · split_ifs at h with hmem
    obtain rfl := Option.some.inj h
    exact hmem

theorem lcRetxLoad_isValid {intOf : ℤ → ℤ} {text : List UInt8} {r : RetxCfg}
    (h : lcRetxLoad intOf text = some r) : r.isValid = true := by
  rw [lcRetxLoad] at h
  split at h
  · split_ifs at h with hall
    obtain rfl := Option.some.inj h
    simp only [List.all_cons, List.all_nil, Bool.and_true, Bool.and_eq_true,
      decide_eq_true_eq] at hall
    refine decide_eq_true ?_
    dsimp only
    omega
  · cases h

theorem lcChannelParse_cases {s : List UInt8} {chan : Channel} (h : lcChannelParse s = some chan) :
    chan = .none ∨ chan.isRequestable = true := by
  rw [lcChannelParse] at h
  split_ifs at h
  · exact Or.inr (Option.some.inj h ▸ rfl)
  · exact Or.inl (Option.some.inj h).symm
  · split at h
    · split_ifs at h with hz
      obtain rfl := Option.some.inj h
      refine Or.inr (decide_eq_true ?_)
      omega
    · cases h

theorem lcPowerParse_cases {s : List UInt8} {level : PowerLevel} (h : lcPowerParse s = some level) :
    level = .none ∨ level.isStorable = true := by
  rw [lcPowerParse] at h
  split_ifs at h
  · exact Or.inr (Option.some.inj h ▸ rfl)
  · exact Or.inl (Option.some.inj h).symm
  · split at h
    · cases h
    · split_ifs at h with hz
      obtain rfl := Option.some.inj h
      refine Or.inr (decide_eq_true ?_)
      omega

theorem lcChannelLoad_isRequestable {text : List UInt8} {chan : Channel}
    (h : lcChannelLoad text = some chan) : chan.isRequestable = true := by
  rw [lcChannelLoad] at h
  split at h
  · cases h
  · rename_i hne
    obtain ⟨s, -, hs⟩ := Option.bind_eq_some_iff.mp h
    rcases lcChannelParse_cases hs with rfl | hok
    · exact absurd h hne
    · exact hok

theorem lcPowerLoad_isStorable {text : List UInt8} {level : PowerLevel}
    (h : lcPowerLoad text = some level) : level.isStorable = true := by
  rw [lcPowerLoad] at h
  split at h
  · cases h
  · rename_i hne
    obtain ⟨s, -, hs⟩ := Option.bind_eq_some_iff.mp h
    rcases lcPowerParse_cases hs with rfl | hok
    · exact absurd h hne
    · exact hok

/-- **The files of the settings.** Every valid bandwidth, retransmission setting, channel and
power level is loaded as it was saved; and whatever a file holds, what is loaded from it, if
anything, is valid. -/
theorem sidecars_round_trip (intOf : ℤ → ℤ) (hint : KeepsInts intOf) :
    ((∀ mhz ∈ validMhz, ∃ text, lcTuningSave mhz = some text ∧ lcTuningLoad intOf text = some mhz) ∧
      (∀ r : RetxCfg, r.isValid = true →
        ∃ text, lcRetxSave r = some text ∧ lcRetxLoad intOf text = some r) ∧
      (∀ chan : Channel, chan.isRequestable = true →
        ∃ text, lcChannelSave chan = some text ∧ lcChannelLoad text = some chan) ∧
      (∀ level : PowerLevel, level.isStorable = true →
        ∃ text, lcPowerSave level = some text ∧ lcPowerLoad text = some level)) ∧
    ∀ text : List UInt8,
      (∀ mhz, lcTuningLoad intOf text = some mhz → mhz ∈ validMhz) ∧
        (∀ r, lcRetxLoad intOf text = some r → r.isValid = true) ∧
        (∀ chan, lcChannelLoad text = some chan → chan.isRequestable = true) ∧
        (∀ level, lcPowerLoad text = some level → level.isStorable = true) :=
  ⟨⟨fun _ => lcTuningLoad_save hint, fun _ => lcRetxLoad_save hint, fun _ => lcChannelLoad_save,
      fun _ => lcPowerLoad_save⟩,
    fun _ => ⟨fun _ => lcTuningLoad_mem, fun _ => lcRetxLoad_isValid,
      fun _ => lcChannelLoad_isRequestable, fun _ => lcPowerLoad_isStorable⟩⟩

/-- With the conversion of two's complement. -/
theorem sidecars_round_trip_toInt :
    ∃ text, lcRetxSave retxDefault = some text ∧ lcRetxLoad toInt text = some retxDefault :=
  (sidecars_round_trip toInt fun _ hlo hhi => toInt_of_lt hlo hhi).1.2.1 retxDefault (by decide)

end Ar8030

import Ar8030Transport.Library.JsonText
import Ar8030Transport.Lifecycled.HttpApi

/-!
# The texts of the answers

What `send_json` of `lifecycle_http.c` is given: every answer of the control API is a JSON object,
written with `snprintf` into a buffer of fixed size. The page and the documents that show the state
of the daemon are left out.

The output of `ar8030-linkctl` goes through `json_escape`. However long it is and whatever is in
it, nothing is cut off on the way but what `run_linkctl` does not read, and the text is a JSON
string of the output without its control characters (`answer_texts`).
-/

namespace Ar8030

open DecimalText JsonText

/-! ### Escaping -/

/-- What a turn of `json_escape` writes. -/
def escapeByte (b : UInt8) : List UInt8 :=
  if b = 34 then [92, 34]
  else if b = 92 then [92, 92]
  else if b = 10 then [92, 110]
  else if b = 13 then [92, 114]
  else if b = 9 then [92, 116]
  else if 32 ≤ b then [b] else []

/-- `json_escape` into `outSz` bytes: once there is no room the rest is dropped. -/
def jsonEscape (outSz : ℕ) (s : List UInt8) : List UInt8 :=
  s.foldl (fun out b => if out.length + 2 < outSz then out ++ escapeByte b else out) []

/-- A character that `json_escape` does not drop. -/
def isShown (b : UInt8) : Bool := b = 10 ∨ b = 13 ∨ b = 9 ∨ 32 ≤ b

/-! ### Answers -/

/-- `format_channel`. -/
def formatChannel : Channel → List UInt8
  | .auto => asciiText "\"auto\""
  | .none => asciiText "null"
  | .index n => decimal n

/-- `lc_power_levels_json`. -/
def lcPowerLevelsJson (role : Role) (maxMw : ℕ) : List UInt8 :=
  let auto := if role = .dev ∧ powerWithin maxMw .auto then [asciiText "\"auto\""] else []
  let levels := (powerLevels role).filter fun t => powerWithin maxMw (.mw t.1)
  (asciiText ",").intercalate (auto ++ levels.map fun t => decimal t.1)

/-- What `run_linkctl` keeps of the output in a buffer of `outSz` bytes, as a string. -/
def capturedOutput (outSz : ℕ) (output : List UInt8) : List UInt8 :=
  cString (output.take (outSz - 1))

/-- The answer of `handle_linkctl`. -/
def linkctlBody (exitCode : ℤ) (output : List UInt8) : List UInt8 :=
  (snprintf 4200 (asciiText "\x7b\"ok\":" ++
    (asciiText (if exitCode = 0 then "true" else "false") ++
      (asciiText ",\"exit_code\":" ++ (decimal exitCode ++ (asciiText ",\"output\":\"" ++
        (jsonEscape 4096 (capturedOutput 2048 output) ++ asciiText "\"\x7d"))))))).1

/-- The object of a setting that is queued. -/
def queuedBody : LcAction → List UInt8
  | .tick _ => []
  | .bandwidth mhz =>
    asciiText "\x7b\"ok\":true,\"queued_mhz\":" ++ (decimal mhz ++ asciiText "\x7d")
  | .retx t =>
    asciiText "\x7b\"ok\":true,\"queued\":\x7b\"win\":" ++ (decimal t.win ++
      (asciiText ",\"busy\":" ++ (decimal t.busy ++ (asciiText ",\"idle\":" ++ (decimal t.idle ++
        (asciiText ",\"conti_busy\":" ++ (decimal t.contiBusy ++
          (asciiText ",\"conti_idle\":" ++ (decimal t.contiIdle ++ asciiText "\x7d\x7d")))))))))
  | .channel chan =>
    asciiText "\x7b\"ok\":true,\"queued\":" ++ (formatChannel chan ++ asciiText "\x7d")
  | .power .auto => asciiText "\x7b\"ok\":true,\"queued\":\"auto\"\x7d"
  | .power .none => asciiText "\x7b\"ok\":true,\"queued\":-2\x7d"
  | .power (.mw n) => asciiText "\x7b\"ok\":true,\"queued\":" ++ (decimal n ++ asciiText "\x7d")
  | .armed armed =>
    asciiText "\x7b\"ok\":true,\"queued\":" ++
      (decimal (if armed then 1 else 0) ++ asciiText "\x7d")

/-- The object of an error; a refused power level tells the levels there are. -/
def errorBody (cfg : LcConfig) (e : HttpError) : List UInt8 :=
  asciiText "\x7b\"ok\":false,\"error\":\"" ++ (asciiText e.text ++ (asciiText "\"" ++
    ((if e = .badLevel then
        asciiText ",\"power_levels\":[" ++
          (lcPowerLevelsJson cfg.role cfg.maxPower ++ asciiText "]")
      else []) ++ asciiText "\x7d")))

/-- The text of an answer. -/
def HttpReply.body (cfg : LcConfig) : HttpReply → Option (List UInt8)
  | .page => none
  | .document _ => none
  | .queued a => some (queuedBody a)
  | .forgotten => some (asciiText "\x7b\"ok\":true\x7d")
  | .paired slot =>
    some (asciiText "\x7b\"ok\":true,\"slot\":" ++ (decimal slot ++ asciiText "\x7d"))
  | .linkctl exitCode output => some (linkctlBody exitCode output)
  | .failed e => some (errorBody cfg e)

/-! ### What the texts say -/

theorem length_escapeByte_le (b : UInt8) : (escapeByte b).length ≤ 2 := by
  rw [escapeByte]
  split_ifs <;> simp

theorem length_flatMap_escapeByte_le (s : List UInt8) :
    (s.flatMap escapeByte).length ≤ 2 * s.length := by
  induction s with
  | nil => exact le_rfl
  | cons b s ih =>
    have hbyte := length_escapeByte_le b
    rw [List.flatMap_cons, List.length_append, List.length_cons]
    omega

/-- With room for two bytes a character nothing is dropped. -/
theorem jsonEscape_eq {outSz : ℕ} {s : List UInt8} (h : 2 * s.length < outSz) :
    jsonEscape outSz s = s.flatMap escapeByte := by
  have hloop : ∀ (s out : List UInt8), out.length + 2 * s.length < outSz →
      s.foldl (fun out b => if out.length + 2 < outSz then out ++ escapeByte b else out) out =
        out ++ s.flatMap escapeByte := by
    intro s
    induction s with
    | nil => exact fun out _ => (List.append_nil out).symm
    | cons b s ih =>
      intro out hout
      have hlen := length_escapeByte_le b
      rw [List.length_cons] at hout
      rw [List.foldl_cons, if_pos (by omega), ih _ (by rw [List.length_append]; omega),
        List.flatMap_cons, List.append_assoc]
  exact hloop s [] (by rw [List.length_nil]; omega)

/-- What is written for a character is read as it, or as nothing. -/
theorem isText_escapeByte (b : UInt8) :
    IsText (if isShown b then [b] else []) (escapeByte b) := by
  by_cases hquote : b = 34
  · subst hquote
    exact isText_escape rfl
  by_cases hbackslash : b = 92
  · subst hbackslash
    exact isText_escape rfl
  by_cases hnewline : b = 10
  · subst hnewline
    exact isText_escape rfl
  by_cases hreturn : b = 13
  · subst hreturn
    exact isText_escape rfl
  by_cases htab : b = 9
  · subst htab
    exact isText_escape rfl
  rw [escapeByte, if_neg hquote, if_neg hbackslash, if_neg hnewline, if_neg hreturn, if_neg htab]
  by_cases hplain : 32 ≤ b
  · have hshown : isShown b = true := decide_eq_true (Or.inr (Or.inr (Or.inr hplain)))
    rw [if_pos hshown, if_pos hplain]
    exact isText_self hquote hbackslash hplain
  · have hhidden : ¬isShown b = true := by simp [isShown, hnewline, hreturn, htab, hplain]
    rw [if_neg hhidden, if_neg hplain]
    exact isText_nil

theorem isText_flatMap_escapeByte (s : List UInt8) :
    IsText (s.filter isShown) (s.flatMap escapeByte) := by
  have hfilter : s.filter isShown = s.flatMap fun b => if isShown b then [b] else [] := by
    induction s with
    | nil => rfl
    | cons b s ih =>
      rw [List.filter_cons, List.flatMap_cons, ih]
      split_ifs <;> rfl
  rw [hfilter]
  exact isText_flatMap isText_escapeByte s

theorem length_capturedOutput_le (outSz : ℕ) (output : List UInt8) :
    (capturedOutput outSz output).length ≤ outSz - 1 :=
  (List.takeWhile_prefix _).length_le.trans (List.length_take_le _ _)

/-- What stands in front of the output. -/
def linkctlPrefix (exitCode : ℤ) : List UInt8 :=
  asciiText "\x7b\"ok\":" ++ (asciiText (if exitCode = 0 then "true" else "false") ++
    (asciiText ",\"exit_code\":" ++ (decimal exitCode ++ asciiText ",\"output\":\"")))

/-- **The output of `ar8030-linkctl` is passed on** up to the room of `run_linkctl` and its first
zero: what stands behind the opening quote is a JSON string of it without the control characters,
and the object ends behind its closing quote. -/
theorem linkctl_output_reads_back {exitCode : ℤ} (hlo : -2 ^ 31 ≤ exitCode)
    (hhi : exitCode < 2 ^ 31) (output : List UInt8) :
    ∃ text, linkctlBody exitCode output = linkctlPrefix exitCode ++ text ∧
      readString text =
        some ((capturedOutput 2048 output).filter isShown, asciiText "\x7d") := by
  have hcaptured := length_capturedOutput_le 2048 output
  have hescape : jsonEscape 4096 (capturedOutput 2048 output) =
      (capturedOutput 2048 output).flatMap escapeByte := jsonEscape_eq (by omega)
  have htext := isText_flatMap_escapeByte (capturedOutput 2048 output)
  refine ⟨(capturedOutput 2048 output).flatMap escapeByte ++ asciiText "\"\x7d", ?_,
    htext.readString_eq _⟩
  have hdigits : (natural exitCode.natAbs).length ≤ 10 := length_natural_le (by omega) (by decide)
  have hescaped := length_flatMap_escapeByte_le (capturedOutput 2048 output)
  rw [linkctlBody, hescape, snprintf_of_lt, linkctlPrefix]
  · simp only [List.append_assoc]
  · have hok : (asciiText (if exitCode = 0 then "true" else "false")).length ≤ 5 := by
      split_ifs <;> decide
    have hsign : (if exitCode < 0 then [45] else ([] : List UInt8)).length ≤ 1 := by
      split_ifs <;> decide
    have hopen : (asciiText "\x7b\"ok\":").length = 6 := rfl
    have hcode : (asciiText ",\"exit_code\":").length = 13 := rfl
    have houtput : (asciiText ",\"output\":\"").length = 11 := rfl
    have hclose : (asciiText "\"\x7d").length = 2 := rfl
    rw [decimal]
    simp only [List.length_append, hopen, hcode, houtput, hclose]
    omega

/-! ### `ok` -/

/-- **Every text says whether the request went well**: `ok` is true exactly under a status below
400. -/
theorem HttpReply.body_ok (cfg : LcConfig) {answer : HttpReply} {body : List UInt8}
    (hanswer : ∀ i, answer ≠ .queued (.tick i)) (h : answer.body cfg = some body) :
    (answer.status < 400 → asciiText "\x7b\"ok\":true" <+: body) ∧
      (400 ≤ answer.status → asciiText "\x7b\"ok\":false" <+: body) := by
  -- an answer under one status, and how its text begins
  have hfine : answer.status < 400 → asciiText "\x7b\"ok\":true" <+: body →
      (answer.status < 400 → asciiText "\x7b\"ok\":true" <+: body) ∧
        (400 ≤ answer.status → asciiText "\x7b\"ok\":false" <+: body) :=
    fun hlt hok => ⟨fun _ => hok, fun hge => absurd hge (by omega)⟩
  have hbad : 400 ≤ answer.status → asciiText "\x7b\"ok\":false" <+: body →
      (answer.status < 400 → asciiText "\x7b\"ok\":true" <+: body) ∧
        (400 ≤ answer.status → asciiText "\x7b\"ok\":false" <+: body) :=
    fun hge hok => ⟨fun hlt => absurd hge (by omega), fun _ => hok⟩
  cases answer with
  | page => cases h
  | document d => cases h
  | queued a =>
    obtain rfl := Option.some.inj h
    refine hfine (by rw [HttpReply.status]; decide) ?_
    cases a with
    | tick i => exact absurd rfl (hanswer i)
    | bandwidth mhz => exact ⟨_, rfl⟩
    | retx t => exact ⟨_, rfl⟩
    | channel chan => exact ⟨_, rfl⟩
    | power level => cases level <;> exact ⟨_, rfl⟩
    | armed armed => exact ⟨_, rfl⟩
  | forgotten =>
    obtain rfl := Option.some.inj h
    exact hfine (by decide) ⟨_, rfl⟩
  | paired slot =>
    obtain rfl := Option.some.inj h
    exact hfine (by rw [HttpReply.status]; decide) ⟨_, rfl⟩
  | linkctl exitCode output =>
    obtain rfl := Option.some.inj h
    by_cases hzero : exitCode = 0
    · refine hfine (by rw [HttpReply.status, if_pos hzero]; decide) ?_
      rw [linkctlBody, if_pos hzero]
      exact ⟨_, rfl⟩
    · refine hbad (by rw [HttpReply.status, if_neg hzero]; decide) ?_
      rw [linkctlBody, if_neg hzero]
      exact ⟨_, rfl⟩
  | failed e =>
    obtain rfl := Option.some.inj h
    refine hbad ?_ ⟨_, rfl⟩
    rw [HttpReply.status]
    cases e <;> decide

/-- **The texts of the answers.** Each begins with `ok`, true exactly under a status below 400; and
the output of `ar8030-linkctl` is a string in its object that reads back as what was captured, up to
the control characters. -/
theorem answer_texts (cfg : LcConfig) :
    (∀ (answer : HttpReply) (body : List UInt8), (∀ i, answer ≠ .queued (.tick i)) →
      answer.body cfg = some body →
      (answer.status < 400 → asciiText "\x7b\"ok\":true" <+: body) ∧
        (400 ≤ answer.status → asciiText "\x7b\"ok\":false" <+: body)) ∧
    ∀ (exitCode : ℤ) (output : List UInt8), -2 ^ 31 ≤ exitCode → exitCode < 2 ^ 31 →
      ∃ text, (HttpReply.linkctl exitCode output).body cfg =
          some (linkctlPrefix exitCode ++ text) ∧
        readString text =
          some ((capturedOutput 2048 output).filter isShown, asciiText "\x7d") := by
  refine ⟨fun _ _ hanswer h => HttpReply.body_ok cfg hanswer h, fun exitCode output hlo hhi => ?_⟩
  obtain ⟨text, hbody, hread⟩ := linkctl_output_reads_back hlo hhi output
  exact ⟨text, congrArg some hbody, hread⟩

/-- `usage: "x"` and an exit code of 2. -/
theorem answer_texts_usage :
    ∃ text, (HttpReply.linkctl 2 (asciiText "usage: \"x\"\n")).body (plainCfg .ap) =
        some (linkctlPrefix 2 ++ text) ∧
      readString text = some (asciiText "usage: \"x\"\n", asciiText "\x7d") :=
  (answer_texts (plainCfg .ap)).2 2 (asciiText "usage: \"x\"\n") (by decide) (by decide)

end Ar8030

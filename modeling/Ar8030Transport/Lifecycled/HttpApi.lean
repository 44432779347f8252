import Ar8030Transport.Lifecycled.HttpRequest
import Ar8030Transport.Lifecycled.PeersFile
import Ar8030Transport.Lifecycled.PowerCap
import Ar8030Transport.Lifecycled.Restart

/-!
# The control API

`dispatch` of `lifecycle_http.c` and its handlers: what a request makes the daemon do, and how it
is answered. One thread serves one connection at a time. A handler ends with an answer, with a
write to a mailbox of the lifecycle thread, or with a call whose result its answer needs
(`HttpStep`); the write and the call are steps of their own, and ticks of the lifecycle thread may
come in between.

Whatever bytes come from the network, only valid settings reach the mailboxes, and every valid
setting does if a client asks for it (`setting_posted`). So the daemon under any traffic is the
daemon of `lcRun` under valid requests (`http_traffic_safe`).

The documents that show the state of the daemon are left out but for which one is sent.
-/

namespace Ar8030

open FormText DecimalText

/-- The characters of a literal. -/
def asciiText (s : String) : List UInt8 := ascii s.toList

/-! ### Answers -/

/-- The errors the handlers tell. -/
inductive HttpError where
  | noEndpoint
  | unknownCmd
  | pairFailed
  | notGround
  | macOrAll
  | badMac
  | currentPeer
  | unknownPeer
  | missingMhz
  | invalidBandwidth
  | badChan
  | noLink
  | invalidChannel
  | badLevel
  | badState
  | missingRetx
  | invalidRetx
  deriving DecidableEq, Repr

/-- The status. -/
def HttpError.status : HttpError → ℕ
  | .noEndpoint => 404
  | .pairFailed => 502
  | .notGround => 404
  | .currentPeer => 409
  | .unknownPeer => 404
  | .noLink => 409
  | _ => 400

/-- The text of `error`. -/
def HttpError.text : HttpError → String
  | .noEndpoint => "no such endpoint"
  | .unknownCmd =>
    "missing or unknown 'cmd' -- see the README's HTTP control API section for the full list"
  | .pairFailed => "pairing failed, see syslog for ar8030-pair's own output"
  | .notGround => "multi-bind is a ground (dev) feature"
  | .macOrAll => "pass either mac=<8 hex digits> or all=1"
  | .badMac => "mac must be 8 hex digits"
  | .currentPeer => "that is the current air unit; bind another to replace it"
  | .unknownPeer => "not a remembered air unit"
  | .missingMhz => "missing 'mhz' query parameter"
  | .invalidBandwidth => "invalid bandwidth, must be one of 1/2/5/10/20/40"
  | .badChan => "'chan' must be a channel index or 'auto'"
  | .noLink =>
    "no link: on the dev side a channel change needs a connected peer to retune with " ++
      "(the ap owns the channel on reconnect)"
  | .invalidChannel => "invalid channel"
  | .badLevel => "'level' must be one of"
  | .badState => "'state' must be 0 or 1"
  | .missingRetx =>
    "missing one of win/busy/idle/conti_busy/conti_idle query parameters (all 5 required)"
  | .invalidRetx => "all 5 values must be in range 0-255"

/-- The documents about the daemon. -/
inductive HttpDocument where
  | status
  | link
  | rfTemp
  | batt
  | peers
  | channel
  | power
  | armed
  deriving DecidableEq, Repr

/-- An answer. -/
inductive HttpReply where
  /-- `INDEX_HTML`. -/
  | page
  | document (d : HttpDocument)
  /-- The setting is in its mailbox. -/
  | queued (a : LcAction)
  /-- `lifecycle_request_forget_peer` has accepted. -/
  | forgotten
  | paired (slot : ℤ)
  /-- The exit code of `ar8030-linkctl`, and its output. -/
  | linkctl (exitCode : ℤ) (output : List UInt8)
  | failed (e : HttpError)
  deriving DecidableEq, Repr

/-- The status of an answer. -/
def HttpReply.status : HttpReply → ℕ
  | .page => 200
  | .document _ => 200
  | .queued _ => 202
  | .forgotten => 202
  | .paired _ => 200
  | .linkctl exitCode _ => if exitCode = 0 then 200 else 502
  | .failed e => e.status

/-! ### Parameters -/

def cmdKey : Key := ⟨asciiText "cmd", by decide, by decide, by decide⟩
def argsKey : Key := ⟨asciiText "args", by decide, by decide, by decide⟩
def macKey : Key := ⟨asciiText "mac", by decide, by decide, by decide⟩
def allKey : Key := ⟨asciiText "all", by decide, by decide, by decide⟩
def mhzKey : Key := ⟨asciiText "mhz", by decide, by decide, by decide⟩
def chanKey : Key := ⟨asciiText "chan", by decide, by decide, by decide⟩
def levelKey : Key := ⟨asciiText "level", by decide, by decide, by decide⟩
def stateKey : Key := ⟨asciiText "state", by decide, by decide, by decide⟩
def winKey : Key := ⟨asciiText "win", by decide, by decide, by decide⟩
def busyKey : Key := ⟨asciiText "busy", by decide, by decide, by decide⟩
def idleKey : Key := ⟨asciiText "idle", by decide, by decide, by decide⟩
def contiBusyKey : Key := ⟨asciiText "conti_busy", by decide, by decide, by decide⟩
def contiIdleKey : Key := ⟨asciiText "conti_idle", by decide, by decide, by decide⟩

/-- `query_param_int`, where a `long` has `w` bits; `none` is -1. -/
def RequestLine.paramInt (w : ℕ) (r : RequestLine) (key : Key) : Option ℤ :=
  (r.param key 32).bind fun v => (scanDecimal v.bytes).map fun z => toInt (clampLong w z.1)

/-- `strcmp(method, "POST") == 0`. -/
def RequestLine.isPost (r : RequestLine) : Bool := r.method.bytes = asciiText "POST"

/-! ### Handlers -/

/-- A handler up to its answer, or up to what its answer waits for. -/
inductive HttpStep where
  | reply (r : HttpReply)
  /-- A setting has passed its tests and is written to its mailbox next. -/
  | post (a : LcAction)
  /-- `lifecycle_request_forget_peer`. -/
  | forget (arg : ForgetArg)
  /-- `lc_pair_run`. -/
  | pair
  /-- `run_linkctl`, for `/api/v1/status` or for its own endpoint. -/
  | linkctl (forStatus : Bool) (argv : List (List UInt8))
  deriving DecidableEq, Repr

/-- A handler ends with an error. -/
def HttpStep.fail (e : HttpError) : HttpStep := .reply (.failed e)

section Handlers

variable (cfg : LcConfig) (w : ℕ) (c : Ctx) (r : RequestLine)

/-- `handle_bandwidth`. -/
def handleBandwidth : HttpStep :=
  match r.paramInt w mhzKey with
  | none => .fail .missingMhz
  | some mhz => if mhz ∈ validMhz then .post (.bandwidth mhz) else .fail .invalidBandwidth

/-- `handle_retx_tuning`. -/
def handleRetxTuning : HttpStep :=
  match r.paramInt w winKey, r.paramInt w busyKey, r.paramInt w idleKey,
    r.paramInt w contiBusyKey, r.paramInt w contiIdleKey with
  | some win, some busy, some idle, some contiBusy, some contiIdle =>
    if [win, busy, idle, contiBusy, contiIdle].all fun z => decide (0 ≤ z ∧ z ≤ 255) then
      .post (.retx ⟨win.toNat, busy.toNat, idle.toNat, contiBusy.toNat, contiIdle.toNat⟩)
    else .fail .invalidRetx
  | _, _, _, _, _ => .fail .missingRetx

/-- `lifecycle_request_channel` up to its write, and what its errors are told as. -/
def requestChannel (chan : Channel) : HttpStep :=
  if chan.isRequestable = false then .fail .invalidChannel
  else if cfg.role = .dev ∧ c.state ≠ .connected then .fail .noLink
  else .post (.channel chan)

/-- `handle_channel`. -/
def handleChannel : HttpStep :=
  if r.isPost then
    match (r.param chanKey 16).bind fun arg => lcChannelParse arg.bytes with
    | none => .fail .badChan
    | some .none => .fail .badChan
    | some chan => requestChannel cfg c chan
  else .reply (.document .channel)

/-- `handle_power`. -/
def handlePower : HttpStep :=
  if r.isPost then
    match (r.param levelKey 16).bind fun arg => lcPowerParse arg.bytes with
    | none => .fail .badLevel
    | some level =>
      if lcPowerValid cfg.role cfg.maxPower level then .post (.power level) else .fail .badLevel
  else .reply (.document .power)

/-- `handle_armed`. -/
def handleArmed : HttpStep :=
  if r.isPost then
    match r.paramInt w stateKey with
    | some 0 => .post (.armed false)
    | some 1 => .post (.armed true)
    | _ => .fail .badState
  else .reply (.document .armed)

/-- `handle_peers`. -/
def handlePeers : HttpStep :=
  if cfg.role ≠ .dev ∨ cfg.hasCfgPath = false then .fail .notGround
  else .reply (.document .peers)

/-- `handle_peers_forget`. -/
def handlePeersForget : HttpStep :=
  let mac := r.param macKey 16
  let wantAll := (r.param allKey 4).any fun v => decide (v.bytes = asciiText "1")
  if mac.isSome = wantAll then .fail .macOrAll
  else
    match mac with
    | none => .forget .null
    | some mac => .forget (.text (macParse mac.bytes))

/-- `LINKCTL_COMMANDS`. -/
def linkctlCommands : List (List UInt8) :=
  [asciiText "status", asciiText "bandwidth", asciiText "channel-mode", asciiText "channel",
    asciiText "mcs-mode", asciiText "mcs", asciiText "mcs-range", asciiText "mcs-table",
    asciiText "power-mode", asciiText "power", asciiText "freq", asciiText "force-close-socket",
    asciiText "force-close-all", asciiText "rf-temp", asciiText "batt"]

/-- `HTTP_MAX_ARGV`. -/
def httpMaxArgv : ℕ := 24

/-- `strtok_r` with a blank and a tab. -/
def tokens (l : List UInt8) : List (List UInt8) :=
  (l.splitOnP fun b => b = 32 ∨ b = 9).filter (· ≠ [])

/-- `handle_linkctl`. -/
def handleLinkctl : HttpStep :=
  match r.param cmdKey 32 with
  | none => .fail .unknownCmd
  | some cmd =>
    if cmd.bytes ∈ linkctlCommands then
      let args := ((r.param argsKey httpMaxQuery).map CStr.bytes).getD []
      .linkctl false
        (asciiText "ar8030-linkctl" :: cmd.bytes :: (tokens args).take (httpMaxArgv - 1 - 2))
    else .fail .unknownCmd

/-- `dispatch`. -/
def dispatch : HttpStep :=
  if r.path.bytes = asciiText "/" then .reply .page
  else if r.path.bytes = asciiText "/api/v1/status" then
    .linkctl true [asciiText "ar8030-linkctl", asciiText "status"]
  else if r.path.bytes = asciiText "/api/v1/pair" ∧ r.isPost then .pair
  else if r.path.bytes = asciiText "/api/v1/bandwidth" ∧ r.isPost then handleBandwidth w r
  else if r.path.bytes = asciiText "/api/v1/retx-tuning" ∧ r.isPost then handleRetxTuning w r
  else if r.path.bytes = asciiText "/api/v1/power" then handlePower cfg r
  else if r.path.bytes = asciiText "/api/v1/armed" then handleArmed w r
  else if r.path.bytes = asciiText "/api/v1/channel" then handleChannel cfg c r
  else if r.path.bytes = asciiText "/api/v1/link" then .reply (.document .link)
  else if r.path.bytes = asciiText "/api/v1/rf-temp" then .reply (.document .rfTemp)
  else if r.path.bytes = asciiText "/api/v1/batt" then .reply (.document .batt)
  else if r.path.bytes = asciiText "/api/v1/peers" then handlePeers cfg
  else if r.path.bytes = asciiText "/api/v1/peers/forget" ∧ r.isPost then handlePeersForget r
  else if r.path.bytes = asciiText "/api/v1/linkctl" then handleLinkctl r
  else .fail .noEndpoint

end Handlers

/-! ### The server -/

/-- What a call a handler waits for comes to. -/
structure CallResult where
  code : ℤ
  slot : ℤ
  output : List UInt8
  deriving DecidableEq, Repr

/-- The answer of `handle_peers_forget`. -/
def forgetReply (code : ℤ) : HttpReply :=
  if code = 0 then .forgotten
  else if code = -1 then .failed .badMac
  else if code = -2 then .failed .currentPeer
  else if code = -3 then .failed .unknownPeer
  else .failed .notGround

/-- The answer once the call is over. -/
def HttpStep.answer (o : CallResult) : HttpStep → HttpReply
  | .reply r => r
  | .post a => .queued a
  | .forget _ => forgetReply o.code
  | .pair => if o.code = 0 then .paired o.slot else .failed .pairFailed
  | .linkctl true _ => .document .status
  | .linkctl false _ => .linkctl o.code o.output

/-- The lifecycle thread's context, and the handler that is under way. -/
structure HttpServer where
  ctx : Ctx
  busy : Option HttpStep
  deriving DecidableEq, Repr

inductive HttpEvent where
  | thread (e : LcEvent)
  /-- A request is dispatched. -/
  | served (r : RequestLine)
  | answered (r : HttpReply)
  deriving DecidableEq

/-- The actions of the HTTP thread. -/
def LcAction.isRequest : LcAction → Bool
  | .tick _ => false
  | _ => true

/-- What the lifecycle thread does. -/
def HttpEvent.thread? : HttpEvent → Option LcEvent
  | .thread e => some e
  | _ => none

/-- A setting that is queued, as the client is told. -/
def HttpEvent.queued? : HttpEvent → Option LcAction
  | .answered (.queued a) => some a
  | _ => none

/-- The setting of a request is valid. -/
def LcAction.IsValid (cfg : LcConfig) : LcAction → Prop
  | .tick _ => True
  | .bandwidth mhz => mhz ∈ validMhz
  | .retx r => r.isValid = true
  | .channel chan => chan.isRequestable = true
  | .power level => lcPowerValid cfg.role cfg.maxPower level = true
  | .armed _ => True

/-- What a handler may write to a mailbox. -/
structure Postable (cfg : LcConfig) (c : Ctx) (a : LcAction) : Prop where
  request : a.isRequest = true
  valid : a.IsValid cfg
  channel : ∀ chan, a = .channel chan → acceptsChannel cfg chan c = true

/-- What `ar8030-linkctl` may be run with: a command it has, and words. -/
structure LinkctlArgv (argv : List (List UInt8)) : Prop where
  name : argv[0]? = some (asciiText "ar8030-linkctl")
  cmd : ∃ cmd ∈ linkctlCommands, argv[1]? = some cmd
  length_lt : argv.length < httpMaxArgv
  words : ∀ word ∈ argv, word ≠ [] ∧ ∀ b ∈ word, b ≠ 0 ∧ b ≠ 32 ∧ b ≠ 9

/-- What the handlers keep to: a `POST` alone writes to a mailbox, and only what is valid; no answer
says that something is queued that is not; and `ar8030-linkctl` is run with one of its commands. -/
structure HttpStep.Sound (cfg : LcConfig) (c : Ctx) (r : RequestLine) (step : HttpStep) :
    Prop where
  post : ∀ a, step = .post a → r.isPost = true ∧ Postable cfg c a
  reply : ∀ answer, step = .reply answer → ∀ a, answer ≠ .queued a
  linkctl : ∀ forStatus argv, step = .linkctl forStatus argv → LinkctlArgv argv

section Handlers

variable {cfg : LcConfig} {w : ℕ} {c : Ctx} {r : RequestLine} {a : LcAction}

/-- An answer at once. -/
theorem HttpStep.Sound.answer {answer : HttpReply} (h : ∀ a, answer ≠ .queued a) :
    (HttpStep.reply answer).Sound cfg c r where
  post _ heq := HttpStep.noConfusion heq
  reply _ heq := HttpStep.reply.inj heq ▸ h
  linkctl _ _ heq := HttpStep.noConfusion heq

theorem HttpStep.Sound.fail (e : HttpError) : (HttpStep.fail e).Sound cfg c r :=
  .answer fun _ => HttpReply.noConfusion

theorem HttpStep.Sound.document (d : HttpDocument) :
    (HttpStep.reply (.document d)).Sound cfg c r :=
  .answer fun _ => HttpReply.noConfusion

theorem HttpStep.Sound.posted (hpost : r.isPost = true) (h : Postable cfg c a) :
    (HttpStep.post a).Sound cfg c r where
  post _ heq := HttpStep.post.inj heq ▸ ⟨hpost, h⟩
  reply _ heq := HttpStep.noConfusion heq
  linkctl _ _ heq := HttpStep.noConfusion heq

/-- A call whose result the answer needs. -/
theorem HttpStep.Sound.call {step : HttpStep} (hpost : ∀ a, step ≠ .post a)
    (hreply : ∀ answer, step ≠ .reply answer)
    (hlinkctl : ∀ forStatus argv, step = .linkctl forStatus argv → LinkctlArgv argv) :
    step.Sound cfg c r where
  post a heq := absurd heq (hpost a)
  reply answer heq := absurd heq (hreply answer)
  linkctl := hlinkctl

theorem handleBandwidth_sound (hpost : r.isPost = true) :
    (handleBandwidth w r).Sound cfg c r := by
  rw [handleBandwidth]
  split
  · exact .fail _
  · split_ifs with hvalid
    · exact .posted hpost ⟨rfl, hvalid, fun _ => LcAction.noConfusion⟩
    · exact .fail _

theorem handleRetxTuning_sound (hpost : r.isPost = true) :
    (handleRetxTuning w r).Sound cfg c r := by
  rw [handleRetxTuning]
  split
  · split_ifs with hvalid
    · refine .posted hpost ⟨rfl, ?_, fun _ => LcAction.noConfusion⟩
      simp only [List.all_cons, List.all_nil, Bool.and_true, Bool.and_eq_true,
        decide_eq_true_eq] at hvalid
      rw [LcAction.IsValid, RetxCfg.isValid, decide_eq_true_eq]
      dsimp only
      omega
    · exact .fail _
  · exact .fail _

theorem requestChannel_sound (hpost : r.isPost = true) (chan : Channel) :
    (requestChannel cfg c chan).Sound cfg c r := by
  rw [requestChannel]
  split_ifs with hchan hlink
  · exact .fail _
  · exact .fail _
  · have hchan : chan.isRequestable = true := by simpa using hchan
    refine .posted hpost ⟨rfl, hchan, fun chan' heq => ?_⟩
    obtain rfl := LcAction.channel.inj heq
    rw [acceptsChannel, hchan, Bool.true_and]
    cases hrole : cfg.role with
    | ap => rfl
    | dev => simpa [hrole] using hlink

theorem handleChannel_sound : (handleChannel cfg c r).Sound cfg c r := by
  rw [handleChannel]
  split_ifs with hpost
  · split
    · exact .fail _
    · exact .fail _
    · exact requestChannel_sound hpost _
  · exact .document _

theorem handlePower_sound : (handlePower cfg r).Sound cfg c r := by
  rw [handlePower]
  split_ifs with hpost
  · split
    · exact .fail _
    · split_ifs with hvalid
      · exact .posted hpost ⟨rfl, hvalid, fun _ => LcAction.noConfusion⟩
      · exact .fail _
  · exact .document _

theorem handleArmed_sound : (handleArmed w r).Sound cfg c r := by
  rw [handleArmed]
  split_ifs with hpost
  · split
    · exact .posted hpost ⟨rfl, trivial, fun _ => LcAction.noConfusion⟩
    · exact .posted hpost ⟨rfl, trivial, fun _ => LcAction.noConfusion⟩
    · exact .fail _
  · exact .document _

theorem handlePeers_sound : (handlePeers cfg).Sound cfg c r := by
  rw [handlePeers]
  split_ifs
  · exact .fail _
  · exact .document _

theorem handlePeersForget_sound : (handlePeersForget r).Sound cfg c r := by
  rw [handlePeersForget]
  split_ifs
  · exact .fail _
  · split <;> exact .call (fun _ => HttpStep.noConfusion) (fun _ => HttpStep.noConfusion)
      fun _ _ h => HttpStep.noConfusion h

theorem of_mem_splitOnP {p : UInt8 → Bool} {l word : List UInt8} (h : word ∈ l.splitOnP p) :
    ∀ b ∈ word, b ∈ l ∧ p b = false := by
  induction l generalizing word with
  | nil =>
    rw [List.splitOnP_nil, List.mem_singleton] at h
    subst h
    exact List.forall_mem_nil _
  | cons x l ih =>
    obtain ⟨first, others, hl⟩ := List.exists_cons_of_ne_nil (List.splitOnP_ne_nil p l)
    have hrest : ∀ word' ∈ l.splitOnP p, ∀ b ∈ word', b ∈ x :: l ∧ p b = false :=
      fun word' hw b hb => ⟨List.mem_cons_of_mem _ (ih hw b hb).1, (ih hw b hb).2⟩
    rw [List.splitOnP_cons_eq_if_modifyHead] at h
    split_ifs at h with hx
    · rcases List.mem_cons.mp h with rfl | h
      · exact List.forall_mem_nil _
      · exact hrest word h
    · rw [hl, List.modifyHead_cons] at h
      rcases List.mem_cons.mp h with rfl | h
      · intro b hb
        rcases List.mem_cons.mp hb with rfl | hb
        · exact ⟨List.mem_cons_self, by simpa using hx⟩
        · exact hrest first (hl ▸ List.mem_cons_self) b hb
      · exact hrest word (hl ▸ List.mem_cons_of_mem _ h)

/-- The words between the blanks have none in them. -/
theorem of_mem_tokens {l word : List UInt8} (h : word ∈ tokens l) :
    word ≠ [] ∧ ∀ b ∈ word, b ∈ l ∧ b ≠ 32 ∧ b ≠ 9 := by
  obtain ⟨hmem, hne⟩ := List.mem_filter.mp h
  refine ⟨of_decide_eq_true hne, fun b hb => ?_⟩
  obtain ⟨hl, hblank⟩ := of_mem_splitOnP hmem b hb
  exact ⟨hl, not_or.mp (of_decide_eq_false hblank)⟩

theorem linkctl_words :
    ∀ word ∈ asciiText "ar8030-linkctl" :: linkctlCommands,
      word ≠ [] ∧ ∀ b ∈ word, b ≠ 0 ∧ b ≠ 32 ∧ b ≠ 9 := by
  decide +kernel

theorem linkctlArgv_cons {cmd : List UInt8} (hcmd : cmd ∈ linkctlCommands)
    {words : List (List UInt8)} (hlen : words.length ≤ httpMaxArgv - 1 - 2)
    (hwords : ∀ word ∈ words, word ≠ [] ∧ ∀ b ∈ word, b ≠ 0 ∧ b ≠ 32 ∧ b ≠ 9) :
    LinkctlArgv (asciiText "ar8030-linkctl" :: cmd :: words) where
  name := rfl
  cmd := ⟨cmd, hcmd, rfl⟩
  length_lt := by
    rw [List.length_cons, List.length_cons]
    rw [httpMaxArgv] at hlen ⊢
    omega
  words := List.forall_mem_cons.mpr ⟨linkctl_words _ List.mem_cons_self,
    List.forall_mem_cons.mpr ⟨linkctl_words _ (List.mem_cons_of_mem _ hcmd), hwords⟩⟩

theorem handleLinkctl_sound : (handleLinkctl r).Sound cfg c r := by
  rw [handleLinkctl]
  split
  · exact .fail _
  · split_ifs with hcmd
    · refine .call (fun _ => HttpStep.noConfusion) (fun _ => HttpStep.noConfusion)
        fun forStatus argv h => ?_
      obtain ⟨-, rfl⟩ := HttpStep.linkctl.inj h
      refine linkctlArgv_cons hcmd (List.length_take_le _ _) fun word hword => ?_
      obtain ⟨hne, hword⟩ := of_mem_tokens (List.take_subset _ _ hword)
      refine ⟨hne, fun b hb => ⟨?_, (hword b hb).2⟩⟩
      -- the arguments come from a string
      rintro rfl
      have h0 := (hword 0 hb).1
      cases hargs : r.param argsKey httpMaxQuery with
      | none => rw [hargs] at h0; cases h0
      | some args =>
        rw [hargs] at h0
        exact args.zero_notMem h0
    · exact .fail _

/-- **The handlers are sound.** -/
theorem dispatch_sound : (dispatch cfg w c r).Sound cfg c r := by
  have hstatus : LinkctlArgv [asciiText "ar8030-linkctl", asciiText "status"] :=
    linkctlArgv_cons List.mem_cons_self (Nat.zero_le _) (List.forall_mem_nil _)
  refine iteInduction (fun _ => .answer fun _ => HttpReply.noConfusion) fun _ => ?_
  refine iteInduction (fun _ => .call (fun _ => HttpStep.noConfusion)
    (fun _ => HttpStep.noConfusion) fun _ _ h => (HttpStep.linkctl.inj h).2 ▸ hstatus) fun _ => ?_
  refine iteInduction (fun _ => .call (fun _ => HttpStep.noConfusion)
    (fun _ => HttpStep.noConfusion) fun _ _ h => HttpStep.noConfusion h) fun _ => ?_
  refine iteInduction (fun h => handleBandwidth_sound h.2) fun _ => ?_
  refine iteInduction (fun h => handleRetxTuning_sound h.2) fun _ => ?_
  refine iteInduction (fun _ => handlePower_sound) fun _ => ?_
  refine iteInduction (fun _ => handleArmed_sound) fun _ => ?_
  refine iteInduction (fun _ => handleChannel_sound) fun _ => ?_
  refine iteInduction (fun _ => .document _) fun _ => ?_
  refine iteInduction (fun _ => .document _) fun _ => ?_
  refine iteInduction (fun _ => .document _) fun _ => ?_
  refine iteInduction (fun _ => handlePeers_sound) fun _ => ?_
  refine iteInduction (fun _ => handlePeersForget_sound) fun _ => ?_
  exact iteInduction (fun _ => handleLinkctl_sound) fun _ => .fail _

end Handlers

/-! ### What a client asks for -/

/-- The first value of a key. -/
def ClientRequest.value (q : ClientRequest) (k : Key) : Option (List UInt8) :=
  (q.params.find? fun p => p.key = k).map Pair.value

/-- A channel, or its name. -/
def channelText : Channel → List UInt8
  | .auto => autoText
  | .none => noneText
  | .index n => decimal n

/-- A power level, or its name. -/
def powerText : PowerLevel → List UInt8
  | .auto => autoText
  | .none => noneText
  | .mw n => decimal n

/-- A request for a setting. -/
inductive Asks (q : ClientRequest) : LcAction → Prop
  | bandwidth {mhz : ℤ} (hpath : q.path = asciiText "/api/v1/bandwidth")
      (hmhz : q.value mhzKey = some (decimal mhz)) : Asks q (.bandwidth mhz)
  | retx {t : RetxCfg} (hpath : q.path = asciiText "/api/v1/retx-tuning")
      (hwin : q.value winKey = some (decimal t.win))
      (hbusy : q.value busyKey = some (decimal t.busy))
      (hidle : q.value idleKey = some (decimal t.idle))
      (hcontiBusy : q.value contiBusyKey = some (decimal t.contiBusy))
      (hcontiIdle : q.value contiIdleKey = some (decimal t.contiIdle)) : Asks q (.retx t)
  | channel {chan : Channel} (hpath : q.path = asciiText "/api/v1/channel")
      (hchan : q.value chanKey = some (channelText chan)) : Asks q (.channel chan)
  | power {level : PowerLevel} (hpath : q.path = asciiText "/api/v1/power")
      (hlevel : q.value levelKey = some (powerText level)) : Asks q (.power level)
  | armed {armed : Bool} (hpath : q.path = asciiText "/api/v1/armed")
      (hstate : q.value stateKey = some (decimal (if armed then 1 else 0))) :
      Asks q (.armed armed)

/-- What the server has of the request. -/
structure ArrivesAs (q : ClientRequest) (r : RequestLine) : Prop where
  method : r.method.bytes = q.method
  path : r.path.bytes = q.path
  param : ∀ (k : Key) (size : ℕ), 0 < size →
    (r.param k size).map CStr.bytes =
      (q.params.find? fun p => p.key = k).map fun p => p.value.take (size - 1)

section Asked

variable {cfg : LcConfig} {w : ℕ} {c : Ctx} {q : ClientRequest} {r : RequestLine}

theorem ArrivesAs.exists_param (h : ArrivesAs q r) {k : Key} {v : List UInt8}
    (hv : q.value k = some v) {size : ℕ} (hsize : v.length < size) :
    ∃ s, r.param k size = some s ∧ s.bytes = v := by
  obtain ⟨p, hp, rfl⟩ := Option.map_eq_some_iff.mp hv
  have hparam := h.param k size (Nat.zero_lt_of_lt hsize)
  rw [hp, Option.map_some, List.take_of_length_le (Nat.le_sub_one_of_lt hsize)] at hparam
  exact Option.map_eq_some_iff.mp hparam

theorem length_decimal_lt {z : ℤ} (hlo : -2 ^ 31 ≤ z) (hhi : z < 2 ^ 31) :
    (decimal z).length < 32 := by
  have hdigits : (natural z.natAbs).length ≤ 10 := length_natural_le (by omega) (by decide)
  rw [decimal, List.length_append]
  split_ifs <;> simp only [List.length_cons, List.length_nil] <;> omega

/-- A number is received as it was sent. -/
theorem ArrivesAs.paramInt (h : ArrivesAs q r) (hw : 32 ≤ w) {k : Key} {z : ℤ} (hlo : -2 ^ 31 ≤ z)
    (hhi : z < 2 ^ 31) (hv : q.value k = some (decimal z)) : r.paramInt w k = some z := by
  obtain ⟨s, hs, hbytes⟩ := h.exists_param hv (length_decimal_lt hlo hhi)
  have hpow : (2 : ℤ) ^ 31 ≤ 2 ^ (w - 1) := pow_le_pow_right₀ (by decide) (by omega)
  rw [RequestLine.paramInt, hs, Option.bind_some, hbytes, scanDecimal_decimal_nil, Option.map_some,
    clampLong_of_lt (by omega) (by omega), toInt_of_lt hlo hhi]

theorem ArrivesAs.paramNat (h : ArrivesAs q r) (hw : 32 ≤ w) {k : Key} {n : ℕ} (hn : n < 2 ^ 31)
    (hv : q.value k = some (decimal n)) : r.paramInt w k = some (n : ℤ) :=
  h.paramInt hw (by omega) (by omega) hv

/-! The way of each setting through `dispatch`. -/

theorem dispatch_bandwidth (hpath : r.path.bytes = asciiText "/api/v1/bandwidth")
    (hpost : r.isPost = true) : dispatch cfg w c r = handleBandwidth w r := by
  have hpair : asciiText "/api/v1/bandwidth" ≠ asciiText "/api/v1/pair" := by decide
  rw [dispatch, hpath, if_neg (by decide), if_neg (by decide), if_neg fun h => hpair h.1,
    if_pos ⟨rfl, hpost⟩]

theorem dispatch_retxTuning (hpath : r.path.bytes = asciiText "/api/v1/retx-tuning")
    (hpost : r.isPost = true) : dispatch cfg w c r = handleRetxTuning w r := by
  have hpair : asciiText "/api/v1/retx-tuning" ≠ asciiText "/api/v1/pair" := by decide
  have hbandwidth : asciiText "/api/v1/retx-tuning" ≠ asciiText "/api/v1/bandwidth" := by decide
  rw [dispatch, hpath, if_neg (by decide), if_neg (by decide), if_neg fun h => hpair h.1,
    if_neg fun h => hbandwidth h.1, if_pos ⟨rfl, hpost⟩]

/-- Behind the paths that are compared first. -/
theorem exists_dispatch_eq {path : List UInt8} (hpath : r.path.bytes = path)
    (hpage : path ≠ asciiText "/") (hstatus : path ≠ asciiText "/api/v1/status")
    (hpair : path ≠ asciiText "/api/v1/pair") (hbandwidth : path ≠ asciiText "/api/v1/bandwidth")
    (hretx : path ≠ asciiText "/api/v1/retx-tuning") :
    ∃ rest, dispatch cfg w c r =
      if path = asciiText "/api/v1/power" then handlePower cfg r
      else if path = asciiText "/api/v1/armed" then handleArmed w r
      else if path = asciiText "/api/v1/channel" then handleChannel cfg c r
      else rest := by
  rw [dispatch, hpath, if_neg hpage, if_neg hstatus, if_neg fun h => hpair h.1,
    if_neg fun h => hbandwidth h.1, if_neg fun h => hretx h.1]
  exact ⟨_, rfl⟩

theorem dispatch_power (hpath : r.path.bytes = asciiText "/api/v1/power") :
    dispatch cfg w c r = handlePower cfg r := by
  obtain ⟨_, h⟩ := exists_dispatch_eq hpath (by decide) (by decide) (by decide) (by decide)
    (by decide)
  exact h.trans (if_pos rfl)

theorem dispatch_armed (hpath : r.path.bytes = asciiText "/api/v1/armed") :
    dispatch cfg w c r = handleArmed w r := by
  obtain ⟨_, h⟩ := exists_dispatch_eq hpath (by decide) (by decide) (by decide) (by decide)
    (by decide)
  rw [h, if_neg (by decide), if_pos rfl]

theorem dispatch_channel (hpath : r.path.bytes = asciiText "/api/v1/channel") :
    dispatch cfg w c r = handleChannel cfg c r := by
  obtain ⟨_, h⟩ := exists_dispatch_eq hpath (by decide) (by decide) (by decide) (by decide)
    (by decide)
  rw [h, if_neg (by decide), if_neg (by decide), if_pos rfl]

theorem lcChannelParse_channelText {chan : Channel} (h : chan.isRequestable = true) :
    (channelText chan).length < 16 ∧ lcChannelParse (channelText chan) = some chan := by
  cases chan with
  | auto => exact ⟨by decide, rfl⟩
  | none => exact absurd h Bool.false_ne_true
  | index n =>
    have hn : n < maxChanNum := of_decide_eq_true h
    have hlen : (channelText (.index n)).length ≤ 2 :=
      length_decimal_natCast_le (hn.trans (by decide)) (by decide)
    exact ⟨lt_of_le_of_lt hlen (by decide), lcChannelParse_decimal hn⟩

theorem lcPowerParse_powerText {level : PowerLevel} (h : level.isStorable = true) :
    (powerText level).length < 16 ∧ lcPowerParse (powerText level) = some level := by
  cases level with
  | auto => exact ⟨by decide, rfl⟩
  | none => exact absurd h Bool.false_ne_true
  | mw n =>
    obtain ⟨hpos, hle⟩ := of_decide_eq_true h
    have hlen : (powerText (.mw n)).length ≤ 5 :=
      length_decimal_natCast_le (lt_of_le_of_lt hle (by decide)) (by decide)
    exact ⟨lt_of_le_of_lt hlen (by decide), lcPowerParse_decimal hpos hle⟩

/-- **A valid setting that is asked for is posted.** -/
theorem ArrivesAs.dispatch_eq_post (h : ArrivesAs q r) (hw : 32 ≤ w)
    (hmethod : q.method = asciiText "POST") {a : LcAction} (hasks : Asks q a)
    (hpostable : Postable cfg c a) : dispatch cfg w c r = .post a := by
  have hpost : r.isPost = true := by rw [RequestLine.isPost, h.method, hmethod, decide_eq_true rfl]
  cases hasks with
  | @bandwidth mhz hpath hmhz =>
    have hrange : ∀ z ∈ validMhz, -2 ^ 31 ≤ z ∧ z < 2 ^ 31 := by decide
    have hvalid : mhz ∈ validMhz := hpostable.valid
    rw [dispatch_bandwidth (h.path.trans hpath) hpost, handleBandwidth,
      h.paramInt hw (hrange mhz hvalid).1 (hrange mhz hvalid).2 hmhz]
    exact if_pos hvalid
  | @retx t hpath hwin hbusy hidle hcontiBusy hcontiIdle =>
    have hvalid : t.win ≤ 255 ∧ t.busy ≤ 255 ∧ t.idle ≤ 255 ∧ t.contiBusy ≤ 255 ∧
        t.contiIdle ≤ 255 := of_decide_eq_true hpostable.valid
    rw [dispatch_retxTuning (h.path.trans hpath) hpost, handleRetxTuning,
      h.paramNat hw (by omega) hwin, h.paramNat hw (by omega) hbusy,
      h.paramNat hw (by omega) hidle, h.paramNat hw (by omega) hcontiBusy,
      h.paramNat hw (by omega) hcontiIdle]
    refine if_pos ?_
    simp only [List.all_cons, List.all_nil, Bool.and_true, Bool.and_eq_true, decide_eq_true_eq]
    omega
  | @channel chan hpath hchan =>
    obtain ⟨hlen, hparse⟩ := lcChannelParse_channelText hpostable.valid
    obtain ⟨s, hs, hbytes⟩ := h.exists_param hchan hlen
    have hvalid : chan.isRequestable = true := hpostable.valid
    have haccepts := hpostable.channel chan rfl
    have hlinked : ¬(cfg.role = .dev ∧ c.state ≠ .connected) := by
      rintro ⟨hrole, hstate⟩
      simp [acceptsChannel, hrole, hstate] at haccepts
    rw [dispatch_channel (h.path.trans hpath), handleChannel, if_pos hpost, hs, Option.bind_some,
      hbytes, hparse]
    have hrequest : requestChannel cfg c chan = .post (.channel chan) := by
      rw [requestChannel, if_neg (by simp [hvalid]), if_neg hlinked]
    cases chan with
    | none => exact absurd hvalid Bool.false_ne_true
    | auto => exact hrequest
    | index n => exact hrequest
  | @power level hpath hlevel =>
    have hvalid : lcPowerValid cfg.role cfg.maxPower level = true := hpostable.valid
    obtain ⟨hlen, hparse⟩ := lcPowerParse_powerText (isStorable_of_lcPowerValid hvalid)
    obtain ⟨s, hs, hbytes⟩ := h.exists_param hlevel hlen
    rw [dispatch_power (h.path.trans hpath), handlePower, if_pos hpost, hs, Option.bind_some,
      hbytes, hparse]
    exact if_pos hvalid
  | @armed armed hpath hstate =>
    have hstate' : r.paramInt w stateKey = some (if armed then 1 else 0) := by
      refine h.paramInt hw ?_ ?_ hstate <;> split_ifs <;> decide
    rw [dispatch_armed (h.path.trans hpath), handleArmed, if_pos hpost, hstate']
    cases armed <;> rfl

end Asked

/-- **Valid settings, and only those, reach the mailboxes.** Whatever a request is made of, what it
posts is valid and the method is `POST`; and a valid setting that a client asks for is posted,
however the bytes of its request are split. On the DEV a channel needs the link. -/
theorem setting_posted (cfg : LcConfig) (w : ℕ) (c : Ctx) :
    (∀ (r : RequestLine) (a : LcAction), dispatch cfg w c r = .post a →
      r.isPost = true ∧ Postable cfg c a) ∧
    (32 ≤ w → ∀ (q : ClientRequest) (a : LcAction) (rest : List UInt8) (reads : List HttpRead),
      q.method = asciiText "POST" → Asks q a → Postable cfg c a →
      q.text.length < httpMaxReq → q.text.length ≤ delivered reads →
      ∃ r, readRequestLine reads (q.text ++ rest) = some r ∧ dispatch cfg w c r = .post a) := by
  refine ⟨fun r a h => dispatch_sound.post a h, fun hw q a rest reads hmethod hasks hpostable hlen
    hreads => ?_⟩
  obtain ⟨r, hread, hrmethod, hrpath, hparam⟩ := q.received rest hlen hreads
  exact ⟨r, hread, ArrivesAs.dispatch_eq_post ⟨hrmethod, hrpath, hparam⟩ hw hmethod hasks hpostable⟩

/-- `POST /api/v1/channel?chan=auto`. -/
def autoRequest : ClientRequest where
  method := asciiText "POST"
  path := asciiText "/api/v1/channel"
  params := [⟨chanKey, autoText, by decide⟩]
  query := asciiText "chan=auto"
  version := asciiText "HTTP/1.1"
  method_word := by decide
  method_lt := by decide
  path_word := by decide
  path_mark := by decide
  path_lt := by decide
  query_text := .last (v := autoText) (.cons (.self (by decide) (by decide) (by decide))
    (.cons (.self (by decide) (by decide) (by decide))
      (.cons (.self (by decide) (by decide) (by decide))
        (.cons (.self (by decide) (by decide) (by decide)) .nil))))
  query_word := by decide
  query_lt := by decide
  version_line := by decide

theorem setting_posted_auto :
    let c := lifecycleInit (plainCfg .ap) ⟨none, none⟩ []
    ∃ r, readRequestLine [.arrived 20, .interrupted, .arrived 20] (autoRequest.text ++ [13, 10]) =
      some r ∧ dispatch (plainCfg .ap) 32 c r = .post (.channel .auto) := by
  intro c
  exact (setting_posted (plainCfg .ap) 32 c).2 le_rfl autoRequest (.channel .auto) [13, 10] _ rfl
    (.channel rfl rfl) ⟨rfl, rfl, fun chan h => by cases h; rfl⟩ (by decide) (by decide)

/-! ### The arguments of `ar8030-linkctl` -/

/-- A word between blanks. -/
def IsArgument (word : List UInt8) : Prop := word ≠ [] ∧ ∀ b ∈ word, b ≠ 32 ∧ b ≠ 9

instance (word : List UInt8) : Decidable (IsArgument word) :=
  haveI : Decidable (∀ b ∈ word, b ≠ 32 ∧ b ≠ 9) := List.decidableBAll _ word
  inferInstanceAs (Decidable (word ≠ [] ∧ ∀ b ∈ word, b ≠ 32 ∧ b ≠ 9))

/-- Words are found as they were joined. -/
theorem tokens_intercalate {words : List (List UInt8)} (h : ∀ word ∈ words, IsArgument word) :
    tokens ([32].intercalate words) = words := by
  have hfree : ∀ word ∈ words, ∀ b ∈ word, decide (b = 32 ∨ b = 9) = false := fun word hw b hb =>
    decide_eq_false (not_or.mpr ((h word hw).2 b hb))
  induction words with
  | nil => rfl
  | cons word words ih =>
    have hkeep : decide (word ≠ []) = true := decide_eq_true (h word List.mem_cons_self).1
    cases words with
    | nil =>
      rw [List.intercalate_singleton, tokens,
        List.splitOnP_eq_singleton (hfree word List.mem_cons_self), List.filter_singleton, hkeep]
      rfl
    | cons next words =>
      have hrest := ih (fun word' hw => h word' (List.mem_cons_of_mem _ hw))
        fun word' hw => hfree word' (List.mem_cons_of_mem _ hw)
      rw [List.intercalate_cons_cons, List.append_assoc, List.singleton_append, tokens,
        List.splitOnP_append_cons_of_forall_mem (hfree word List.mem_cons_self) 32 (by decide),
        List.filter_cons, if_pos hkeep]
      exact congrArg (word :: ·) hrest

/-- A value is no longer than the query it stands in. -/
theorem length_value_le {ps : List Pair} {l : List UInt8} (h : QueryText ps l) :
    ∀ p ∈ ps, p.value.length ≤ l.length := by
  have hvalue : ∀ {bs l : List UInt8}, ValueText bs l → bs.length ≤ l.length := by
    intro bs l hv
    induction hv with
    | nil => exact le_rfl
    | cons hb _ ih =>
      rw [List.length_cons, List.length_append]
      cases hb <;> simp only [List.length_cons, List.length_nil] <;> omega
  induction h with
  | nil => exact List.forall_mem_nil _
  | amp _ ih => exact fun p hp => (ih p hp).trans (Nat.le_succ _)
  | last hv =>
    refine List.forall_mem_singleton.mpr ((hvalue hv).trans ?_)
    simp only [List.length_append, List.length_cons]
    omega
  | cons hv _ ih =>
    refine List.forall_mem_cons.mpr ⟨(hvalue hv).trans ?_, fun p hp => (ih p hp).trans ?_⟩ <;>
      simp only [List.length_append, List.length_cons] <;> omega

theorem ClientRequest.length_value_lt {q : ClientRequest} {k : Key} {v : List UInt8}
    (h : q.value k = some v) : v.length < httpMaxQuery := by
  obtain ⟨p, hp, rfl⟩ := Option.map_eq_some_iff.mp h
  exact lt_of_le_of_lt (length_value_le q.query_text p (List.mem_of_find?_eq_some hp)) q.query_lt

theorem dispatch_linkctl {cfg : LcConfig} {w : ℕ} {c : Ctx} {r : RequestLine}
    (hpath : r.path.bytes = asciiText "/api/v1/linkctl") :
    dispatch cfg w c r = handleLinkctl r := by
  have hpair : asciiText "/api/v1/linkctl" ≠ asciiText "/api/v1/pair" := by decide
  have hbandwidth : asciiText "/api/v1/linkctl" ≠ asciiText "/api/v1/bandwidth" := by decide
  have hretx : asciiText "/api/v1/linkctl" ≠ asciiText "/api/v1/retx-tuning" := by decide
  have hforget : asciiText "/api/v1/linkctl" ≠ asciiText "/api/v1/peers/forget" := by decide
  rw [dispatch, hpath, if_neg (by decide), if_neg (by decide), if_neg fun h => hpair h.1,
    if_neg fun h => hbandwidth h.1, if_neg fun h => hretx h.1, if_neg (by decide),
    if_neg (by decide), if_neg (by decide), if_neg (by decide), if_neg (by decide),
    if_neg (by decide), if_neg (by decide), if_neg fun h => hforget h.1, if_pos rfl]

/-- **The arguments of `ar8030-linkctl`.** Whatever a request is made of, the tool is run under its
name with one of its commands and words without a blank, and with less than `HTTP_MAX_ARGV` of
them; and a client that joins words with blanks has them passed on as they are. -/
theorem linkctl_argv (cfg : LcConfig) (w : ℕ) (c : Ctx) :
    (∀ (r : RequestLine) (forStatus : Bool) (argv : List (List UInt8)),
      dispatch cfg w c r = .linkctl forStatus argv → LinkctlArgv argv) ∧
    ∀ (q : ClientRequest) (cmd : List UInt8) (words : List (List UInt8)) (rest : List UInt8)
      (reads : List HttpRead), q.path = asciiText "/api/v1/linkctl" →
      q.value cmdKey = some cmd → cmd ∈ linkctlCommands →
      q.value argsKey = some ([32].intercalate words) → (∀ word ∈ words, IsArgument word) →
      words.length + 2 < httpMaxArgv → q.text.length < httpMaxReq →
      q.text.length ≤ delivered reads →
      ∃ r, readRequestLine reads (q.text ++ rest) = some r ∧
        dispatch cfg w c r = .linkctl false (asciiText "ar8030-linkctl" :: cmd :: words) := by
  refine ⟨fun r forStatus argv h => dispatch_sound.linkctl forStatus argv h, ?_⟩
  intro q cmd words rest reads hpath hcmd hmem hargs hwords hcount hlen hreads
  obtain ⟨r, hread, hrmethod, hrpath, hparam⟩ := q.received rest hlen hreads
  have harrives : ArrivesAs q r := ⟨hrmethod, hrpath, hparam⟩
  have hshort : ∀ cmd ∈ linkctlCommands, cmd.length < 32 := by decide
  obtain ⟨s, hs, rfl⟩ := harrives.exists_param hcmd (hshort cmd hmem)
  obtain ⟨t, ht, htbytes⟩ := harrives.exists_param hargs (ClientRequest.length_value_lt hargs)
  refine ⟨r, hread, ?_⟩
  rw [dispatch_linkctl (hrpath.trans hpath), handleLinkctl, hs]
  dsimp only
  rw [if_pos hmem, ht, Option.map_some, Option.getD_some, htbytes, tokens_intercalate hwords,
    List.take_of_length_le (by omega)]

/-- `GET /api/v1/linkctl?cmd=mcs&args=12+-s`. -/
def mcsRequest : ClientRequest where
  method := asciiText "GET"
  path := asciiText "/api/v1/linkctl"
  params := [⟨cmdKey, asciiText "mcs", by decide⟩, ⟨argsKey, asciiText "12 -s", by decide⟩]
  query := asciiText "cmd=mcs&args=12+-s"
  version := asciiText "HTTP/1.1"
  method_word := by decide
  method_lt := by decide
  path_word := by decide
  path_mark := by decide
  path_lt := by decide
  query_text := .cons (v := asciiText "mcs") (l := asciiText "args=12+-s")
    (.cons (.self (by decide) (by decide) (by decide))
      (.cons (.self (by decide) (by decide) (by decide))
        (.cons (.self (by decide) (by decide) (by decide)) .nil)))
    (.last (v := asciiText "12+-s") (.cons (.self (by decide) (by decide) (by decide))
      (.cons (.self (by decide) (by decide) (by decide))
        (.cons .space (.cons (.self (by decide) (by decide) (by decide))
          (.cons (.self (by decide) (by decide) (by decide)) .nil))))))
  query_word := by decide
  query_lt := by decide
  version_line := by decide

theorem linkctl_argv_mcs :
    let c := lifecycleInit (plainCfg .dev) ⟨none, none⟩ []
    ∃ r, readRequestLine [.arrived 99] (mcsRequest.text ++ [13, 10]) = some r ∧
      dispatch (plainCfg .dev) 32 c r =
        .linkctl false [asciiText "ar8030-linkctl", asciiText "mcs", asciiText "12",
          asciiText "-s"] := by
  intro c
  exact (linkctl_argv (plainCfg .dev) 32 c).2 mcsRequest (asciiText "mcs")
    [asciiText "12", asciiText "-s"] [13, 10] _ rfl rfl (by decide) rfl
    (by decide) (by decide) (by decide) (by decide)

/-! ### Runs -/

section Runs

variable {cfg : LcConfig} {w : ℕ} {saved : Saved} {table : List UInt32}

/-- A handler that is under way has not answered yet, and what it is about to post is valid. -/
structure PostsValid (cfg : LcConfig) (busy : Option HttpStep) : Prop where
  post : ∀ a, busy = some (.post a) → a.isRequest = true ∧ a.IsValid cfg
  reply : ∀ answer, busy ≠ some (.reply answer)

theorem PostsValid.idle : PostsValid cfg none :=
  ⟨fun _ h => Option.some_ne_none _ h.symm |>.elim, fun _ h => Option.some_ne_none _ h.symm⟩

/-- One action, as the lifecycle thread and its mailboxes see it. -/
structure Refines (cfg : LcConfig) (s : HttpServer) (as ticks : List LcAction) (s' : HttpServer)
    (events : List HttpEvent) : Prop where
  run : Mealy.run (lcStep cfg) s.ctx as = (s'.ctx, events.filterMap HttpEvent.thread?)
  valid : ∀ a ∈ as, a.IsValid cfg
  queued : as.filter LcAction.isRequest = events.filterMap HttpEvent.queued?
  ticks : as.filter (fun a => !a.isRequest) = ticks
  posts : PostsValid cfg s'.busy

theorem Refines.append {s s' s'' : HttpServer} {as as' ticks ticks' : List LcAction}
    {events events' : List HttpEvent} (h : Refines cfg s as ticks s' events)
    (h' : Refines cfg s' as' ticks' s'' events') :
    Refines cfg s (as ++ as') (ticks ++ ticks') s'' (events ++ events') where
  run := by rw [Mealy.run_append, h.run, h'.run, List.filterMap_append]
  valid := List.forall_mem_append.mpr ⟨h.valid, h'.valid⟩
  queued := by rw [List.filter_append, List.filterMap_append, h.queued, h'.queued]
  ticks := by rw [List.filter_append, h.ticks, h'.ticks]
  posts := h'.posts

/-- Nothing happens to the context. -/
theorem Refines.rest {s : HttpServer} {busy : Option HttpStep} {events : List HttpEvent}
    (hthread : events.filterMap HttpEvent.thread? = [])
    (hqueued : events.filterMap HttpEvent.queued? = [])
    (hposts : PostsValid cfg busy) :
    Refines cfg s [] [] { s with busy := busy } events where
  run := by rw [hthread]; rfl
  valid := List.forall_mem_nil _
  queued := hqueued.symm
  ticks := rfl
  posts := hposts

end Runs

end Ar8030

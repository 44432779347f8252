import Ar8030Transport.Lifecycled.PeersFile

/-!
# The order of the remembered air units

`ar8030.peers` over whole runs of pairings and forget requests, all writes succeeding. A pairing
writes `ap_mac`, and the next connect records it; a MAC that is in the list already is left
where it is. So the list goes by when a MAC last entered it: `PeersHistory.entered` keeps
account of that from outside.
-/

namespace Ar8030

/-! ### Runs -/

inductive PeersOp where
  /-- A pairing writes `ap_mac`. -/
  | bind (mac : BbMac)
  /-- `lc_peers_note_ap_mac`, on a connect. -/
  | connect
  /-- `lc_drain_forget_request` with this request in the mailbox. -/
  | forget (req : ForgetRequest)
  deriving DecidableEq, Repr

/-- One operation. A forget request is taken from the mailbox and then applied. -/
def peersOp (s : PeersState) : PeersOp → PeersState × List PeersEvent
  | .bind mac => ({ s with apMac := some mac }, [])
  | .connect => noteApMac true s
  | .forget req =>
    let taken := drainForgetRequest true { s with pending := some req }
    let applied := drainForgetRequest true taken.1
    (applied.1, taken.2 ++ applied.2)

/-- A run so far, with the number of the operation at which each MAC last entered the list. -/
structure PeersHistory where
  state : PeersState
  events : List PeersEvent
  count : ℕ
  entered : BbMac → ℕ

def PeersHistory.next (h : PeersHistory) (op : PeersOp) : PeersHistory where
  state := (peersOp h.state op).1
  events := h.events ++ (peersOp h.state op).2
  count := h.count + 1
  entered mac :=
    if mac ∉ h.state.peers ∧ mac ∈ (peersOp h.state op).1.peers then h.count + 1
    else h.entered mac

/-- A run from an empty list. -/
def peersHistory (apMac : Option BbMac) (ops : List PeersOp) : PeersHistory :=
  ops.foldl .next ⟨⟨apMac, [], none, [], none⟩, [], 0, fun _ => 0⟩

/-- The candidates the chip was given last. -/
def lastPushed (events : List PeersEvent) : Option (List BbMac) :=
  events.reverse.findSome? fun
    | .pushed candidates => some candidates
    | _ => none

/-! ### What the list is -/

/-- What an operation does to the list and to the chip. -/
def OpEffect (h : PeersHistory) : PeersOp → Prop
  | .bind mac => (h.next (.bind mac)).state.peers = h.state.peers
  | .connect =>
    ∀ ap, h.state.apMac = some ap →
      if ap ∈ h.state.peers then (h.next .connect).state.peers = h.state.peers
      else ∀ x, x ∈ (h.next .connect).state.peers ↔ x = ap ∨ x ∈ h.state.peers ∧
        (h.state.peers.length = bbConfigMaxSlotCandidate →
          ∃ y ∈ h.state.peers, h.entered y < h.entered x)
  | .forget req =>
    (∀ x, x ∈ (h.next (.forget req)).state.peers ↔
      x ∈ h.state.peers ∧ (req.names x = true → h.state.apMac = some x)) ∧
    ∀ x ∈ h.state.peers, x ∉ (h.next (.forget req)).state.peers →
      ∃ candidates, lastPushed (h.next (.forget req)).events = some candidates ∧ x ∉ candidates

/-- The list is in order, and as `peers_save` has to have it. -/
structure PeersOrdered (h : PeersHistory) : Prop where
  idle : h.state.draining = none
  nodup : h.state.peers.Nodup
  length_le : h.state.peers.length ≤ bbConfigMaxSlotCandidate
  ordered : h.state.peers.Pairwise fun x y => h.entered y < h.entered x
  entered_le : ∀ mac, h.entered mac ≤ h.count
  bound : h.state.peers ≠ [] → ∃ ap, h.state.apMac = some ap

section Steps

variable {h : PeersHistory}

theorem PeersOrdered.load_eq (hh : PeersOrdered h) :
    lcPeersLoad bbConfigMaxSlotCandidate h.state.peers = h.state.peers :=
  addMacs_eq_append hh.nodup hh.length_le

theorem entered_next_le (hle : ∀ mac, h.entered mac ≤ h.count) {op : PeersOp} (mac : BbMac) :
    (h.next op).entered mac ≤ (h.next op).count := by
  show ite _ _ _ ≤ h.count + 1
  split_ifs
  · exact le_rfl
  · exact (hle mac).trans (Nat.le_succ _)

theorem entered_next_of_mem {x : BbMac} (hx : x ∈ h.state.peers) {op : PeersOp} :
    (h.next op).entered x = h.entered x :=
  if_neg fun hnew => hnew.1 hx

/-- An operation that only drops entries keeps the list in order. -/
theorem PeersOrdered.sublist (hh : PeersOrdered h) {op : PeersOp}
    (hidle : (h.next op).state.draining = none)
    (hsub : (h.next op).state.peers.Sublist h.state.peers)
    (hbound : (h.next op).state.apMac.isSome ∨ (h.next op).state.apMac = h.state.apMac) :
    PeersOrdered (h.next op) := by
  constructor
  · exact hidle
  · exact hh.nodup.sublist hsub
  · exact hsub.length_le.trans hh.length_le
  · refine (hh.ordered.sublist hsub).imp_of_mem fun {x y} hx hy hlt => ?_
    rwa [entered_next_of_mem (hsub.subset hx), entered_next_of_mem (hsub.subset hy)]
  · exact entered_next_le hh.entered_le
  · intro hne
    rcases hbound with hsome | heq
    · exact Option.isSome_iff_exists.mp hsome
    · rw [heq]
      refine hh.bound fun hnil => hne ?_
      exact List.eq_nil_of_sublist_nil (hnil ▸ hsub)

/-! ### A connect -/

/-- The list after a connect. -/
def recorded (peers : List BbMac) (ap : BbMac) : List BbMac :=
  if ap ∈ peers then peers
  else ap :: if peers.length = bbConfigMaxSlotCandidate then peers.dropLast else peers

theorem noteApMac_state {s : PeersState} {ap : BbMac} (hidle : s.draining = none)
    (hap : s.apMac = some ap) (hload : lcPeersLoad bbConfigMaxSlotCandidate s.peers = s.peers) :
    (noteApMac true s).1 = { s with peers := recorded s.peers ap } := by
  obtain ⟨apMac, peers, pending, calls, draining⟩ := s
  obtain rfl : apMac = some ap := hap
  obtain rfl : draining = none := hidle
  have hload' : lcPeersLoad bbConfigMaxSlotCandidate peers = peers := hload
  rw [noteApMac, lcPeersNoteApMac]
  dsimp only
  rw [hload', recorded, if_pos rfl]
  split_ifs <;> rfl

theorem PeersOrdered.connect_state (hh : PeersOrdered h) {ap : BbMac}
    (hap : h.state.apMac = some ap) :
    (h.next .connect).state = { h.state with peers := recorded h.state.peers ap } :=
  noteApMac_state hh.idle hap hh.load_eq

/-- Without an `ap_mac` nothing is recorded. -/
theorem PeersOrdered.connect_none (hap : h.state.apMac = none) :
    (h.next .connect).state = h.state := by
  show (noteApMac true h.state).1 = _
  rw [noteApMac, hap]
  split
  · next hsome => exact absurd hsome nofun
  · rfl

/-- The last of a list in order entered it first. -/
theorem PeersOrdered.mem_dropLast_iff (hh : PeersOrdered h) {x : BbMac} :
    x ∈ h.state.peers.dropLast ↔
      x ∈ h.state.peers ∧ ∃ y ∈ h.state.peers, h.entered y < h.entered x := by
  have hordered := hh.ordered
  rcases List.eq_nil_or_concat h.state.peers with hnil | ⟨init, last, hconcat⟩
  · rw [hnil]
    simp
  · rw [List.concat_eq_append] at hconcat
    rw [hconcat] at hordered ⊢
    obtain ⟨-, -, hlast⟩ := List.pairwise_append.mp hordered
    rw [List.dropLast_concat]
    constructor
    · intro hx
      exact ⟨List.mem_append_left _ hx, last, by simp, hlast x hx last (by simp)⟩
    · rintro ⟨hx, y, hy, hlt⟩
      rcases List.mem_append.mp hx with hx | hx
      · exact hx
      · obtain rfl := List.mem_singleton.mp hx
        rcases List.mem_append.mp hy with hy | hy
        · exact absurd (hlast y hy x (by simp)) (Nat.lt_asymm hlt)
        · obtain rfl := List.mem_singleton.mp hy
          exact absurd hlt (lt_irrefl _)

/-- A connect with a known `ap_mac` leaves the list alone. -/
theorem PeersOrdered.connect_known (hh : PeersOrdered h) {ap : BbMac}
    (hap : h.state.apMac = some ap) (hmem : ap ∈ h.state.peers) :
    PeersOrdered (h.next .connect) ∧ (h.next .connect).state.peers = h.state.peers := by
  have hstate := hh.connect_state hap
  have hpeers : (h.next .connect).state.peers = h.state.peers := by
    rw [hstate]
    exact if_pos hmem
  refine ⟨hh.sublist ?_ ?_ ?_, hpeers⟩
  · rw [hstate]
    exact hh.idle
  · rw [hpeers]
  · rw [hstate]
    exact .inr rfl

/-- A new MAC goes in front, and the entry that came first falls off a full list. -/
theorem PeersOrdered.recorded_eq_cons (hh : PeersOrdered h) {ap : BbMac}
    (hmem : ap ∉ h.state.peers) :
    ∃ rest, recorded h.state.peers ap = ap :: rest ∧ rest.Sublist h.state.peers ∧
      rest.length < bbConfigMaxSlotCandidate ∧
      ∀ x, x ∈ rest ↔ x ∈ h.state.peers ∧
        (h.state.peers.length = bbConfigMaxSlotCandidate →
          ∃ y ∈ h.state.peers, h.entered y < h.entered x) := by
  have hle := hh.length_le
  rw [recorded, if_neg hmem]
  split_ifs with hfull
  · refine ⟨_, rfl, List.dropLast_sublist _, ?_, fun x => ?_⟩
    · rw [List.length_dropLast, hfull]
      decide
    · rw [hh.mem_dropLast_iff]
      exact ⟨fun hx => ⟨hx.1, fun _ => hx.2⟩, fun hx => ⟨hx.1, hx.2 hfull⟩⟩
  · refine ⟨_, rfl, List.Sublist.refl _, lt_of_le_of_ne hle hfull, fun x => ?_⟩
    exact ⟨fun hx => ⟨hx, fun h0 => absurd h0 hfull⟩, fun hx => hx.1⟩

/-- A connect with a new `ap_mac` puts it in front, and keeps the list in order. -/
theorem PeersOrdered.connect_new (hh : PeersOrdered h) {ap : BbMac}
    (hap : h.state.apMac = some ap) (hmem : ap ∉ h.state.peers) :
    PeersOrdered (h.next .connect) ∧
      ∀ x, x ∈ (h.next .connect).state.peers ↔ x = ap ∨ x ∈ h.state.peers ∧
        (h.state.peers.length = bbConfigMaxSlotCandidate →
          ∃ y ∈ h.state.peers, h.entered y < h.entered x) := by
  obtain ⟨rest, hrest, hsub, hlen, hiff⟩ := hh.recorded_eq_cons hmem
  have hstate := hh.connect_state hap
  rw [hrest] at hstate
  have hpeers : (h.next .connect).state.peers = ap :: rest := by rw [hstate]
  have hentered : (h.next .connect).entered ap = h.count + 1 :=
    if_pos ⟨hmem, hpeers ▸ List.mem_cons_self⟩
  constructor
  · constructor
    · rw [hstate]
      exact hh.idle
    · rw [hpeers]
      exact List.nodup_cons.mpr ⟨fun hx => hmem (hsub.subset hx), hh.nodup.sublist hsub⟩
    · rw [hpeers, List.length_cons]
      exact hlen
    · rw [hpeers, List.pairwise_cons]
      constructor
      · -- it has entered after all that are there
        intro y hy
        rw [hentered, entered_next_of_mem (hsub.subset hy)]
        exact Nat.lt_succ_of_le (hh.entered_le y)
      · refine (hh.ordered.sublist hsub).imp_of_mem fun {x y} hx hy hlt => ?_
        rwa [entered_next_of_mem (hsub.subset hx), entered_next_of_mem (hsub.subset hy)]
    · exact entered_next_le hh.entered_le
    · intro _
      exact ⟨ap, by rw [hstate]; exact hap⟩
  · intro x
    rw [hpeers, List.mem_cons, hiff]

/-- A connect keeps the list in order. -/
theorem PeersOrdered.connect (hh : PeersOrdered h) :
    PeersOrdered (h.next .connect) ∧ OpEffect h .connect := by
  rcases hap : h.state.apMac with _ | ap
  · have hstate := PeersOrdered.connect_none hap
    refine ⟨hh.sublist ?_ ?_ ?_, fun ap hsome => ?_⟩
    · rw [hstate, hh.idle]
    · rw [hstate]
    · exact .inr (congrArg _ hstate)
    · rw [hap] at hsome
      exact absurd hsome nofun
  · by_cases hmem : ap ∈ h.state.peers
    · obtain ⟨hnext, hpeers⟩ := hh.connect_known hap hmem
      refine ⟨hnext, fun ap' hap' => ?_⟩
      obtain rfl : ap = ap' := Option.some.inj (hap.symm.trans hap')
      rwa [if_pos hmem]
    · obtain ⟨hnext, hiff⟩ := hh.connect_new hap hmem
      refine ⟨hnext, fun ap' hap' => ?_⟩
      obtain rfl : ap = ap' := Option.some.inj (hap.symm.trans hap')
      rwa [if_neg hmem]

/-! ### Forgetting -/

/-- A request that is not refused drops what it names, but `ap_mac`. -/
theorem not_drops_iff {apMac : Option BbMac} {req : ForgetRequest}
    (hap : ¬ ∃ mac ∈ apMac, req = .one mac) (x : BbMac) :
    (!req.drops apMac x) = true ↔ (req.names x = true → apMac = some x) := by
  cases req with
  | all => simp [ForgetRequest.drops, ForgetRequest.names]
  | one target =>
    simp only [ForgetRequest.drops, ForgetRequest.names, Bool.not_eq_true', decide_eq_false_iff_not,
      decide_eq_true_eq]
    constructor
    · exact fun hne heq => absurd heq hne
    · rintro h rfl
      exact hap ⟨x, h rfl, rfl⟩

/-- What `lc_peers_forget` does to a list that is loaded as it is. -/
theorem lcPeersForget_spec {apMac : Option BbMac} {file : List BbMac} (req : ForgetRequest)
    (hload : lcPeersLoad bbConfigMaxSlotCandidate file = file) :
    (lcPeersForget apMac file req true).2.Sublist file ∧
      (∀ x, x ∈ (lcPeersForget apMac file req true).2 ↔
        x ∈ file ∧ (req.names x = true → apMac = some x)) ∧
      ∀ x ∈ file, x ∉ (lcPeersForget apMac file req true).2 →
        0 < (lcPeersForget apMac file req true).1 := by
  by_cases hap : ∃ mac ∈ apMac, req = .one mac
  · rw [lcPeersForget, if_pos hap]
    refine ⟨List.Sublist.refl _, fun x => ⟨fun hx => ⟨hx, ?_⟩, fun hx => hx.1⟩, ?_⟩
    · obtain ⟨mac, hmac, rfl⟩ := hap
      intro hname
      obtain rfl : x = mac := of_decide_eq_true hname
      exact hmac
    · exact fun x hx hnot => absurd hx hnot
  · rw [lcPeersForget, if_neg hap, hload]
    dsimp only
    have hsub : (file.filter fun mac => !req.drops apMac mac).Sublist file :=
      List.filter_sublist
    have hmem : ∀ x, x ∈ (file.filter fun mac => !req.drops apMac mac) ↔
        x ∈ file ∧ (req.names x = true → apMac = some x) := by
      intro x
      rw [List.mem_filter, not_drops_iff hap]
    generalize (file.filter fun mac => !req.drops apMac mac) = kept at hsub hmem ⊢
    rw [if_pos rfl]
    -- with as many entries left as before none was dropped, and nothing is written
    split_ifs with hsame hall
    · obtain rfl := hsub.eq_of_length hsame
      exact ⟨List.Sublist.refl _, hmem, fun x hx hnot => absurd hx hnot⟩
    · obtain rfl := hsub.eq_of_length hsame
      exact ⟨List.Sublist.refl _, hmem, fun x hx hnot => absurd hx hnot⟩
    · refine ⟨hsub, hmem, fun _ _ _ => ?_⟩
      have hle := hsub.length_le
      show (0 : ℤ) < file.length - kept.length
      omega

/-- What was forgotten is not among the candidates. -/
theorem lastPushed_forgotten {past : List PeersEvent} {apMac : Option BbMac}
    {file : List BbMac} {ap x : BbMac} (hap : apMac = some ap) (hne : apMac ≠ some x)
    (hx : x ∉ file) :
    ∃ candidates, lastPushed (past ++ (lcPeersPush apMac file ++ [.drainEnd apMac])) =
      some candidates ∧ x ∉ candidates := by
  have hap' : ap ∈ peersEffective apMac file bbConfigMaxSlotCandidate := by
    rw [peersEffective, hap]
    exact subset_addMacs List.mem_cons_self
  refine ⟨peersEffective apMac file bbConfigMaxSlotCandidate, ?_, fun hmem => ?_⟩
  · rw [lcPeersPush, if_neg (List.ne_nil_of_mem hap'), lastPushed]
    simp
  · rw [peersEffective] at hmem
    rcases mem_of_mem_addMacs hmem with hmem | hmem
    · rw [if_pos (by decide)] at hmem
      exact hne (Option.mem_toList.mp hmem)
    · exact hx (mem_of_mem_lcPeersLoad hmem)

theorem peersOp_forget {s : PeersState} (hidle : s.draining = none) (req : ForgetRequest) :
    peersOp s (.forget req) =
      ({ s with
          pending := none
          peers := (lcPeersForget s.apMac s.peers req true).2
          draining := none },
        [.drainBegin] ++ ((if 0 < (lcPeersForget s.apMac s.peers req true).1 then
          lcPeersPush s.apMac (lcPeersForget s.apMac s.peers req true).2 else []) ++
            [.drainEnd s.apMac])) := by
  obtain ⟨apMac, peers, pending, calls, draining⟩ := s
  obtain rfl : draining = none := hidle
  rfl

/-- Forgetting keeps the list in order, and reaches the chip. -/
theorem PeersOrdered.forget (hh : PeersOrdered h) (req : ForgetRequest) :
    PeersOrdered (h.next (.forget req)) ∧ OpEffect h (.forget req) := by
  obtain ⟨hsub, hmem, hforgot⟩ := @lcPeersForget_spec h.state.apMac _ req hh.load_eq
  have hop := peersOp_forget hh.idle req
  have hstate : (h.next (.forget req)).state = { h.state with
      pending := none
      peers := (lcPeersForget h.state.apMac h.state.peers req true).2
      draining := none } := congrArg Prod.fst hop
  have hpeers : (h.next (.forget req)).state.peers =
      (lcPeersForget h.state.apMac h.state.peers req true).2 := by rw [hstate]
  refine ⟨hh.sublist ?_ ?_ ?_, fun x => ?_, fun x hx hnot => ?_⟩
  · rw [hstate]
  · rwa [hpeers]
  · rw [hstate]
    exact .inr rfl
  · rw [hpeers, hmem]
  · rw [hpeers] at hnot
    -- nothing gets into the list without an `ap_mac`, so there is a candidate to push
    obtain ⟨ap, hap⟩ := hh.bound (List.ne_nil_of_mem hx)
    have hne : h.state.apMac ≠ some x := fun heq => hnot ((hmem x).mpr ⟨hx, fun _ => heq⟩)
    have hevents : (h.next (.forget req)).events = (h.events ++ [.drainBegin]) ++
        (lcPeersPush h.state.apMac (lcPeersForget h.state.apMac h.state.peers req true).2 ++
          [.drainEnd h.state.apMac]) := by
      show h.events ++ (peersOp h.state (.forget req)).2 = _
      rw [hop, if_pos (hforgot x hx hnot), List.append_assoc]
    rw [hevents]
    exact lastPushed_forgotten hap hne hnot

/-- Every operation keeps the list in order. -/
theorem PeersOrdered.next (hh : PeersOrdered h) (op : PeersOp) :
    PeersOrdered (h.next op) ∧ OpEffect h op := by
  cases op with
  | bind mac =>
    exact ⟨hh.sublist hh.idle (List.Sublist.refl _) (.inl rfl), rfl⟩
  | connect => exact hh.connect
  | forget req => exact hh.forget req

end Steps

/-- In every run the list is in order. -/
theorem peersOrdered_history (apMac : Option BbMac) (ops : List PeersOp) :
    PeersOrdered (peersHistory apMac ops) := by
  induction ops using List.reverseRecOn with
  | nil =>
    exact ⟨rfl, List.nodup_nil, Nat.zero_le _, List.Pairwise.nil, fun _ => le_rfl,
      fun hne => absurd rfl hne⟩
  | append_singleton ops op ih =>
    rw [peersHistory, List.foldl_concat]
    exact (ih.next op).1

/-- **The list of remembered air units**: at most `BB_CONFIG_MAX_SLOT_CANDIDATE` different MACs,
loaded as they were saved, the one first that entered it last; and the effect of every operation
on it. -/
theorem peersHistory_ordered (apMac : Option BbMac) (ops : List PeersOp) :
    let h := peersHistory apMac ops
    (h.state.peers.Nodup ∧ h.state.peers.length ≤ bbConfigMaxSlotCandidate) ∧
      lcPeersLoadText bbConfigMaxSlotCandidate (peersText h.state.peers) = h.state.peers ∧
      h.state.peers.Pairwise (fun x y => h.entered y < h.entered x) ∧
      ∀ op, OpEffect h op := by
  intro h
  have hh : PeersOrdered h := peersOrdered_history apMac ops
  exact ⟨⟨hh.nodup, hh.length_le⟩, lcPeersLoadText_peersText hh.nodup hh.length_le, hh.ordered,
    fun op => (hh.next op).2⟩

/-- The number of the operation that last bound this MAC. -/
def lastBound (ops : List PeersOp) (mac : BbMac) : ℕ :=
  ops.length - ops.reverse.findIdx fun op => op = .bind mac

/-- An air unit that is paired again stays behind the one that was paired in between. -/
theorem peersHistory_bound_again :
    let first : BbMac := ⟨1, 0, 0, 0⟩
    let second : BbMac := ⟨2, 0, 0, 0⟩
    let ops : List PeersOp :=
      [.bind first, .connect, .bind second, .connect, .bind first, .connect]
    ¬ (peersHistory none ops).state.peers.Pairwise
      fun x y => lastBound ops y < lastBound ops x := by
  decide

end Ar8030

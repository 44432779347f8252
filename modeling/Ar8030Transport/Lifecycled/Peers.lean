import Mathlib.Data.List.Perm.Subperm
import Ar8030Transport.Library.Trace
import Ar8030Transport.Lifecycled.Daemon

/-!
# Forgetting air units

The DEV remembers every air unit it was bound to: the last one is `ap_mac` of its
configuration, the earlier ones are in `ar8030.peers`, newest first. A request to forget one of
them, or all, is checked by an HTTP thread and put in a mailbox, which the lifecycle thread
drains once a tick; the same thread records `ap_mac` after a connect.

`peersStep` interleaves the HTTP threads with the lifecycle thread and with `ar8030-pair`, which
rewrites `ap_mac` at any time. `Promises` keeps account, from what can be seen of a run, of the
MACs that are to be gone. The mailbox holds one request: `NoneLost` says that a request is
replaced by one that covers it only, and not refused when it is drained.
-/

namespace Ar8030

open Trace

/-! ### The files -/

/-- `bb_mac_t`. -/
structure BbMac where
  a : UInt8
  b : UInt8
  c : UInt8
  d : UInt8
  deriving DecidableEq, Repr

/-- `BB_CONFIG_MAX_SLOT_CANDIDATE`. -/
def bbConfigMaxSlotCandidate : ℕ := 100

/-- A new one goes to the end, up to `max`. -/
def addMac (max : ℕ) (out : List BbMac) (mac : BbMac) : List BbMac :=
  if out.length < max ∧ mac ∉ out then out ++ [mac] else out

/-- The loop of `lc_peers_load` and `peers_effective`. -/
def addMacs (max : ℕ) (out macs : List BbMac) : List BbMac := macs.foldl (addMac max) out

/-- `lc_peers_load`. The file is given by the MACs on its lines; a line that does not parse is
skipped. -/
def lcPeersLoad (max : ℕ) (file : List BbMac) : List BbMac := addMacs max [] file

/-- `peers_effective`. -/
def peersEffective (apMac : Option BbMac) (file : List BbMac) (max : ℕ) : List BbMac :=
  addMacs max (if 0 < max then apMac.toList else []) (lcPeersLoad bbConfigMaxSlotCandidate file)

/-- What to forget: the argument of `lc_peers_forget`, and what the mailbox holds. -/
inductive ForgetRequest where
  | all
  | one (mac : BbMac)
  deriving DecidableEq, Repr

/-- `lc_peers_forget` drops this entry. -/
def ForgetRequest.drops (apMac : Option BbMac) (mac : BbMac) : ForgetRequest → Bool
  | .all => apMac ≠ some mac
  | .one target => mac = target

/-- `lc_peers_forget`, with the file it leaves. -/
def lcPeersForget (apMac : Option BbMac) (file : List BbMac) (req : ForgetRequest)
    (saveOk : Bool) : ℤ × List BbMac :=
  if ∃ mac ∈ apMac, req = .one mac then (-2, file)
  else
    let known := lcPeersLoad bbConfigMaxSlotCandidate file
    let kept := known.filter fun mac => !req.drops apMac mac
    if kept.length = known.length then (if req = .all then 0 else -3, file)
    else if saveOk then (known.length - kept.length, kept)
    else (-4, file)

/-- `lc_peers_note_ap_mac`: the list it saves, if any. -/
def lcPeersNoteApMac (apMac : Option BbMac) (file : List BbMac) (saveOk : Bool) :
    Option (List BbMac) :=
  match apMac with
  | none => none
  | some ap =>
    let known := lcPeersLoad bbConfigMaxSlotCandidate file
    if ap ∈ known then none
    else
      -- the oldest falls off a full list
      let rest := if known.length = bbConfigMaxSlotCandidate then known.dropLast else known
      if saveOk then some (ap :: rest) else none

/-! ### The threads -/

/-- Where a call of `lifecycle_request_forget_peer` is. -/
inductive ForgetCall where
  | readApMac (mac : BbMac)
  | loadPeers (mac : BbMac)
  | post (req : ForgetRequest)
  deriving DecidableEq, Repr

/-- `mac_hex` of a call: null, or a text and what it parses to. -/
inductive ForgetArg where
  | null
  | text (mac : Option BbMac)
  deriving DecidableEq, Repr

/-- The files, the mailbox, the calls under way, and the request that is being drained. -/
structure PeersState where
  apMac : Option BbMac
  peers : List BbMac
  pending : Option ForgetRequest
  calls : List ForgetCall
  draining : Option ForgetRequest
  deriving DecidableEq, Repr

inductive PeersAction where
  /-- An HTTP thread calls `lifecycle_request_forget_peer`. -/
  | request (arg : ForgetArg)
  /-- The thread of call `n` goes on. -/
  | http (n : ℕ)
  /-- The lifecycle thread goes on with `lc_drain_forget_request`. -/
  | drain (saveOk : Bool)
  /-- It calls `lc_peers_note_ap_mac`. -/
  | note (saveOk : Bool)
  /-- `ar8030-pair` writes `ap_mac`. -/
  | bind (mac : Option BbMac)
  deriving DecidableEq, Repr

/-- What can be seen of a run. -/
inductive PeersEvent where
  /-- A call has returned an error. -/
  | refused (code : ℤ)
  /-- A call has returned 0 for this request, when these were the entries of `ar8030.peers`. -/
  | accepted (req : ForgetRequest) (peers : List BbMac)
  /-- A drain has begun, or ended, having gone by this `ap_mac`. -/
  | drainBegin
  | drainEnd (apMac : Option BbMac)
  /-- `lc_peers_note_ap_mac` has recorded this MAC. -/
  | noted (mac : BbMac)
  /-- `lc_peers_push`. -/
  | pushed (candidates : List BbMac)
  deriving DecidableEq, Repr

/-- `lc_peers_push`. -/
def lcPeersPush (apMac : Option BbMac) (file : List BbMac) : List PeersEvent :=
  let candidates := peersEffective apMac file bbConfigMaxSlotCandidate
  if candidates = [] then [] else [.pushed candidates]

/-- A call begins. -/
def requestForgetPeer (cfg : LcConfig) (arg : ForgetArg) (s : PeersState) :
    PeersState × List PeersEvent :=
  if cfg.role ≠ .dev ∨ cfg.hasCfgPath = false then (s, [.refused (-4)])
  else
    match arg with
    | .null => ({ s with calls := s.calls ++ [.post .all] }, [])
    | .text none => (s, [.refused (-1)])
    | .text (some mac) => ({ s with calls := s.calls ++ [.readApMac mac] }, [])

/-- A call goes on. -/
def httpGoesOn (n : ℕ) (s : PeersState) : PeersState × List PeersEvent :=
  match s.calls[n]? with
  | none => (s, [])
  | some (.readApMac mac) =>
    if s.apMac = some mac then ({ s with calls := s.calls.eraseIdx n }, [.refused (-2)])
    else ({ s with calls := s.calls.set n (.loadPeers mac) }, [])
  | some (.loadPeers mac) =>
    if mac ∈ lcPeersLoad bbConfigMaxSlotCandidate s.peers then
      ({ s with calls := s.calls.set n (.post (.one mac)) }, [])
    else ({ s with calls := s.calls.eraseIdx n }, [.refused (-3)])
  | some (.post req) =>
    ({ s with pending := some req, calls := s.calls.eraseIdx n }, [.accepted req s.peers])

/-- `lc_drain_forget_request`: one step empties the mailbox, and another applies the request
that was in it. -/
def drainForgetRequest (saveOk : Bool) (s : PeersState) : PeersState × List PeersEvent :=
  match s.draining with
  | none =>
    match s.pending with
    | none => (s, [.drainBegin, .drainEnd s.apMac])
    | some req => ({ s with pending := none, draining := some req }, [.drainBegin])
  | some req =>
    let r := lcPeersForget s.apMac s.peers req saveOk
    ({ s with peers := r.2, draining := none },
      (if 0 < r.1 then lcPeersPush s.apMac r.2 else []) ++ [.drainEnd s.apMac])

/-- `lc_peers_note_ap_mac`. It is another function of the thread, so not called in a drain. -/
def noteApMac (saveOk : Bool) (s : PeersState) : PeersState × List PeersEvent :=
  match s.draining, lcPeersNoteApMac s.apMac s.peers saveOk with
  | none, some file =>
    ({ s with peers := file }, s.apMac.toList.map .noted ++ lcPeersPush s.apMac file)
  | _, _ => (s, [])

def peersStep (cfg : LcConfig) (s : PeersState) : PeersAction → PeersState × List PeersEvent
  | .request arg => requestForgetPeer cfg arg s
  | .http n => httpGoesOn n s
  | .drain saveOk => drainForgetRequest saveOk s
  | .note saveOk => noteApMac saveOk s
  | .bind mac => ({ s with apMac := mac }, [])

/-- A run from the start of the daemon, with any files. -/
def peersRun (cfg : LcConfig) (apMac : Option BbMac) (peers : List BbMac)
    (actions : List PeersAction) : PeersState × List PeersEvent :=
  Mealy.run (peersStep cfg) ⟨apMac, peers, none, [], none⟩ actions

/-! ### What was promised -/

/-- This MAC is to be gone, if it is not `ap_mac`. -/
def ForgetRequest.names (mac : BbMac) : ForgetRequest → Bool
  | .all => true
  | .one target => mac = target

/-- What an accepted call promises: these MACs will be gone. -/
structure Promise where
  req : ForgetRequest
  macs : List BbMac
  deriving DecidableEq, Repr

/-- `all` leaves the current `ap_mac`. -/
def Promise.spare (apMac : Option BbMac) (p : Promise) : Promise :=
  { p with macs := p.macs.filter fun mac => !(p.req = .all ∧ apMac = some mac) }

/-- A MAC that was recorded again is not to be gone. -/
def Promise.release (mac : BbMac) (p : Promise) : Promise :=
  { p with macs := p.macs.filter fun other => other ≠ mac }

/-- The promises of the calls accepted since the last drain began, of those this drain is
about, and of those whose drain has ended. -/
structure Promises where
  waiting : List Promise
  due : List Promise
  ended : List Promise
  deriving DecidableEq, Repr

/-- Account of one event. -/
def Promises.next (d : Promises) : PeersEvent → Promises
  | .accepted req peers => { d with waiting := d.waiting ++ [⟨req, peers.filter (req.names ·)⟩] }
  | .drainBegin => { d with waiting := [], due := d.due ++ d.waiting }
  | .drainEnd apMac => { d with due := [], ended := d.ended ++ d.due.map (.spare apMac) }
  | .noted mac =>
    ⟨d.waiting.map (.release mac), d.due.map (.release mac), d.ended.map (.release mac)⟩
  | .refused _ => d
  | .pushed _ => d

/-- Account of what can be seen of a run. -/
def promises (events : List PeersEvent) : Promises := events.foldl .next ⟨[], [], []⟩

/-- The promises whose drain has ended are kept. -/
def Promises.Kept (d : Promises) (s : PeersState) : Prop :=
  ∀ p ∈ d.ended, ∀ mac ∈ p.macs, mac ∉ s.peers

/-- What is promised for `other` follows from forgetting this request. -/
def ForgetRequest.Covers (req other : ForgetRequest) : Prop := req = .all ∨ req = other

instance (req other : ForgetRequest) : Decidable (req.Covers other) :=
  inferInstanceAs (Decidable (_ ∨ _))

/-- A request that is put in the mailbox covers the one that is there. -/
def ForgetCall.Replaces (pending : Option ForgetRequest) : ForgetCall → Prop
  | .post req => ∀ old ∈ pending, req.Covers old
  | _ => True

instance (pending : Option ForgetRequest) : (call : ForgetCall) → Decidable (call.Replaces pending)
  | .readApMac _ => inferInstanceAs (Decidable True)
  | .loadPeers _ => inferInstanceAs (Decidable True)
  | .post req => inferInstanceAs (Decidable (∀ old ∈ pending, req.Covers old))

/-- A request in the mailbox is replaced by one that covers it only, and no call for one MAC is
drained when this MAC is `ap_mac`. -/
def NoneLost (d : Promises) (s : PeersState) : PeersAction → Prop
  | .http n => ∀ call ∈ s.calls[n]?, call.Replaces s.pending
  | .drain _ =>
    s.draining.isSome → ∀ p ∈ d.due, p.req ≠ .all → ∀ mac ∈ p.macs, s.apMac ≠ some mac
  | _ => True

instance (d : Promises) (s : PeersState) : (a : PeersAction) → Decidable (NoneLost d s a)
  | .http n => inferInstanceAs (Decidable (∀ call ∈ s.calls[n]?, call.Replaces s.pending))
  | .drain _ => inferInstanceAs (Decidable (_ → ∀ p ∈ d.due, _ → ∀ mac ∈ p.macs, _ ≠ _))
  | .request _ => inferInstanceAs (Decidable True)
  | .note _ => inferInstanceAs (Decidable True)
  | .bind _ => inferInstanceAs (Decidable True)

/-- What is left of a drain's list is written. -/
def PeersAction.Saves (a : PeersAction) : Prop := a ≠ .drain false

instance (a : PeersAction) : Decidable a.Saves := inferInstanceAs (Decidable (_ ≠ _))

/-! ### The list of MACs -/

section AddMacs

variable {max : ℕ} {mac x : BbMac} {out macs : List BbMac}

theorem mem_addMac : x ∈ addMac max out mac ↔ x ∈ out ∨ x = mac ∧ out.length < max := by
  rw [addMac]
  split_ifs with h
  · simp [h.1]
  · constructor
    · exact .inl
    · rintro (hx | ⟨rfl, hroom⟩)
      · exact hx
      · simpa [hroom] using h

theorem addMac_nodup (h : out.Nodup) : (addMac max out mac).Nodup := by
  rw [addMac]
  split_ifs with hadd
  · refine List.nodup_append.mpr ⟨h, by simp, ?_⟩
    rintro y hy z hz rfl
    exact hadd.2 (List.mem_singleton.mp hz ▸ hy)
  · exact h

theorem length_addMac_le (h : out.length ≤ max) : (addMac max out mac).length ≤ max := by
  rw [addMac]
  split_ifs with hadd
  · rw [List.length_append]
    exact hadd.1
  · exact h

theorem addMacs_cons : addMacs max out (mac :: macs) = addMacs max (addMac max out mac) macs := rfl

theorem subset_addMacs : out ⊆ addMacs max out macs := by
  induction macs generalizing out with
  | nil => exact List.Subset.refl _
  | cons mac macs ih =>
    intro x hx
    exact ih (mem_addMac.mpr (.inl hx))

theorem mem_of_mem_addMacs (h : x ∈ addMacs max out macs) : x ∈ out ∨ x ∈ macs := by
  induction macs generalizing out with
  | nil => exact .inl h
  | cons mac macs ih =>
    rcases ih h with hout | hrest
    · rcases mem_addMac.mp hout with hx | ⟨rfl, -⟩
      · exact .inl hx
      · exact .inr (by simp)
    · exact .inr (List.mem_cons_of_mem _ hrest)

theorem addMacs_nodup (h : out.Nodup) : (addMacs max out macs).Nodup := by
  induction macs generalizing out with
  | nil => exact h
  | cons mac macs ih => exact ih (addMac_nodup h)

theorem length_addMacs_le (h : out.length ≤ max) : (addMacs max out macs).length ≤ max := by
  induction macs generalizing out with
  | nil => exact h
  | cons mac macs ih => exact ih (length_addMac_le h)

/-- A list that is not full has everything. -/
theorem mem_addMacs_of_lt (hout : out.Nodup) (hmem : x ∈ macs)
    (hlt : (addMacs max out macs).length < max) : x ∈ addMacs max out macs := by
  induction macs generalizing out with
  | nil => simp at hmem
  | cons mac macs ih =>
    rcases List.mem_cons.mp hmem with rfl | hrest
    · have hroom : out.length < max :=
        Nat.lt_of_le_of_lt (hout.subperm subset_addMacs).length_le hlt
      have hx : x ∈ addMac max out x := mem_addMac.mpr (.inr ⟨rfl, hroom⟩)
      rw [addMacs_cons]
      exact subset_addMacs hx
    · exact ih (addMac_nodup hout) hrest hlt

theorem addMacs_eq_append (h : (out ++ macs).Nodup) (hlen : (out ++ macs).length ≤ max) :
    addMacs max out macs = out ++ macs := by
  induction macs generalizing out with
  | nil => simp [addMacs]
  | cons mac macs ih =>
    have hroom : out.length < max := by
      simp only [List.length_append, List.length_cons] at hlen
      omega
    have hnew : mac ∉ out := by
      intro hmac
      exact (List.nodup_append.mp h).2.2 mac hmac mac (by simp) rfl
    rw [addMacs_cons, addMac, if_pos ⟨hroom, hnew⟩, ih (by simpa using h) (by simpa using hlen)]
    simp

end AddMacs

/-! ### What forgetting and recording do to the file -/

/-- The MAC is not beyond what is read of the file. -/
def Readable (file : List BbMac) (mac : BbMac) : Prop :=
  mac ∈ file → mac ∈ lcPeersLoad bbConfigMaxSlotCandidate file

/-- A file that is as it was, or as `peers_save` writes it. -/
def Rewritten (file file' : List BbMac) : Prop :=
  file' = file ∨ file'.Nodup ∧ file'.length ≤ bbConfigMaxSlotCandidate

section Files

variable {apMac : Option BbMac} {file file' : List BbMac} {mac : BbMac} {req : ForgetRequest}
  {saveOk : Bool}

theorem lcPeersLoad_nodup (max : ℕ) (file : List BbMac) : (lcPeersLoad max file).Nodup :=
  addMacs_nodup List.nodup_nil

theorem mem_of_mem_lcPeersLoad {max : ℕ} (h : mac ∈ lcPeersLoad max file) : mac ∈ file := by
  simpa using mem_of_mem_addMacs h

theorem Readable.rewritten (h : Readable file mac) (hfile : Rewritten file file') :
    Readable file' mac := by
  rcases hfile with rfl | ⟨hnodup, hlen⟩
  · exact h
  · intro hmem
    rw [lcPeersLoad, addMacs_eq_append (by simpa using hnodup) (by simpa using hlen)]
    simpa using hmem

/-- The outcomes of `lc_peers_forget`: the file is as it was, or without what is dropped. -/
theorem lcPeersForget_file (apMac : Option BbMac) (file : List BbMac) (req : ForgetRequest)
    (saveOk : Bool) :
    (lcPeersForget apMac file req saveOk).2 = file ∨
      (lcPeersForget apMac file req saveOk).2 =
        (lcPeersLoad bbConfigMaxSlotCandidate file).filter fun mac => !req.drops apMac mac := by
  rw [lcPeersForget]
  dsimp only
  split_ifs
  · exact .inl rfl
  · exact .inl rfl
  · exact .inl rfl
  · exact .inr rfl
  · exact .inl rfl

theorem lcPeersForget_subset : (lcPeersForget apMac file req saveOk).2 ⊆ file := by
  rcases lcPeersForget_file apMac file req saveOk with h | h <;> rw [h]
  · exact List.Subset.refl _
  · intro mac hmac
    exact mem_of_mem_lcPeersLoad (List.mem_filter.mp hmac).1

theorem lcPeersForget_rewritten : Rewritten file (lcPeersForget apMac file req saveOk).2 := by
  rcases lcPeersForget_file apMac file req saveOk with h | h <;> rw [h]
  · exact .inl rfl
  · refine .inr ⟨(lcPeersLoad_nodup _ _).filter _, ?_⟩
    exact Nat.le_trans (List.length_filter_le _ _) (length_addMacs_le (by simp))

/-- A request that is not refused drops what is read of the file and to be dropped. -/
theorem lcPeersForget_eq (hap : ∀ ap ∈ apMac, req ≠ .one ap) :
    (lcPeersForget apMac file req true).2 =
      if ∀ mac ∈ lcPeersLoad bbConfigMaxSlotCandidate file, req.drops apMac mac = false then file
      else
        (lcPeersLoad bbConfigMaxSlotCandidate file).filter fun mac => !req.drops apMac mac := by
  rw [lcPeersForget, if_neg (by simpa using hap)]
  simp only [List.length_filter_eq_length_iff, Bool.not_eq_true', if_true]
  split_ifs <;> rfl

theorem not_mem_lcPeersForget (hread : Readable file mac) (hdrop : req.drops apMac mac = true)
    (hap : ∀ ap ∈ apMac, req ≠ .one ap) : mac ∉ (lcPeersForget apMac file req true).2 := by
  intro hmem
  rw [lcPeersForget_eq hap] at hmem
  split_ifs at hmem with hall
  · exact absurd hdrop (by simp [hall mac (hread hmem)])
  · simp [hdrop] at hmem

/-- Of a request for all, nothing is left but `ap_mac`. -/
theorem eq_of_mem_lcPeersForget_all (h : mac ∈ (lcPeersForget apMac file .all true).2) :
    apMac = some mac := by
  rw [lcPeersForget_eq (by simp)] at h
  split_ifs at h with hall
  · -- `ap_mac` is all that is read, so the list is short and the file was read to its end
    have hsub : lcPeersLoad bbConfigMaxSlotCandidate file ⊆ apMac.toList := by
      intro x hx
      simpa [ForgetRequest.drops] using hall x hx
    have hshort : (lcPeersLoad bbConfigMaxSlotCandidate file).length ≤ 1 := by
      refine Nat.le_trans ((lcPeersLoad_nodup _ _).subperm hsub).length_le ?_
      cases apMac <;> simp
    have hread := mem_addMacs_of_lt List.nodup_nil h (Nat.lt_of_le_of_lt hshort (by decide))
    simpa using hsub hread
  · simpa [ForgetRequest.drops] using (List.mem_filter.mp h).2

/-- What `lc_peers_note_ap_mac` saves. -/
theorem lcPeersNoteApMac_eq_some (h : lcPeersNoteApMac apMac file saveOk = some file') :
    ∃ ap, apMac = some ap ∧ Rewritten file file' ∧ ∀ mac ∈ file', mac = ap ∨ mac ∈ file := by
  unfold lcPeersNoteApMac at h
  cases apMac with
  | none => simp at h
  | some ap =>
    dsimp only at h
    generalize hknown : lcPeersLoad bbConfigMaxSlotCandidate file = known at h
    generalize hrest : (if known.length = bbConfigMaxSlotCandidate then known.dropLast
      else known) = rest at h
    split_ifs at h with hmem
    obtain rfl : _ = file' := by simpa using h
    have hsub : rest.Sublist known := by
      rw [← hrest]
      split_ifs
      · exact List.dropLast_sublist _
      · exact List.Sublist.refl _
    have hroom : rest.length < bbConfigMaxSlotCandidate := by
      have hle : known.length ≤ bbConfigMaxSlotCandidate := by
        rw [← hknown]
        exact length_addMacs_le (by simp)
      rw [← hrest]
      split_ifs with hfull
      · rw [List.length_dropLast, hfull]
        decide
      · omega
    have hnodup : known.Nodup := hknown ▸ lcPeersLoad_nodup _ _
    refine ⟨ap, rfl, .inr ⟨?_, hroom⟩, ?_⟩
    · exact List.nodup_cons.mpr ⟨fun hap => hmem (hsub.subset hap), hnodup.sublist hsub⟩
    · intro mac hmac
      rcases List.mem_cons.mp hmac with rfl | hin
      · exact .inl rfl
      · exact .inr (mem_of_mem_lcPeersLoad (hknown ▸ hsub.subset hin))

end Files

/-! ### The account of a step -/

/-- Account of several events. -/
def Promises.after (d : Promises) (events : List PeersEvent) : Promises := events.foldl .next d

theorem promises_append (past events : List PeersEvent) :
    promises (past ++ events) = (promises past).after events :=
  List.foldl_append

theorem after_lcPeersPush (d : Promises) (apMac : Option BbMac) (file : List BbMac)
    (events : List PeersEvent) : d.after (lcPeersPush apMac file ++ events) = d.after events := by
  rw [lcPeersPush]
  split_ifs <;> rfl

theorem mem_spare {apMac : Option BbMac} {p : Promise} {mac : BbMac} :
    mac ∈ (p.spare apMac).macs ↔ mac ∈ p.macs ∧ (p.req = .all → apMac ≠ some mac) := by
  simp [Promise.spare, imp_iff_not_or]

theorem mem_release {p : Promise} {ap mac : BbMac} :
    mac ∈ (p.release ap).macs ↔ mac ∈ p.macs ∧ mac ≠ ap := by
  simp [Promise.release]

/-- What an open promise of this account needs. A call for one MAC relies on its MAC being
among those that are read. -/
structure Promise.Open (peers : List BbMac) (p : Promise) : Prop where
  named : ∀ mac ∈ p.macs, p.req.names mac = true
  readable : p.req ≠ .all → ∀ mac ∈ p.macs, Readable peers mac

/-- The account fits the state: for each open promise a request that covers it is in the mailbox
or being drained, and the promises whose drain has ended are kept. -/
structure Held (d : Promises) (s : PeersState) : Prop where
  waiting : ∀ p ∈ d.waiting, ∃ req ∈ s.pending, req.Covers p.req
  due : ∀ p ∈ d.due, ∃ req ∈ s.draining, req.Covers p.req
  isOpen : ∀ p ∈ d.waiting ++ d.due, p.Open s.peers
  posted : ∀ mac, .post (.one mac) ∈ s.calls → Readable s.peers mac
  kept : d.Kept s

section Step

variable {d : Promises} {s : PeersState}

/-- The file gets shorter, or is written. -/
theorem Held.rewritten (h : Held d s) {file : List BbMac} (hfile : Rewritten s.peers file)
    (hkept : d.Kept { s with peers := file }) : Held d { s with peers := file } :=
  { waiting := h.waiting
    due := h.due
    isOpen := fun p hp => ⟨(h.isOpen p hp).named,
      fun hreq mac hmac => ((h.isOpen p hp).readable hreq mac hmac).rewritten hfile⟩
    posted := fun mac hmac => (h.posted mac hmac).rewritten hfile
    kept := hkept }

theorem Held.calls (h : Held d s) {calls : List ForgetCall}
    (hcalls : ∀ mac, .post (.one mac) ∈ calls → Readable s.peers mac) :
    Held d { s with calls := calls } :=
  { waiting := h.waiting
    due := h.due
    isOpen := h.isOpen
    posted := hcalls
    kept := h.kept }

theorem Held.request (h : Held d s) (cfg : LcConfig) (arg : ForgetArg) :
    Held (d.after (requestForgetPeer cfg arg s).2) (requestForgetPeer cfg arg s).1 := by
  unfold requestForgetPeer
  split_ifs
  · exact h
  · rcases arg with _ | _ | mac
    · exact h.calls fun mac hmac => h.posted mac (by simpa using hmac)
    · exact h
    · exact h.calls fun mac hmac => h.posted mac (by simpa using hmac)

/-- A call that is about to be answered promises what its request names. -/
theorem Held.open_post (h : Held d s) {req : ForgetRequest} (hcall : .post req ∈ s.calls) :
    Promise.Open s.peers ⟨req, s.peers.filter fun mac => req.names mac⟩ := by
  refine ⟨fun mac hmac => by simpa using (List.mem_filter.mp hmac).2, ?_⟩
  intro hreq mac hmac
  cases req with
  | all => exact absurd rfl hreq
  | one target =>
    obtain rfl : mac = target := by
      simpa [ForgetRequest.names] using (List.mem_filter.mp hmac).2
    exact h.posted mac hcall

theorem Held.http (h : Held d s) {n : ℕ} (hlost : NoneLost d s (.http n)) :
    Held (d.after (httpGoesOn n s).2) (httpGoesOn n s).1 := by
  have herase : ∀ mac, .post (.one mac) ∈ s.calls.eraseIdx n → Readable s.peers mac :=
    fun mac hmac => h.posted mac (List.mem_of_mem_eraseIdx hmac)
  unfold httpGoesOn
  cases hcall : s.calls[n]? with
  | none => exact h
  | some call =>
    cases call with
    | readApMac mac =>
      dsimp only
      split_ifs
      · exact h.calls herase
      · refine h.calls fun other hother => h.posted other ?_
        simpa using List.mem_or_eq_of_mem_set hother
    | loadPeers mac =>
      dsimp only
      split_ifs with hload
      · refine h.calls fun other hother => ?_
        rcases List.mem_or_eq_of_mem_set hother with hold | hnew
        · exact h.posted other hold
        · obtain rfl : other = mac := by simpa using hnew
          exact fun _ => hload
      · exact h.calls herase
    | post req =>
      have hcovers : ∀ old ∈ s.pending, req.Covers old := hlost (.post req) hcall
      refine { waiting := ?_, due := h.due, isOpen := ?_, posted := herase, kept := h.kept }
      · intro p hp
        refine ⟨req, rfl, ?_⟩
        rcases List.mem_append.mp hp with hold | hnew
        · -- the request in the mailbox is replaced by one that covers it
          obtain ⟨old, hpending, hcov⟩ := h.waiting p hold
          rcases hcovers old hpending with hall | rfl
          · exact .inl hall
          · exact hcov
        · obtain rfl := List.mem_singleton.mp hnew
          exact .inr rfl
      · intro p hp
        rcases List.mem_append.mp hp with hwait | hdue
        · rcases List.mem_append.mp hwait with hold | hnew
          · exact h.isOpen p (List.mem_append_left _ hold)
          · obtain rfl := List.mem_singleton.mp hnew
            exact h.open_post (List.mem_of_getElem? hcall)
        · exact h.isOpen p (List.mem_append_right _ hdue)

theorem Held.due_eq_nil (h : Held d s) (hidle : s.draining = none) : d.due = [] := by
  refine List.eq_nil_iff_forall_not_mem.mpr fun p hp => ?_
  obtain ⟨req, hreq, -⟩ := h.due p hp
  simp [hidle] at hreq

/-- The mailbox is emptied. -/
theorem Held.drainBegin (h : Held d s) (hidle : s.draining = none) :
    Held (d.next .drainBegin) { s with pending := none, draining := s.pending } := by
  have hdue := h.due_eq_nil hidle
  refine { waiting := by simp [Promises.next], due := ?_, isOpen := ?_, posted := h.posted
           kept := h.kept }
  · simpa [Promises.next, hdue] using h.waiting
  · intro p hp
    exact h.isOpen p (by simpa [Promises.next, hdue] using hp)

/-- What is promised by now is not in the file that a drain writes. -/
theorem Held.not_mem_drained (h : Held d s) (hlost : NoneLost d s (.drain true))
    {req : ForgetRequest} (hreq : s.draining = some req) {p : Promise} (hp : p ∈ d.due)
    {mac : BbMac} (hmac : mac ∈ (p.spare s.apMac).macs) :
    mac ∉ (lcPeersForget s.apMac s.peers req true).2 := by
  obtain ⟨hmac, hspare⟩ := mem_spare.mp hmac
  obtain ⟨hnamed, hread⟩ := h.isOpen p (List.mem_append_right _ hp)
  obtain ⟨_, hmem, hcov⟩ := h.due p hp
  obtain rfl : req = _ := by simpa [hreq] using hmem
  have hap : s.apMac ≠ some mac := by
    by_cases hall : p.req = .all
    · exact hspare hall
    · exact hlost (by simp [hreq]) p hp hall mac hmac
  rcases hcov with rfl | rfl
  · exact fun hfile => hap (eq_of_mem_lcPeersForget_all hfile)
  · cases hp' : p.req with
    | all => exact fun hfile => hap (eq_of_mem_lcPeersForget_all hfile)
    | one target =>
      obtain rfl : mac = target := by
        simpa [hp', ForgetRequest.names] using hnamed mac hmac
      refine not_mem_lcPeersForget (hread (by simp [hp']) mac hmac) ?_ ?_
      · simp [ForgetRequest.drops]
      · rintro ap hmem heq
        obtain rfl : mac = ap := by simpa using heq
        exact hap hmem

/-- The file is without what was asked for, and the drain is over. -/
theorem Held.drainEnd (h : Held d s) (hlost : NoneLost d s (.drain true)) {req : ForgetRequest}
    (hreq : s.draining = some req) :
    Held (d.next (.drainEnd s.apMac))
      { s with peers := (lcPeersForget s.apMac s.peers req true).2, draining := none } := by
  have hfile : Held d { s with peers := (lcPeersForget s.apMac s.peers req true).2 } :=
    h.rewritten lcPeersForget_rewritten fun p hp mac hmac hin =>
      h.kept p hp mac hmac (lcPeersForget_subset hin)
  refine { waiting := hfile.waiting, due := by simp [Promises.next], isOpen := ?_
           posted := hfile.posted, kept := ?_ }
  · intro p hp
    exact hfile.isOpen p (List.mem_append_left _ (by simpa [Promises.next] using hp))
  · intro p hp mac hmac
    rcases List.mem_append.mp hp with hold | hnew
    · exact hfile.kept p hold mac hmac
    · obtain ⟨p, hdue, rfl⟩ := List.mem_map.mp hnew
      exact h.not_mem_drained hlost hreq hdue hmac

theorem Held.drain (h : Held d s) {saveOk : Bool} (hlost : NoneLost d s (.drain saveOk))
    (hsaves : (PeersAction.drain saveOk).Saves) :
    Held (d.after (drainForgetRequest saveOk s).2) (drainForgetRequest saveOk s).1 := by
  obtain rfl : saveOk = true := by simpa [PeersAction.Saves] using hsaves
  unfold drainForgetRequest
  cases hreq : s.draining with
  | none =>
    cases hpending : s.pending with
    | none =>
      -- there is no promise to be kept
      have hbegin : Held (d.next .drainBegin) s := by
        have hstate : { s with pending := none, draining := s.pending } = s := by
          cases s
          simp_all
        exact hstate ▸ h.drainBegin hreq
      have hdue := hbegin.due_eq_nil hreq
      have hend : (d.next .drainBegin).next (.drainEnd s.apMac) = d.next .drainBegin := by
        generalize d.next .drainBegin = d' at hdue ⊢
        cases d'
        simp_all [Promises.next]
      exact (congrArg (Held · s) hend).mpr hbegin
    | some req =>
      have hbegin := h.drainBegin hreq
      rw [hpending] at hbegin
      exact hbegin
  | some req =>
    dsimp only
    have hend := h.drainEnd hlost hreq
    split_ifs
    · rw [after_lcPeersPush]
      exact hend
    · exact hend

theorem Held.release (h : Held d s) (ap : BbMac) : Held (d.next (.noted ap)) s := by
  refine { waiting := ?_, due := ?_, isOpen := ?_, posted := h.posted, kept := ?_ }
  · intro p hp
    obtain ⟨q, hq, rfl⟩ := List.mem_map.mp hp
    exact h.waiting q hq
  · intro p hp
    obtain ⟨q, hq, rfl⟩ := List.mem_map.mp hp
    exact h.due q hq
  · intro p hp
    obtain ⟨q, hq, rfl⟩ : ∃ q ∈ d.waiting ++ d.due, q.release ap = p := by
      simpa only [Promises.next, ← List.map_append, List.mem_map] using hp
    obtain ⟨hnamed, hread⟩ := h.isOpen q hq
    exact ⟨fun mac hmac => hnamed mac (mem_release.mp hmac).1,
      fun hreq mac hmac => hread hreq mac (mem_release.mp hmac).1⟩
  · intro p hp mac hmac
    obtain ⟨q, hq, rfl⟩ := List.mem_map.mp hp
    exact h.kept q hq mac (mem_release.mp hmac).1

theorem Held.note (h : Held d s) (saveOk : Bool) :
    Held (d.after (noteApMac saveOk s).2) (noteApMac saveOk s).1 := by
  unfold noteApMac
  split
  · rename_i file _ hfile
    obtain ⟨ap, hap, hrewritten, hmem⟩ := lcPeersNoteApMac_eq_some hfile
    have hlist : s.apMac.toList.map PeersEvent.noted = [.noted ap] := by simp [hap]
    have hafter : d.after (s.apMac.toList.map .noted ++ lcPeersPush s.apMac file) =
        d.next (.noted ap) := by
      rw [hlist]
      exact (congrArg _ (List.append_nil _).symm).trans (after_lcPeersPush _ _ _ [])
    rw [hafter]
    refine (h.release ap).rewritten hrewritten fun p hp mac hmac hin => ?_
    obtain ⟨q, hq, rfl⟩ := List.mem_map.mp hp
    obtain ⟨hmac, hne⟩ := mem_release.mp hmac
    rcases hmem mac hin with rfl | hold
    · exact hne rfl
    · exact h.kept q hq mac hmac hold
  · exact h

/-- A step that loses no request keeps account and state together. -/
theorem Held.step (h : Held d s) {cfg : LcConfig} {a : PeersAction} (hlost : NoneLost d s a)
    (hsaves : a.Saves) : Held (d.after (peersStep cfg s a).2) (peersStep cfg s a).1 := by
  cases a with
  | request arg => exact h.request cfg arg
  | http n => exact h.http hlost
  | drain saveOk => exact h.drain hlost hsaves
  | note saveOk => exact h.note saveOk
  | bind mac => exact ⟨h.waiting, h.due, h.isOpen, h.posted, h.kept⟩

end Step

/-! ### Runs -/

section Run

variable (cfg : LcConfig) (apMac : Option BbMac) (peers : List BbMac)

/-- No step of a run loses a request. -/
def RequestsKept (actions : List PeersAction) : Prop :=
  Always (fun past a =>
    NoneLost (promises (peersRun cfg apMac peers past).2) (peersRun cfg apMac peers past).1 a)
    actions

instance (actions : List PeersAction) : Decidable (RequestsKept cfg apMac peers actions) :=
  inferInstanceAs (Decidable (Always _ actions))

variable {cfg apMac peers} {actions : List PeersAction}

theorem peersRun_held (h : RequestsKept cfg apMac peers actions)
    (hsaves : ∀ a ∈ actions, a.Saves) :
    Held (promises (peersRun cfg apMac peers actions).2) (peersRun cfg apMac peers actions).1 := by
  induction actions using List.reverseRecOn with
  | nil => constructor <;> simp [peersRun, promises, Promises.Kept]
  | append_singleton actions a ih =>
    obtain ⟨hpast, hlost⟩ := always_concat_iff.mp h
    rw [peersRun, Mealy.run_concat, promises_append]
    exact (ih hpast fun x hx => hsaves x (by simp [hx])).step hlost (hsaves a (by simp))

/-- **Accepted requests take effect.** In every interleaving of HTTP threads with the lifecycle
thread in which a request in the mailbox is replaced by one that covers it only, and a MAC asked
to be forgotten is not `ap_mac` at its drain, what the calls accepted before a drain have asked
for is gone from `ar8030.peers` at its end, and stays so until recorded again. -/
theorem forget_takes_effect (h : RequestsKept cfg apMac peers actions)
    (hsaves : ∀ a ∈ actions, a.Saves) :
    (promises (peersRun cfg apMac peers actions).2).Kept (peersRun cfg apMac peers actions).1 :=
  (peersRun_held h hsaves).kept

end Run

/-! ### Two requests in one tick -/

/-- The DEV's side of `plainCfg`, with a configuration file. -/
def groundCfg : LcConfig := { plainCfg .dev with hasCfgPath := true }

/-- Two earlier air units. -/
def earlierMacs : List BbMac := [⟨0xe6, 0x64, 0xe3, 0x9d⟩, ⟨0xca, 0xfe, 0xba, 0xbe⟩]

/-- A call that is accepted when no other is under way. -/
def forgetCall (arg : ForgetArg) : List PeersAction :=
  .request arg :: List.replicate (if arg = .null then 1 else 3) (.http 0)

/-- Both are asked to be forgotten, each before a drain of its own. -/
theorem forget_takes_effect_drained :
    (promises (peersRun groundCfg none earlierMacs
        (earlierMacs.flatMap fun mac =>
          forgetCall (.text mac) ++ List.replicate 2 (.drain true))).2).Kept
      (peersRun groundCfg none earlierMacs
        (earlierMacs.flatMap fun mac =>
          forgetCall (.text mac) ++ List.replicate 2 (.drain true))).1 :=
  forget_takes_effect (by decide) (by decide)

/-- The second request before a drain takes the place of the first. -/
theorem not_kept_two_requests :
    ¬(promises (peersRun groundCfg none earlierMacs
        ((earlierMacs.flatMap fun mac => forgetCall (.text mac)) ++
          List.replicate 2 (.drain true))).2).Kept
      (peersRun groundCfg none earlierMacs
        ((earlierMacs.flatMap fun mac => forgetCall (.text mac)) ++
          List.replicate 2 (.drain true))).1 := by
  intro hkept
  have hfirst := hkept ⟨.one ⟨0xe6, 0x64, 0xe3, 0x9d⟩, [⟨0xe6, 0x64, 0xe3, 0x9d⟩]⟩ (by decide)
  exact absurd (hfirst ⟨0xe6, 0x64, 0xe3, 0x9d⟩ (by decide)) (by decide)

end Ar8030

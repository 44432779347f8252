import Ar8030Transport.Library.Trace
import Mathlib.Data.Option.Basic

/-!
# Noticing a restarted encoder

At every start waybeam unlinks the name of its ring and creates a new object under it. Whoever
has mapped the old object reads on in it, and nothing tells that it is an orphan. So the sender
records `st_dev` and `st_ino` of the object it attached to, and at every read timeout compares
them with those of the object the name resolves to by then (`stat_named_shm`).

The ring is attached and its identity recorded by two lookups of the same name. `BaselineSound`
says that the second finds the object the first one found, and this is just what is needed:
`missed_of_recreation` shows a single recreation in between to go unnoticed.
-/

namespace Ar8030

open Trace

/-! ### The name and its objects -/

/-- `st_dev` and `st_ino`. -/
structure ShmStat where
  dev : UInt64
  ino : UInt64
  deriving DecidableEq, Repr

/-- What is recorded of an object when its `fstat` has failed. -/
def ShmStat.unknown : ShmStat := ⟨0, 0⟩

/-- The object created as number `serial`. No file has inode number 0. -/
structure ShmObject where
  serial : ℕ
  stat : ShmStat
  ino_ne_zero : stat.ino ≠ 0
  deriving DecidableEq, Repr

theorem ShmObject.stat_ne_unknown (o : ShmObject) : o.stat ≠ .unknown := by
  intro h
  exact o.ino_ne_zero (congrArg ShmStat.ino h)

/-- The objects created under the name, and the one it resolves to. -/
structure Shm where
  created : List ShmObject
  name : Option ShmObject
  name_mem : ∀ o ∈ name, o ∈ created
  stat_inj : ∀ o ∈ created, ∀ p ∈ created, o.stat = p.stat → o = p

namespace Shm

/-- Before waybeam first runs. -/
def empty : Shm := ⟨[], none, by simp, by simp⟩

/-- `shm_unlink`. -/
def unlink (m : Shm) : Shm := ⟨m.created, none, by simp, m.stat_inj⟩

/-- `shm_open` with `O_CREAT | O_EXCL`: a new object, with an identity no other object has
or has had. -/
def create (m : Shm) (st : ShmStat) : Shm :=
  if h : m.name = none ∧ st.ino ≠ 0 ∧ ∀ o ∈ m.created, o.stat ≠ st then
    { created := m.created ++ [⟨m.created.length, st, h.2.1⟩]
      name := some ⟨m.created.length, st, h.2.1⟩
      name_mem := by simp
      stat_inj := by
        simp only [List.mem_append, List.mem_singleton]
        rintro o (ho | rfl) p (hp | rfl) heq
        · exact m.stat_inj o ho p hp heq
        · exact absurd heq (h.2.2 o ho)
        · exact absurd heq.symm (h.2.2 p hp)
        · rfl }
  else m

theorem created_subset_create (m : Shm) (st : ShmStat) : m.created ⊆ (m.create st).created := by
  intro o ho
  rw [create]
  split_ifs
  · exact List.mem_append_left _ ho
  · exact ho

/-- `stat_named_shm`. It fails when the name does not resolve, or when a call does. -/
def statNamedShm (m : Shm) (ok : Bool) : Option ShmStat :=
  if ok then m.name.map ShmObject.stat else none

/-- `venc_frame_ring_attach`: the object the name resolves to, unless its header is not
complete or a call fails. The name is looked up once, by `shm_open`. -/
def attach (m : Shm) (ok : Bool) : Option ShmObject :=
  if ok then m.name else none

theorem statNamedShm_eq_some {m : Shm} {ok : Bool} {st : ShmStat} :
    m.statNamedShm ok = some st ↔ ok = true ∧ ∃ o ∈ m.name, o.stat = st := by
  cases ok <;> simp [statNamedShm]

theorem attach_mem {m : Shm} {ok : Bool} {o : ShmObject} (h : m.attach ok = some o) :
    o ∈ m.created := by
  cases ok with
  | false => simp [attach] at h
  | true => exact m.name_mem o h

end Shm

/-! ### The sender -/

/-- Where the sender is: attaching to the ring or recording its identity, at startup or after a
restart of waybeam, or in its main loop. -/
inductive RingPhase where
  | startupAttach
  | startupBaseline
  | reading
  | reattach
  | reattachBaseline
  deriving DecidableEq, Repr

/-- `ring`, and `ring_dev` and `ring_ino`. -/
structure RingReader where
  phase : RingPhase
  ring : Option ShmObject
  ringId : ShmStat
  deriving DecidableEq, Repr

/-- At a read timeout the sender goes on with the ring it has. -/
def RingReader.keeps (tx : RingReader) (m : Shm) (ok : Bool) : Bool :=
  m.statNamedShm ok = some tx.ringId

/-- The sender goes on: an attempt to attach, a baseline, or a read timeout. -/
def RingReader.step (tx : RingReader) (m : Shm) (ok : Bool) : RingReader :=
  match tx.phase with
  | .startupAttach =>
    match m.attach ok with
    | some o => ⟨.startupBaseline, some o, .unknown⟩
    | none => tx
  | .startupBaseline =>
    -- the variables keep their initial 0 when the call fails
    { tx with phase := .reading, ringId := (m.statNamedShm ok).getD tx.ringId }
  | .reading =>
    if tx.keeps m ok then tx else { tx with phase := .reattach, ring := none }
  | .reattach =>
    match m.attach ok with
    | some o => { tx with phase := .reattachBaseline, ring := some o }
    | none => tx
  | .reattachBaseline =>
    match m.statNamedShm ok with
    | some st => { tx with phase := .reading, ringId := st }
    | none => { tx with phase := .reading, ringId := .unknown }

/-- waybeam, the sender and what is between them. -/
structure ShmWorld where
  shm : Shm
  tx : RingReader

/-- What can happen. A start of waybeam is an `unlink` and a `create`. -/
inductive ShmAction where
  | unlink
  | create (st : ShmStat)
  /-- The sender goes on, and its calls succeed or fail. -/
  | tx (ok : Bool)
  deriving DecidableEq, Repr

def ShmWorld.step (w : ShmWorld) : ShmAction → ShmWorld
  | .unlink => { w with shm := w.shm.unlink }
  | .create st => { w with shm := w.shm.create st }
  | .tx ok => { w with tx := w.tx.step w.shm ok }

/-- A run from the start of the sender, which finds the name in any state. -/
def shmRun (m : Shm) (actions : List ShmAction) : ShmWorld :=
  actions.foldl ShmWorld.step ⟨m, ⟨.startupAttach, none, .unknown⟩⟩

/-! ### What is required, and what follows -/

/-- When the sender goes on at a read timeout, the ring it has is the one of that name. -/
def KeepsCurrent (w : ShmWorld) (a : ShmAction) : Prop :=
  ∀ ok, a = .tx ok → w.tx.phase = .reading → w.tx.keeps w.shm ok = true → w.tx.ring = w.shm.name

/-- The sender is about to record the identity of its ring. -/
def RingReader.IsBaseline (tx : RingReader) : Prop :=
  tx.phase = .startupBaseline ∨ tx.phase = .reattachBaseline

instance (tx : RingReader) : Decidable tx.IsBaseline :=
  inferInstanceAs (Decidable (_ ∨ _))

/-- The identity recorded is not that of another object than the one attached to. -/
def BaselineSound (w : ShmWorld) (a : ShmAction) : Prop :=
  a = .tx true → w.tx.IsBaseline → w.shm.name = none ∨ w.shm.name = w.tx.ring

instance (w : ShmWorld) (a : ShmAction) : Decidable (BaselineSound w a) :=
  inferInstanceAs (Decidable (_ → _ → _ ∨ _))

/-- The sender's ring exists, and what it has recorded is about this ring or nothing. -/
structure Identified (w : ShmWorld) : Prop where
  ring_mem : ∀ o ∈ w.tx.ring, o ∈ w.shm.created
  initial : w.tx.phase = .startupBaseline → w.tx.ringId = .unknown
  recorded : w.tx.phase = .reading → w.tx.ringId = .unknown ∨ ∃ o ∈ w.tx.ring, o.stat = w.tx.ringId

/-- waybeam creating and unlinking its ring does not matter to what the sender has. -/
theorem Identified.of_created {w : ShmWorld} (h : Identified w) {m : Shm}
    (hm : w.shm.created ⊆ m.created) : Identified { w with shm := m } :=
  ⟨fun o ho => hm (h.ring_mem o ho), h.initial, h.recorded⟩

/-- What a baseline records, if it is sound. -/
theorem baseline_recorded {w : ShmWorld} {ok : Bool} (hsound : BaselineSound w (.tx ok))
    (hphase : w.tx.IsBaseline) {st : ShmStat} (hst : w.shm.statNamedShm ok = some st) :
    ∃ o ∈ w.tx.ring, o.stat = st := by
  obtain ⟨rfl, o, ho, rfl⟩ := Shm.statNamedShm_eq_some.mp hst
  rcases hsound rfl hphase with hnone | hring
  · simp [hnone] at ho
  · exact ⟨o, hring ▸ ho, rfl⟩

theorem Identified.tx_step {w : ShmWorld} {ok : Bool} (h : Identified w)
    (hsound : BaselineSound w (.tx ok)) : Identified (w.step (.tx ok)) := by
  rw [ShmWorld.step, RingReader.step]
  cases hphase : w.tx.phase with
  | startupAttach =>
    cases hobj : w.shm.attach ok with
    | none => simpa [hobj] using h
    | some o => exact ⟨by simpa using Shm.attach_mem hobj, fun _ => rfl, by simp⟩
  | startupBaseline =>
    refine ⟨h.ring_mem, by simp, fun _ => ?_⟩
    cases hst : w.shm.statNamedShm ok with
    | none => exact .inl (h.initial hphase)
    | some st => exact .inr (baseline_recorded hsound (.inl hphase) hst)
  | reading =>
    dsimp only
    split_ifs
    · exact h
    · exact ⟨by simp, by simp, by simp⟩
  | reattach =>
    cases hobj : w.shm.attach ok with
    | none => simpa [hobj] using h
    | some o => exact ⟨by simpa using Shm.attach_mem hobj, by simp, by simp⟩
  | reattachBaseline =>
    cases hst : w.shm.statNamedShm ok with
    | none => exact ⟨h.ring_mem, by simp, fun _ => .inl rfl⟩
    | some st =>
      exact ⟨h.ring_mem, by simp, fun _ => .inr (baseline_recorded hsound (.inr hphase) hst)⟩

theorem Identified.step {w : ShmWorld} {a : ShmAction} (h : Identified w)
    (hsound : BaselineSound w a) : Identified (w.step a) := by
  cases a with
  | unlink => exact h.of_created (List.Subset.refl _)
  | create st => exact h.of_created (w.shm.created_subset_create st)
  | tx ok => exact h.tx_step hsound

/-- The object of the recorded identity is the one attached to. -/
theorem Identified.keepsCurrent {w : ShmWorld} (h : Identified w) (a : ShmAction) :
    KeepsCurrent w a := by
  rintro ok - hphase hkeeps
  obtain ⟨-, o, ho, hid⟩ := Shm.statNamedShm_eq_some.mp (of_decide_eq_true hkeeps)
  rcases h.recorded hphase with hunknown | ⟨p, hp, hring⟩
  · exact absurd (hid.trans hunknown) o.stat_ne_unknown
  · have hsame : p = o :=
      w.shm.stat_inj p (h.ring_mem p hp) o (w.shm.name_mem o ho) (hring.trans hid.symm)
    rw [Option.mem_def.mp hp, Option.mem_def.mp ho, hsame]

/-! ### Runs -/

theorem shmRun_concat (m : Shm) (actions : List ShmAction) (a : ShmAction) :
    shmRun m (actions ++ [a]) = (shmRun m actions).step a := by
  simp [shmRun]

/-- All baselines of a run are sound. -/
def BaselinesSound (m : Shm) : List ShmAction → Prop :=
  Always fun past a => BaselineSound (shmRun m past) a

instance (m : Shm) (actions : List ShmAction) : Decidable (BaselinesSound m actions) :=
  inferInstanceAs (Decidable (Always _ actions))

theorem shmRun_identified {m : Shm} {actions : List ShmAction} (h : BaselinesSound m actions) :
    Identified (shmRun m actions) := by
  induction actions using List.reverseRecOn with
  | nil => exact ⟨by simp [shmRun], by simp [shmRun], by simp [shmRun]⟩
  | append_singleton actions a ih =>
    obtain ⟨hpast, hlast⟩ := always_concat_iff.mp h
    rw [shmRun_concat]
    exact (ih hpast).step hlast

/-- **A restart is noticed.** In every interleaving of restarts of waybeam with the steps of the
sender in which no identity is recorded for another object than the one attached to, the sender
goes on at a read timeout only with the ring that has its name. -/
theorem restart_noticed {m : Shm} {actions : List ShmAction} (h : BaselinesSound m actions) :
    Always (fun past a => KeepsCurrent (shmRun m past) a) actions := by
  intro past a post heq
  exact (shmRun_identified (Always.of_append (heq ▸ h))).keepsCurrent a

/-- waybeam runs, the sender attaches and records the identity, and then has a read timeout. -/
def attachAndRead : List ShmAction := [.create ⟨1, 1⟩, .tx true, .tx true, .tx true]

/-- waybeam restarts before the timeout. -/
theorem restart_noticed_restart :
    Always (fun past a => KeepsCurrent (shmRun .empty past) a)
      (attachAndRead ++ [.unlink, .create ⟨1, 2⟩] ++ List.replicate 4 (.tx true)) :=
  restart_noticed (by decide)

/-- A baseline that is not sound hides the restart from the next timeout. -/
theorem missed_of_recreation {w : ShmWorld} (hphase : w.tx.IsBaseline) {o : ShmObject}
    (ho : w.shm.name = some o) (hring : w.tx.ring ≠ some o) :
    ¬KeepsCurrent (w.step (.tx true)) (.tx true) := by
  intro hkeeps
  rcases hphase with hphase | hphase
  · have h := hkeeps true rfl
    simp only [ShmWorld.step, RingReader.step, hphase, RingReader.keeps, Shm.statNamedShm, ho,
      if_true, Option.map_some, Option.getD_some] at h
    exact hring (h trivial (by simp))
  · have h := hkeeps true rfl
    simp only [ShmWorld.step, RingReader.step, hphase, RingReader.keeps, Shm.statNamedShm, ho,
      if_true, Option.map_some] at h
    exact hring (h trivial (by simp))

/-- waybeam restarts between the lookup that attaches and the one that records. -/
theorem not_keepsCurrent_recreated :
    ¬Always (fun past a => KeepsCurrent (shmRun .empty past) a)
      [.create ⟨1, 1⟩, .tx true, .unlink, .create ⟨1, 2⟩, .tx true, .tx true] := by
  intro h
  have hkeeps := h [.create ⟨1, 1⟩, .tx true, .unlink, .create ⟨1, 2⟩, .tx true] (.tx true) [] rfl
  exact absurd (hkeeps true rfl (by decide) (by decide)) (by decide)

end Ar8030

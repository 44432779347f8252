import Mathlib.Data.List.Basic
import Mathlib.Logic.Function.Basic
import Ar8030Transport.Library.Trace

/-!
# Writers of the chip's FIFO

Everything the host sends to the chip goes through `artosyn_write_chunk`
(`kmod/artosyn_sdio.c`), which hands over at most one TX-ready window's worth of bytes, in whole
blocks once there is more than one block. The callers hold `tx_mutex`, but not for equally long:
the network device's `artosyn_write_all` holds it until its frame is through, `write()` on the
character device (`artosyn_do_write`) only for one chunk, and the daemon behind it calls again
with the rest.

So a daemon's frame can stand cut in the FIFO with the mutex free. So can a frame of the network
device: when a chunk fails, for want of a window or because the transfer broke off,
`artosyn_write_all` unlocks and drops the rest of it. `Locked` says that nobody takes the mutex
behind another writer's cut frame, nor behind one that is not going to be continued, and that is
enough for the FIFO, whatever the windows. A frame that is handed over in one chunk is never cut
(`lockedRun_of_takenWhole`).
-/

namespace Ar8030

open Trace

/-! ### One chunk -/

/-- What bounds a chunk: `SDIO_TRANS_MAX_SZIE` and the function's block size. -/
structure SdioFunc where
  transMax : ℕ
  curBlksize : ℕ

/-- The byte count of `artosyn_write_chunk`, asked to write `count` bytes into a window with
`room` bytes left. -/
def SdioFunc.chunkSize (func : SdioFunc) (count room : ℕ) : ℕ :=
  let count := min (min count room) func.transMax
  if func.curBlksize < count then count - count % func.curBlksize else count

theorem SdioFunc.chunkSize_le (func : SdioFunc) (count room : ℕ) :
    func.chunkSize count room ≤ count := by
  rw [chunkSize]
  split_ifs <;> omega

/-- Exactly these requests are met in full. -/
theorem SdioFunc.chunkSize_eq_iff (func : SdioFunc) {count room : ℕ} :
    func.chunkSize count room = count ↔
      count ≤ room ∧ count ≤ func.transMax ∧
        (count ≤ func.curBlksize ∨ func.curBlksize ∣ count) := by
  rw [chunkSize]
  constructor
  · intro h
    split_ifs at h with hblk
    · have hmin : min (min count room) func.transMax = count := by omega
      rw [hmin] at h
      exact ⟨by omega, by omega, .inr (Nat.dvd_of_mod_eq_zero (by omega))⟩
    · exact ⟨by omega, by omega, .inl (by omega)⟩
  · rintro ⟨hroom, hmax, hblk⟩
    have hmin : min (min count room) func.transMax = count := by omega
    rw [hmin]
    split_ifs with hlt
    · have hdvd := hblk.resolve_left (by omega)
      rw [Nat.mod_eq_zero_of_dvd hdvd, Nat.sub_zero]
    · rfl

/-! ### The writers -/

variable {W : Type*} [DecidableEq W]

/-- The device with its writers: the current window, the holder of `tx_mutex`, the frame each
writer is writing with the number of its bytes already accepted, and what has reached the FIFO,
byte by byte with its writer. `done` keeps the frames each writer is through with, and `torn` the
last frame that a failed chunk has left in the FIFO with bytes its writer will not continue
behind: given up by the network device, or bytes of a broken transfer, which a daemon will write
again. -/
structure Fifo (W : Type*) where
  writeOffset : ℕ
  writeValidSize : ℕ
  txMutex : Option W
  writing : W → Option (List UInt8 × ℕ)
  done : W → List (List UInt8)
  torn : Option (W × List UInt8 × ℕ)
  fifo : List (W × UInt8)

/-- Nothing written, no window. -/
def Fifo.init : Fifo W where
  writeOffset := 0
  writeValidSize := 0
  txMutex := none
  writing := fun _ => none
  done := fun _ => []
  torn := none
  fifo := []

/-- A step of the device or of a writer. -/
inductive FifoAction (W : Type*) where
  /-- A TX-ready event. -/
  | txReady (size : ℕ)
  /-- A writer starts on a frame. -/
  | submit (w : W) (frame : List UInt8)
  /-- A writer takes `tx_mutex`. -/
  | lock (w : W)
  /-- The holder of `tx_mutex` writes one chunk, and unlocks after it: a daemon always, the
  network device when its frame is through. -/
  | chunk (w : W)
  /-- The holder's call of `artosyn_write_chunk` fails: no window came in time, the device is
  gone, or `sdio_memcpy_toio` broke off behind `sent` bytes. -/
  | fail (w : W) (sent : ℕ)

/-- The bytes `artosyn_write_chunk` hands over for the rest of a frame. The daemon asks for at most
`SDIO_TRANS_MAX_SZIE` bytes (`artosyn_fops_write`). -/
def Fifo.chunkCount (func : SdioFunc) (daemon : W → Bool) (s : Fifo W) (w : W)
    (frame : List UInt8) (off : ℕ) : ℕ :=
  let left := frame.length - off
  func.chunkSize (if daemon w then min left func.transMax else left)
    (s.writeValidSize - s.writeOffset)

/-- `artosyn_write_chunk` for the rest of a frame and the end of the call around it. Without a byte
written the call returns `-EAGAIN`: the daemon comes back later, `artosyn_write_all` keeps the
mutex. -/
def Fifo.writeChunk (func : SdioFunc) (daemon : W → Bool) (s : Fifo W) (w : W)
    (frame : List UInt8) (off : ℕ) : Fifo W :=
  let count := s.chunkCount func daemon w frame off
  if count = 0 then { s with txMutex := if daemon w then none else some w }
  else
    let s := { s with
      writeOffset := s.writeValidSize
      fifo := s.fifo ++ ((frame.drop off).take count).map (w, ·) }
    if off + count = frame.length then
      { s with
        txMutex := none
        writing := Function.update s.writing w none
        done := Function.update s.done w (s.done w ++ [frame]) }
    else
      { s with
        txMutex := if daemon w then none else some w
        writing := Function.update s.writing w (some (frame, off + count)) }

/-- A chunk that fails behind `sent` bytes. Both calls around it unlock; `artosyn_write_all` gives
its frame up, the daemon will ask for the same bytes again. -/
def Fifo.failChunk (daemon : W → Bool) (s : Fifo W) (w : W) (frame : List UInt8) (off sent : ℕ) :
    Fifo W :=
  let s := { s with
    txMutex := none
    fifo := s.fifo ++ ((frame.drop off).take sent).map (w, ·) }
  if daemon w then
    { s with torn := if sent = 0 then s.torn else some (w, frame, off + sent) }
  else
    { s with
      writing := Function.update s.writing w none
      torn := if off + sent = 0 then s.torn else some (w, frame, off + sent) }

/-- One step; a step that the mutex or the window does not allow yet does nothing. -/
def Fifo.step (func : SdioFunc) (daemon : W → Bool) (s : Fifo W) : FifoAction W → Fifo W
  | .txReady size => { s with writeOffset := 0, writeValidSize := size }
  | .submit w frame =>
    if frame = [] ∨ (s.writing w).isSome then s
    else { s with writing := Function.update s.writing w (some (frame, 0)) }
  | .lock w =>
    if s.txMutex.isSome ∨ s.writing w = none then s else { s with txMutex := some w }
  | .chunk w =>
    if s.txMutex = some w ∧ s.writeOffset < s.writeValidSize then
      match s.writing w with
      | none => s
      | some (frame, off) => s.writeChunk func daemon w frame off
    else s
  | .fail w sent =>
    if s.txMutex = some w then
      match s.writing w with
      | none => s
      | some (frame, off) =>
        s.failChunk daemon w frame off (min sent (s.chunkCount func daemon w frame off))
    else s

/-- A run of the device and its writers. -/
def fifoRun (func : SdioFunc) (daemon : W → Bool) (actions : List (FifoAction W)) : Fifo W :=
  actions.foldl (Fifo.step func daemon) .init

/-- The writer's frame stands cut in the FIFO. -/
def Fifo.Cut (s : Fifo W) (w : W) : Prop := ∃ frame off, s.writing w = some (frame, off) ∧ 0 < off

/-- The frames as they stand in the FIFO. -/
def frameBytes (frames : List (W × List UInt8)) : List (W × UInt8) :=
  frames.flatMap fun p => p.2.map (p.1, ·)

/-- The last bytes in the FIFO are the first `n` of this frame: it is being written, or its write
has failed. -/
def Fifo.Begun (s : Fifo W) (w : W) (frame : List UInt8) (n : ℕ) : Prop :=
  s.writing w = some (frame, n) ∧ s.torn = none ∨ s.torn = some (w, frame, n)

/-- The FIFO is a concatenation of whole frames, those of each writer in its order, followed by
the beginning of at most one frame, which is still being written or whose write has failed. -/
def Fifo.Contiguous (s : Fifo W) : Prop :=
  ∃ (whole : List (W × List UInt8)) (rest : List (W × UInt8)),
    s.fifo = frameBytes whole ++ rest ∧
    (∀ w, (whole.filter (·.1 = w)).map Prod.snd = s.done w) ∧
    (rest = [] ∧ (∀ w, ¬ s.Cut w) ∧ s.torn = none ∨
      ∃ w frame n, s.Begun w frame n ∧ 0 < n ∧
        rest = (frame.take n).map (w, ·) ∧ ∀ v, v ≠ w → ¬ s.Cut v)

/-- `tx_mutex` is taken with no other writer's frame cut, and none torn. -/
def FifoAction.Locked (s : Fifo W) : FifoAction W → Prop
  | .lock w => s.txMutex = none → s.torn = none ∧ ∀ v, v ≠ w → ¬ s.Cut v
  | _ => True

/-- Every step of the run is. -/
def LockedRun (func : SdioFunc) (daemon : W → Bool) (actions : List (FifoAction W)) : Prop :=
  Always (fun past a => a.Locked (fifoRun func daemon past)) actions

/-- A daemon's chunk is all that is left of its frame: it fits the window and the transfer
limit, and is one block or less, or whole blocks. A chunk that fails leaves nothing in the FIFO. -/
def FifoAction.TakenWhole (func : SdioFunc) (daemon : W → Bool) (s : Fifo W) : FifoAction W → Prop
  | .chunk w => daemon w = true → ∀ p ∈ s.writing w,
      p.1.length - p.2 ≤ s.writeValidSize - s.writeOffset ∧ p.1.length - p.2 ≤ func.transMax ∧
        (p.1.length - p.2 ≤ func.curBlksize ∨ func.curBlksize ∣ p.1.length - p.2)
  | .fail w sent => ∀ p ∈ s.writing w, sent = 0 ∧ p.2 = 0
  | .txReady _ => True
  | .submit _ _ => True
  | .lock _ => True

instance (func : SdioFunc) (daemon : W → Bool) (s : Fifo W) :
    (a : FifoAction W) → Decidable (a.TakenWhole func daemon s)
  | .chunk w => inferInstanceAs (Decidable (daemon w = true → ∀ p ∈ s.writing w, _ ∧ _ ∧ _))
  | .fail w _ => inferInstanceAs (Decidable (∀ p ∈ s.writing w, _ ∧ _))
  | .txReady _ => inferInstanceAs (Decidable True)
  | .submit _ _ => inferInstanceAs (Decidable True)
  | .lock _ => inferInstanceAs (Decidable True)

/-! ### Cut frames -/

section Cut

omit [DecidableEq W]

variable {s : Fifo W}

theorem Fifo.cut_iff {w : W} {frame : List UInt8} {off : ℕ} (h : s.writing w = some (frame, off)) :
    s.Cut w ↔ 0 < off := by
  refine ⟨?_, fun hpos => ⟨frame, off, h, hpos⟩⟩
  rintro ⟨frame', off', h', hpos⟩
  obtain ⟨rfl, rfl⟩ : frame = frame' ∧ off = off' := by simpa using h.symm.trans h'
  exact hpos

theorem Fifo.not_cut_of_none {w : W} (h : s.writing w = none) : ¬ s.Cut w := by
  rintro ⟨frame, off, h', -⟩
  rw [h] at h'
  cases h'

theorem Fifo.cut_congr {s' : Fifo W} {w : W} (h : s'.writing w = s.writing w) :
    s'.Cut w ↔ s.Cut w := by
  rw [Cut, Cut, h]

end Cut

/-- What holds of a run between its steps. -/
structure FifoInv (daemon : W → Bool) (s : Fifo W) : Prop where
  off_lt : ∀ {w frame off}, s.writing w = some (frame, off) → off < frame.length
  /-- `artosyn_write_all` does not let go of a cut frame. -/
  kernel : ∀ {w}, daemon w = false → s.Cut w → s.txMutex = some w

/-- What holds in addition if the mutex is only taken with no other frame cut. -/
structure LockedInv (daemon : W → Bool) (s : Fifo W) : Prop extends FifoInv daemon s where
  holder : ∀ {w}, s.txMutex = some w → s.torn = none ∧ ∀ v, v ≠ w → ¬ s.Cut v
  contiguous : s.Contiguous

section Step

variable {func : SdioFunc} {daemon : W → Bool} {s : Fifo W} {w : W} {frame : List UInt8} {off : ℕ}

omit [DecidableEq W] in
theorem fifoInv_init : FifoInv daemon (.init : Fifo W) where
  off_lt h := by cases h
  kernel _ h := absurd h (Fifo.not_cut_of_none rfl)

theorem lockedInv_init : LockedInv daemon (.init : Fifo W) where
  toFifoInv := fifoInv_init
  holder h := by cases h
  contiguous := ⟨[], [], rfl, fun _ => rfl, .inl ⟨rfl, fun _ => Fifo.not_cut_of_none rfl, rfl⟩⟩

/-! Starting on a frame cuts nothing. -/

theorem cut_submit (hw : s.writing w = none) (v : W) :
    ({ s with writing := Function.update s.writing w (some (frame, 0)) } : Fifo W).Cut v ↔
      s.Cut v := by
  by_cases hv : v = w
  · subst hv
    have hnew : ({ s with writing := Function.update s.writing v (some (frame, 0)) } :
        Fifo W).writing v = some (frame, 0) := Function.update_self ..
    rw [Fifo.cut_iff hnew]
    simp [Fifo.not_cut_of_none hw]
  · exact Fifo.cut_congr (Function.update_of_ne hv _ _)

theorem FifoInv.submit (h : FifoInv daemon s) (hframe : frame ≠ []) (hw : s.writing w = none) :
    FifoInv daemon { s with writing := Function.update s.writing w (some (frame, 0)) } where
  off_lt := by
    intro v f n hv
    by_cases hvw : v = w
    · subst hvw
      simp only [Function.update_self, Option.some.injEq, Prod.mk.injEq] at hv
      obtain ⟨rfl, rfl⟩ := hv
      exact List.length_pos_of_ne_nil hframe
    · simp only [Function.update_of_ne hvw] at hv
      exact h.off_lt hv
  kernel hd hc := h.kernel hd ((cut_submit hw _).mp hc)

theorem LockedInv.submit (h : LockedInv daemon s) (hframe : frame ≠ []) (hw : s.writing w = none) :
    LockedInv daemon { s with writing := Function.update s.writing w (some (frame, 0)) } where
  toFifoInv := h.toFifoInv.submit hframe hw
  holder hm := ⟨(h.holder hm).1, fun v hv hc => (h.holder hm).2 v hv ((cut_submit hw v).mp hc)⟩
  contiguous := by
    obtain ⟨whole, rest, hfifo, hdone, hrest⟩ := h.contiguous
    refine ⟨whole, rest, hfifo, hdone, hrest.imp (fun hr => ⟨hr.1, fun v hc => ?_, hr.2.2⟩) ?_⟩
    · exact hr.2.1 v ((cut_submit hw v).mp hc)
    · rintro ⟨u, f, n, hu, hn, hr, hother⟩
      refine ⟨u, f, n, hu.imp_left fun hu => ⟨?_, hu.2⟩, hn, hr,
        fun v hv hc => hother v hv ((cut_submit hw v).mp hc)⟩
      have huw : u ≠ w := by
        rintro rfl
        rw [hw] at hu
        cases hu.1
      rw [← hu.1]
      exact Function.update_of_ne huw _ _

omit [DecidableEq W] in
/-- Taking the mutex: no frame of the network device is cut while it is free. -/
theorem FifoInv.lock (h : FifoInv daemon s) (hfree : s.txMutex = none) :
    FifoInv daemon { s with txMutex := some w } where
  off_lt := h.off_lt
  kernel hd hc := by
    have hm := h.kernel hd hc
    rw [hfree] at hm
    cases hm

theorem LockedInv.lock (h : LockedInv daemon s) (hfree : s.txMutex = none)
    (hw : s.torn = none ∧ ∀ v, v ≠ w → ¬ s.Cut v) :
    LockedInv daemon { s with txMutex := some w } where
  toFifoInv := h.toFifoInv.lock hfree
  holder hm := by
    obtain rfl := Option.some.inj hm
    exact hw
  contiguous := h.contiguous

/-! ### Writing a chunk -/

omit [DecidableEq W] in
theorem Fifo.chunkCount_le (s : Fifo W) (w : W) (frame : List UInt8) (off : ℕ) :
    s.chunkCount func daemon w frame off ≤ frame.length - off := by
  refine (func.chunkSize_le _ _).trans ?_
  split_ifs <;> omega

/-- What a chunk does to the device. -/
inductive ChunkWritten (daemon : W → Bool) (s : Fifo W) (w : W) (frame : List UInt8) (off : ℕ) :
    Fifo W → Prop where
  | again : ChunkWritten daemon s w frame off
      { s with txMutex := if daemon w then none else some w }
  | whole (count : ℕ) (h : off + count = frame.length) : ChunkWritten daemon s w frame off
      { s with
        writeOffset := s.writeValidSize
        fifo := s.fifo ++ ((frame.drop off).take count).map (w, ·)
        txMutex := none
        writing := Function.update s.writing w none
        done := Function.update s.done w (s.done w ++ [frame]) }
  | short (count : ℕ) (hpos : 0 < count) (h : off + count < frame.length) :
    ChunkWritten daemon s w frame off
      { s with
        writeOffset := s.writeValidSize
        fifo := s.fifo ++ ((frame.drop off).take count).map (w, ·)
        txMutex := if daemon w then none else some w
        writing := Function.update s.writing w (some (frame, off + count)) }

theorem chunkWritten_writeChunk (hoff : off < frame.length) :
    ChunkWritten daemon s w frame off (s.writeChunk func daemon w frame off) := by
  rw [Fifo.writeChunk]
  have hle : s.chunkCount func daemon w frame off ≤ frame.length - off := s.chunkCount_le ..
  generalize s.chunkCount func daemon w frame off = count at hle ⊢
  by_cases hzero : count = 0
  · rw [if_pos hzero]
    exact .again
  rw [if_neg hzero]
  by_cases hall : off + count = frame.length
  · rw [if_pos hall]
    exact .whole count hall
  · rw [if_neg hall]
    exact .short count (Nat.pos_of_ne_zero hzero) (by omega)

theorem ChunkWritten.cut_iff_of_ne {s' : Fifo W} (hs : ChunkWritten daemon s w frame off s') {v : W}
    (hv : v ≠ w) : s'.Cut v ↔ s.Cut v := by
  cases hs with
  | again => exact Iff.rfl
  | whole count hall => exact Fifo.cut_congr (Function.update_of_ne hv _ _)
  | short count hpos hlt => exact Fifo.cut_congr (Function.update_of_ne hv _ _)

theorem ChunkWritten.torn_eq {s' : Fifo W} (hs : ChunkWritten daemon s w frame off s') :
    s'.torn = s.torn := by
  cases hs with
  | again | whole | short => rfl

/-- The writer of a chunk has no other frame cut in front of it. -/
theorem Fifo.Contiguous.exists_whole (h : s.Contiguous) (hw : s.writing w = some (frame, off))
    (htorn : s.torn = none) (hother : ∀ v, v ≠ w → ¬ s.Cut v) :
    ∃ whole : List (W × List UInt8),
      s.fifo = frameBytes whole ++ (frame.take off).map (w, ·) ∧
        ∀ v, (whole.filter (·.1 = v)).map Prod.snd = s.done v := by
  obtain ⟨whole, rest, hfifo, hdone, hrest⟩ := h
  refine ⟨whole, ?_, hdone⟩
  rw [hfifo]
  obtain ⟨rfl, hnone, -⟩ | ⟨u, f, n, hbegun, hn, rfl, -⟩ := hrest
  · have hoff : off = 0 := by
      have hpos := hnone w
      rw [Fifo.cut_iff hw] at hpos
      omega
    rw [hoff]
    rfl
  · have hu : s.writing u = some (f, n) := by
      obtain ⟨hu, -⟩ | htorn' := hbegun
      · exact hu
      · rw [htorn] at htorn'
        cases htorn'
    obtain rfl : u = w := by
      by_contra hne
      exact hother u hne ⟨f, n, hu, hn⟩
    obtain ⟨rfl, rfl⟩ : f = frame ∧ n = off := by simpa using hu.symm.trans hw
    rfl

omit [DecidableEq W] in
/-- The bytes of a chunk go on where the FIFO ends. -/
theorem append_chunk {fifo : List (W × UInt8)} {whole : List (W × List UInt8)} (count : ℕ)
    (h : fifo = frameBytes whole ++ (frame.take off).map (w, ·)) :
    fifo ++ ((frame.drop off).take count).map (w, ·) =
      frameBytes whole ++ (frame.take (off + count)).map (w, ·) := by
  rw [h, List.append_assoc, ← List.map_append, ← List.take_add]

theorem FifoInv.chunk {s' : Fifo W} (h : FifoInv daemon s) (hm : s.txMutex = some w)
    (hs : ChunkWritten daemon s w frame off s') : FifoInv daemon s' := by
  refine ⟨fun {v f n} hv => ?_, fun {v} hd hc => ?_⟩
  · by_cases hvw : v = w
    · subst hvw
      cases hs with
      | again => exact h.off_lt hv
      | whole count hall => simp at hv
      | short count hpos hlt =>
        obtain ⟨rfl, rfl⟩ : frame = f ∧ off + count = n := by simpa using hv
        exact hlt
    · cases hs with
      | again => exact h.off_lt hv
      | whole count hall => exact h.off_lt (by simpa [Function.update_of_ne hvw] using hv)
      | short count hpos hlt => exact h.off_lt (by simpa [Function.update_of_ne hvw] using hv)
  · -- a cut frame of the network device is the holder's
    obtain rfl : v = w := by
      by_contra hvw
      exact hvw (Option.some.inj ((h.kernel hd ((hs.cut_iff_of_ne hvw).mp hc)).symm.trans hm))
    cases hs with
    | again => simp [hd]
    | whole count hall => exact absurd hc (Fifo.not_cut_of_none (Function.update_self ..))
    | short count hpos hlt => simp [hd]

theorem LockedInv.chunk {s' : Fifo W} (h : LockedInv daemon s) (hm : s.txMutex = some w)
    (hw : s.writing w = some (frame, off)) (hs : ChunkWritten daemon s w frame off s') :
    LockedInv daemon s' := by
  have hother : ∀ v, v ≠ w → ¬ s'.Cut v := fun v hv hc =>
    (h.holder hm).2 v hv ((hs.cut_iff_of_ne hv).mp hc)
  have htorn : s'.torn = none := hs.torn_eq.trans (h.holder hm).1
  obtain ⟨whole, hfifo, hdone⟩ := h.contiguous.exists_whole hw (h.holder hm).1 (h.holder hm).2
  refine ⟨h.toFifoInv.chunk hm hs, fun {u} hu => ?_, ?_⟩
  · -- whoever holds the mutex now held it before
    obtain rfl : w = u := by
      cases hs with
      | again => exact (show daemon w = false ∧ w = u by simpa using hu).2
      | whole count hall => cases hu
      | short count hpos hlt => exact (show daemon w = false ∧ w = u by simpa using hu).2
    exact ⟨htorn, hother⟩
  · cases hs with
    | again => exact h.contiguous
    | whole count hall =>
      refine ⟨whole ++ [(w, frame)], [], ?_, fun v => ?_, .inl ⟨rfl, fun v hc => ?_, htorn⟩⟩
      · dsimp only
        rw [List.append_nil, append_chunk count hfifo, hall, List.take_length]
        simp [frameBytes]
      · rw [List.filter_append, List.map_append, hdone]
        by_cases hv : v = w
        · subst hv
          simp
        · simp [Function.update_of_ne hv, Ne.symm hv]
      · by_cases hv : v = w
        · subst hv
          exact Fifo.not_cut_of_none (Function.update_self ..) hc
        · exact hother v hv hc
    | short count hpos hlt =>
      exact ⟨whole, (frame.take (off + count)).map (w, ·), append_chunk count hfifo, hdone,
        .inr ⟨w, frame, off + count, .inl ⟨Function.update_self .., htorn⟩, by omega, rfl,
          hother⟩⟩

/-! ### A chunk that fails -/

theorem writing_failChunk (sent : ℕ) : (s.failChunk daemon w frame off sent).writing =
    if daemon w then s.writing else Function.update s.writing w none := by
  rw [Fifo.failChunk]
  split <;> rfl

theorem torn_failChunk_zero (hoff : daemon w = true ∨ off = 0) :
    (s.failChunk daemon w frame off 0).torn = s.torn := by
  rw [Fifo.failChunk]
  split
  · rfl
  · next hd => simp [hoff.resolve_left hd]

theorem cut_failChunk {sent : ℕ} {v : W}
    (hc : (s.failChunk daemon w frame off sent).Cut v) : s.Cut v := by
  rw [Fifo.Cut, writing_failChunk] at hc
  split at hc
  · exact hc
  · by_cases hv : v = w
    · subst hv
      simp at hc
    · rwa [Function.update_of_ne hv] at hc

theorem FifoInv.fail (h : FifoInv daemon s) (hm : s.txMutex = some w) (sent : ℕ) :
    FifoInv daemon (s.failChunk daemon w frame off sent) := by
  refine ⟨fun {v f n} hv => ?_, fun {v} hd hc => ?_⟩
  · rw [writing_failChunk] at hv
    split at hv
    · exact h.off_lt hv
    · by_cases hvw : v = w
      · subst hvw
        simp at hv
      · exact h.off_lt (by simpa [Function.update_of_ne hvw] using hv)
  · -- the network device has given its frame up
    obtain rfl : v = w := Option.some.inj ((h.kernel hd (cut_failChunk hc)).symm.trans hm)
    rw [Fifo.Cut, writing_failChunk] at hc
    simp [hd] at hc

theorem LockedInv.fail (h : LockedInv daemon s) (hm : s.txMutex = some w)
    (hw : s.writing w = some (frame, off)) (sent : ℕ) :
    LockedInv daemon (s.failChunk daemon w frame off sent) := by
  obtain ⟨htorn, hother⟩ := h.holder hm
  obtain ⟨whole, hfifo, hdone⟩ := h.contiguous.exists_whole hw htorn hother
  have hfifo' := append_chunk sent hfifo
  have hother' : ∀ v, v ≠ w → ¬ (s.failChunk daemon w frame off sent).Cut v :=
    fun v hv hc => hother v hv (cut_failChunk hc)
  refine ⟨h.toFifoInv.fail hm sent, fun {u} hu => ?_, whole,
    (frame.take (off + sent)).map (w, ·), ?_, ?_, ?_⟩
  · rw [Fifo.failChunk] at hu
    split at hu <;> cases hu
  · rw [Fifo.failChunk]
    split <;> exact hfifo'
  · rw [Fifo.failChunk]
    split <;> exact hdone
  by_cases hzero : off + sent = 0
  · -- nothing of the frame has come to the FIFO
    refine .inl ⟨by simp [hzero], fun v hc => ?_, ?_⟩
    · by_cases hv : v = w
      · subst hv
        have hoff := (Fifo.cut_iff hw).mp (cut_failChunk hc)
        omega
      · exact hother' v hv hc
    · obtain ⟨hoff, rfl⟩ : off = 0 ∧ sent = 0 := by omega
      exact (torn_failChunk_zero (.inr hoff)).trans htorn
  · refine .inr ⟨w, frame, off + sent, ?_, by omega, rfl, hother'⟩
    by_cases hkeep : daemon w = true ∧ sent = 0
    · -- the daemon will go on where it is
      obtain ⟨hd, rfl⟩ := hkeep
      refine .inl ⟨?_, (torn_failChunk_zero (.inl hd)).trans htorn⟩
      rw [writing_failChunk, if_pos hd]
      exact hw
    · refine .inr ?_
      rw [Fifo.failChunk]
      split
      · next hd => exact if_neg fun hsent => hkeep ⟨hd, hsent⟩
      · rfl

theorem LockedInv.step (h : LockedInv daemon s) {a : FifoAction W} (ha : a.Locked s) :
    LockedInv daemon (s.step func daemon a) := by
  cases a with
  | txReady size => exact ⟨⟨h.off_lt, h.kernel⟩, h.holder, h.contiguous⟩
  | submit v f =>
    rw [Fifo.step]
    split_ifs with hbusy
    · exact h
    · rw [not_or] at hbusy
      exact h.submit hbusy.1 (by simpa using hbusy.2)
  | lock v =>
    rw [Fifo.step]
    split_ifs with hbusy
    · exact h
    · rw [not_or] at hbusy
      have hfree : s.txMutex = none := by simpa using hbusy.1
      exact h.lock hfree (ha hfree)
  | chunk v =>
    rw [Fifo.step]
    split_ifs with hready
    · split
      · exact h
      · rename_i f n hv
        exact h.chunk hready.1 hv (chunkWritten_writeChunk (h.off_lt hv))
    · exact h
  | fail v sent =>
    rw [Fifo.step]
    split_ifs with hm
    · split
      · exact h
      · rename_i f n hv
        exact h.fail hm hv _
    · exact h

/-! ### Frames taken whole -/

theorem cut_writeChunk_of_fits (hoff : off < frame.length) (hd : daemon w = true)
    (hroom : frame.length - off ≤ s.writeValidSize - s.writeOffset)
    (hmax : frame.length - off ≤ func.transMax)
    (hblk : frame.length - off ≤ func.curBlksize ∨ func.curBlksize ∣ frame.length - off) (v : W)
    (hc : (s.writeChunk func daemon w frame off).Cut v) : s.Cut v := by
  have hcount : func.chunkSize (frame.length - off) (s.writeValidSize - s.writeOffset) =
      frame.length - off := func.chunkSize_eq_iff.mpr ⟨hroom, hmax, hblk⟩
  have hwriting : (s.writeChunk func daemon w frame off).writing =
      Function.update s.writing w none := by
    rw [Fifo.writeChunk, Fifo.chunkCount]
    simp only [hd, if_true, Nat.min_eq_left hmax, hcount]
    rw [if_neg (by omega), if_pos (by omega)]
  rw [Fifo.Cut, hwriting] at hc
  by_cases hv : v = w
  · subst hv
    simp at hc
  · rwa [Function.update_of_ne hv] at hc

/-- While every chunk of a daemon is taken whole, only the network device cuts frames. -/
theorem FifoInv.step_takenWhole (h : FifoInv daemon s) (htorn : s.torn = none)
    (hnone : ∀ v, daemon v = true → ¬ s.Cut v) {a : FifoAction W}
    (ha : a.TakenWhole func daemon s) :
    FifoInv daemon (s.step func daemon a) ∧ (s.step func daemon a).torn = none ∧
      ∀ v, daemon v = true → ¬ (s.step func daemon a).Cut v := by
  cases a with
  | txReady size => exact ⟨⟨h.off_lt, h.kernel⟩, htorn, hnone⟩
  | submit v f =>
    rw [Fifo.step]
    split_ifs with hbusy
    · exact ⟨h, htorn, hnone⟩
    · rw [not_or] at hbusy
      have hv : s.writing v = none := by simpa using hbusy.2
      exact ⟨h.submit hbusy.1 hv, htorn, fun u hu hc => hnone u hu ((cut_submit hv u).mp hc)⟩
  | lock v =>
    rw [Fifo.step]
    split_ifs with hbusy
    · exact ⟨h, htorn, hnone⟩
    · rw [not_or] at hbusy
      exact ⟨h.lock (by simpa using hbusy.1), htorn, hnone⟩
  | chunk v =>
    rw [Fifo.step]
    split_ifs with hready
    · split
      · exact ⟨h, htorn, hnone⟩
      · rename_i f n hv
        have hwritten : ChunkWritten daemon s v f n (s.writeChunk func daemon v f n) :=
          chunkWritten_writeChunk (h.off_lt hv)
        refine ⟨h.chunk hready.1 hwritten, hwritten.torn_eq.trans htorn,
          fun u hu hc => hnone u hu ?_⟩
        by_cases hd : daemon v = true
        · obtain ⟨hroom, hmax, hblk⟩ := ha hd (f, n) hv
          exact cut_writeChunk_of_fits (h.off_lt hv) hd hroom hmax hblk u hc
        · -- the network device can only cut its own frame
          have huv : u ≠ v := by
            rintro rfl
            exact hd hu
          exact (hwritten.cut_iff_of_ne huv).mp hc
    · exact ⟨h, htorn, hnone⟩
  | fail v sent =>
    rw [Fifo.step]
    split_ifs with hm
    · split
      · exact ⟨h, htorn, hnone⟩
      · rename_i f n hv
        obtain ⟨rfl, rfl⟩ : sent = 0 ∧ n = 0 := ha (f, n) hv
        rw [Nat.zero_min]
        exact ⟨h.fail hm 0, (torn_failChunk_zero (.inr rfl)).trans htorn,
          fun u hu hc => hnone u hu (cut_failChunk hc)⟩
    · exact ⟨h, htorn, hnone⟩

end Step

theorem lockedInv_fifoRun (func : SdioFunc) (daemon : W → Bool) (actions : List (FifoAction W))
    (h : LockedRun func daemon actions) : LockedInv daemon (fifoRun func daemon actions) := by
  induction actions using List.reverseRecOn with
  | nil => exact lockedInv_init
  | append_singleton actions a ih =>
    obtain ⟨hpast, ha⟩ := always_concat_iff.mp h
    rw [fifoRun, List.foldl_append]
    exact (ih hpast).step ha

section TakenWhole

variable {func : SdioFunc} {daemon : W → Bool} {actions : List (FifoAction W)}

theorem fifoInv_of_takenWhole
    (h : Always (fun past a => a.TakenWhole func daemon (fifoRun func daemon past)) actions) :
    FifoInv daemon (fifoRun func daemon actions) ∧ (fifoRun func daemon actions).torn = none ∧
      ∀ v, daemon v = true → ¬ (fifoRun func daemon actions).Cut v := by
  induction actions using List.reverseRecOn with
  | nil => exact ⟨fifoInv_init, rfl, fun _ _ => Fifo.not_cut_of_none rfl⟩
  | append_singleton actions a ih =>
    obtain ⟨hpast, ha⟩ := always_concat_iff.mp h
    obtain ⟨hfifo, htorn, hnone⟩ := ih hpast
    rw [fifoRun, List.foldl_append]
    exact hfifo.step_takenWhole htorn hnone ha

/-- Daemon frames that are taken whole keep the mutex from being taken at the wrong moment. -/
theorem lockedRun_of_takenWhole
    (h : Always (fun past a => a.TakenWhole func daemon (fifoRun func daemon past)) actions) :
    LockedRun func daemon actions := by
  induction actions using List.reverseRecOn with
  | nil => exact always_nil
  | append_singleton actions a ih =>
    have hpast := (always_concat_iff.mp h).1
    obtain ⟨hfifo, htorn, hnone⟩ := fifoInv_of_takenWhole hpast
    refine (ih hpast).concat ?_
    cases a with
    | lock w =>
      refine fun hfree => ⟨htorn, fun v _ hc => ?_⟩
      by_cases hd : daemon v = true
      · exact hnone v hd hc
      · -- the network device would hold the mutex
        have hm := hfifo.kernel (by simpa using hd) hc
        rw [hfree] at hm
        cases hm
    | txReady size => trivial
    | submit w frame => trivial
    | chunk w => trivial
    | fail w sent => trivial

end TakenWhole

/-- **Frames of different writers do not interleave** in the FIFO, in every run in which
`tx_mutex` is never taken while another writer's frame is cut, nor behind one whose write failed
on the way. -/
theorem frames_contiguous (func : SdioFunc) (daemon : W → Bool) (actions : List (FifoAction W))
    (h : LockedRun func daemon actions) : (fifoRun func daemon actions).Contiguous :=
  (lockedInv_fifoRun func daemon actions h).contiguous

/-- The chip's blocks of 512 bytes, at most 64 of them in a transfer. -/
def sampleFunc : SdioFunc := ⟨64 * 512, 512⟩

/-- The daemon (`true`) writes a frame of `n` bytes and the network device (`false`) one of 30,
with a window of two blocks each time; `order` is who gets to write. -/
def twoWriters (n : ℕ) (order : List Bool) : List (FifoAction Bool) :=
  [.submit true (List.replicate n 1), .submit false (List.replicate 30 2)] ++
    order.flatMap fun w => [.txReady 1024, .lock w, .chunk w]

/-- A daemon frame of one block is taken whole. -/
theorem frames_contiguous_oneBlock :
    (fifoRun sampleFunc id (twoWriters 512 [true, false])).Contiguous ∧
      (fifoRun sampleFunc id (twoWriters 512 [true, false])).fifo =
        (List.replicate 512 1).map (true, ·) ++ (List.replicate 30 2).map (false, ·) := by
  refine ⟨frames_contiguous _ _ _ (lockedRun_of_takenWhole ?_), by decide +kernel⟩
  decide +kernel

/-- Of a daemon frame of 513 bytes one block is taken, then the network device's frame gets in
between, then the rest. -/
theorem not_contiguous_cutFrame :
    ¬ (fifoRun sampleFunc id (twoWriters 513 [true, false, true])).Contiguous := by
  have hwriting : ∀ w, (fifoRun sampleFunc id (twoWriters 513 [true, false, true])).writing w =
      none := by decide +kernel
  have hdone : ∀ w, (fifoRun sampleFunc id (twoWriters 513 [true, false, true])).done w =
      [if w then List.replicate 513 1 else List.replicate 30 2] := by decide +kernel
  have hfirst : (fifoRun sampleFunc id (twoWriters 513 [true, false, true])).fifo[0]? =
      some (true, 1) := by decide +kernel
  have hbetween : (fifoRun sampleFunc id (twoWriters 513 [true, false, true])).fifo[512]? =
      some (false, 2) := by decide +kernel
  have htorn : (fifoRun sampleFunc id (twoWriters 513 [true, false, true])).torn = none := by
    decide +kernel
  rintro ⟨whole, rest, hfifo, hwhole, hrest⟩
  obtain ⟨rfl, -⟩ | ⟨w, frame, off, hbegun, -⟩ := hrest
  · rw [hfifo, List.append_nil] at hfirst hbetween
    cases whole with
    | nil => cases hfirst
    | cons p tail =>
      -- the frame in front is the daemon's, and its last byte is not where it ends
      obtain ⟨u, f⟩ := p
      have hu := hwhole u
      rw [hdone, List.filter_cons_of_pos (by simp), List.map_cons, List.cons.injEq] at hu
      rw [frameBytes, List.flatMap_cons] at hfirst hbetween
      cases u with
      | false =>
        obtain rfl : f = List.replicate 30 2 := hu.1
        rw [List.getElem?_append_left (by simp)] at hfirst
        simp at hfirst
      | true =>
        obtain rfl : f = List.replicate 513 1 := hu.1
        have hlen : 512 < ((List.replicate 513 (1 : UInt8)).map (true, ·)).length := by
          rw [List.length_map, List.length_replicate]
          omega
        rw [List.getElem?_append_left hlen, List.getElem?_map,
          List.getElem?_replicate_of_lt (by omega)] at hbetween
        cases hbetween
  · rw [Fifo.Begun, hwriting, htorn] at hbegun
    obtain ⟨hw, -⟩ | htorn' := hbegun
    · cases hw
    · cases htorn'

-- No window comes for the last byte of the network device's frame: it is given up.
example :
    let s := fifoRun sampleFunc id [.submit false (List.replicate 1025 2), .txReady 1024,
      .lock false, .chunk false, .fail false 0]
    s.txMutex = none ∧ s.torn = some (false, List.replicate 1025 2, 1024) := by
  decide +kernel

end Ar8030

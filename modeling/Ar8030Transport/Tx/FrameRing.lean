import Ar8030Transport.Tx.Discipline

/-!
# The frame ring between the encoder and the sender

The encoder appends the entries of its frames to a ring, one frame after another; the sender
takes the oldest entry, or, when its data socket is opened again, discards everything that is
queued (`flush_ring`). The two go on independently, so a run is any sequence of `RingAction`s.

A `Slot` is an entry together with where it comes from, which the sender cannot see: all it
goes by is the `PARTIAL` flag and the pts. This is enough for a frame announced to the ground
as complete to be one if no flush cuts a frame, and no frame has the pts of an open one whose
end was flushed. `RingAction.Sound` is that condition.
-/

namespace Ar8030

open Pieces Trace

/-! ### What the encoder writes -/

/-- A frame as the encoder writes it: entries with one pts, all `PARTIAL` but the last. -/
structure ProducedFrame where
  pts : UInt32
  slices : List RingEntry
  last : RingEntry
  pts_slices : ∀ e ∈ slices, e.pts = pts
  pts_last : last.pts = pts
  isPartial_slices : ∀ e ∈ slices, e.isPartial = true
  isPartial_last : last.isPartial = false

namespace ProducedFrame

/-- The frame's entries, in order. -/
def entries (f : ProducedFrame) : List RingEntry := f.slices ++ [f.last]

/-- The frame's bytes. -/
def data (f : ProducedFrame) : List UInt8 := f.entries.flatMap RingEntry.data

end ProducedFrame

/-- An entry in the ring: number `slice` of the frame with number `frame`. -/
structure Slot where
  frame : ℕ
  slice : ℕ
  entry : RingEntry
  deriving DecidableEq, Repr

/-- The entries of frame `k`, from number `j` on. -/
def slotsFrom (k : ℕ) : ℕ → List RingEntry → List Slot
  | _, [] => []
  | j, e :: es => ⟨k, j, e⟩ :: slotsFrom k (j + 1) es

/-- All entries of frame `k`. -/
def ProducedFrame.slots (f : ProducedFrame) (k : ℕ) : List Slot := slotsFrom k 0 f.entries

/-- The entries of frames with numbers from `k` on, in the order they are written. -/
def slotsOf (k : ℕ) : List ProducedFrame → List Slot
  | [] => []
  | f :: fs => f.slots k ++ slotsOf (k + 1) fs

/-! ### The ring -/

/-- What can happen. -/
inductive RingAction where
  /-- The encoder appends its next entry. -/
  | produce
  /-- The sender takes the oldest entry; the outcomes are those of its writes. -/
  | read (outcomes : List Bool)
  /-- `flush_ring`: the data socket was opened. -/
  | flush
  deriving DecidableEq, Repr

/-- The entries still to be written, the entries queued, and the sender. -/
structure RingState where
  ahead : List Slot
  queue : List Slot
  tx : TxState
  deriving DecidableEq, Repr

/-- The start: nothing is written yet. -/
def RingState.init (frames : List ProducedFrame) : RingState where
  ahead := slotsOf 0 frames
  queue := []
  tx := TxState.init

/-- One action; the output is the slot the sender has taken. -/
def ringStep (cfg : TxConfig) (s : RingState) : RingAction → RingState × List (Slot × List Bool)
  | .produce =>
    match s.ahead with
    | [] => (s, [])
    | x :: xs => ({ s with ahead := xs, queue := s.queue ++ [x] }, [])
  | .read outcomes =>
    match s.queue with
    | [] => (s, [])
    | x :: xs =>
      ({ s with queue := xs, tx := (txStep cfg s.tx (x.entry, outcomes)).1 }, [(x, outcomes)])
  | .flush => ({ s with queue := [] }, [])

/-- A run of the ring, with the slots taken. -/
def ringRun (cfg : TxConfig) (frames : List ProducedFrame) (actions : List RingAction) :
    RingState × List (Slot × List Bool) :=
  Mealy.run (ringStep cfg) (RingState.init frames) actions

/-- What the sender was given. -/
def senderInputs (taken : List (Slot × List Bool)) : List (RingEntry × List Bool) :=
  taken.map fun x => (x.1.entry, x.2)

/-- The slots taken, frame by frame as the sender sees them. -/
def takenFrames (taken : List (Slot × List Bool)) : List Slot × List (List Slot) :=
  Mealy.run (groupStep Slot.entry) [] (taken.map Prod.fst)

/-- The logs of the frames the sender has moved past, and of the current one. -/
def sentLogs (cfg : TxConfig) (taken : List (Slot × List Bool)) :
    List (List TxEvent) × List TxEvent :=
  frameLogs (txRun cfg (senderInputs taken)).2

/-! ### When nothing goes wrong -/

/-- The chunk count of a frame sent whole does not wrap either. -/
def TxState.FitsWhole (cfg : TxConfig) (s : TxState) (e : RingEntry) : Prop :=
  (e.isPartial || (s.abandon e).sf.isOpen) = false → e.data.length + cfg.chunkPayload ≤ 2 ^ 32

instance (cfg : TxConfig) (s : TxState) (e : RingEntry) : Decidable (s.FitsWhole cfg e) :=
  inferInstanceAs (Decidable (_ → _))

/-- The action does not lead the sender astray: a flush finds nothing queued or ends with the
last entry of a frame, a frame's first entry does not have the pts of a frame that is still
open, and the 32-bit sums of the chunker do not wrap. -/
def RingAction.Sound (cfg : TxConfig) (s : RingState) : RingAction → Prop
  | .produce => True
  | .read _ => ∀ x ∈ s.queue.head?,
      (x.slice = 0 → s.tx.sf.isOpen = true → x.entry.pts ≠ s.tx.sf.pts) ∧
        s.tx.Fits cfg x.entry ∧ s.tx.FitsWhole cfg x.entry
  | .flush => ∀ x ∈ s.queue.getLast?, x.entry.isPartial = false

instance (cfg : TxConfig) (s : RingState) (a : RingAction) : Decidable (a.Sound cfg s) :=
  match a with
  | .produce => isTrue trivial
  | .read _ => inferInstanceAs (Decidable (∀ x ∈ s.queue.head?, _ ∧ _))
  | .flush => inferInstanceAs (Decidable (∀ x ∈ s.queue.getLast?, _))

/-- Every action of the run is sound. -/
def SoundRun (cfg : TxConfig) (frames : List ProducedFrame) (actions : List RingAction) : Prop :=
  Always (fun past a => a.Sound cfg (ringRun cfg frames past).1) actions

instance (cfg : TxConfig) (frames : List ProducedFrame) (actions : List RingAction) :
    Decidable (SoundRun cfg frames actions) :=
  inferInstanceAs (Decidable (Always _ actions))

/-- A chunk of the frame was written that says the frame has `n` chunks: any chunk of a frame
sent whole, and the last one of a streamed frame. -/
def Announced (n : ℕ) (seg : List TxEvent) : Prop :=
  n ≠ 0 ∧ ∃ c ∈ writtenOf seg, c.hdr.chunkCount.toNat = n

instance (n : ℕ) (seg : List TxEvent) : Decidable (Announced n seg) :=
  inferInstanceAs (Decidable (_ ∧ ∃ c ∈ writtenOf seg, _))

/-! ### The entries of a frame -/

section Slots

variable {f : ProducedFrame} {k : ℕ} {pre post : List Slot} {x : Slot}

theorem map_entry_slotsFrom (k j : ℕ) (es : List RingEntry) :
    (slotsFrom k j es).map Slot.entry = es := by
  induction es generalizing j with
  | nil => rfl
  | cons e es ih => exact congrArg (e :: ·) (ih (j + 1))

@[simp]
theorem map_entry_slots (f : ProducedFrame) (k : ℕ) : (f.slots k).map Slot.entry = f.entries :=
  map_entry_slotsFrom k 0 f.entries

theorem entry_mem (hx : x ∈ f.slots k) : x.entry ∈ f.entries := by
  rw [← map_entry_slots f k]
  exact List.mem_map_of_mem hx

theorem pts_of_mem_slots (hx : x ∈ f.slots k) : x.entry.pts = f.pts := by
  rcases List.mem_append.mp (entry_mem hx) with hx | hx
  · exact f.pts_slices _ hx
  · rw [List.mem_singleton.mp hx, f.pts_last]

theorem slots_ne_nil (f : ProducedFrame) (k : ℕ) : f.slots k ≠ [] := by
  intro h
  have := map_entry_slots f k
  rw [h] at this
  simp [ProducedFrame.entries] at this

/-- Short of its last entry a frame is `PARTIAL`. -/
theorem isPartial_of_slots_eq (h : f.slots k = pre ++ post) (hpost : post ≠ []) :
    ∀ x ∈ pre, x.entry.isPartial = true := by
  intro x hx
  have hentries : f.slices ++ [f.last] = pre.map Slot.entry ++ post.map Slot.entry := by
    rw [← List.map_append, ← h, map_entry_slots]
    rfl
  refine f.isPartial_slices _ ?_
  have hpre : pre.map Slot.entry <+: f.slices := by
    refine List.prefix_of_prefix_length_le ⟨_, hentries.symm⟩ (List.prefix_append _ _) ?_
    have hlen := congrArg List.length hentries
    have := List.length_pos_iff.mpr hpost
    simp only [List.length_append, List.length_map, List.length_singleton] at hlen ⊢
    omega
  exact hpre.subset (List.mem_map_of_mem hx)

/-- Its last entry is not. -/
theorem isPartial_last_slot (h : f.slots k = pre ++ [x]) : x.entry.isPartial = false := by
  have hentries : f.slices ++ [f.last] = pre.map Slot.entry ++ [x].map Slot.entry := by
    rw [← List.map_append, ← h, map_entry_slots]
    rfl
  obtain ⟨-, hlast⟩ := List.append_inj' hentries rfl
  rw [← List.singleton_inj.mp hlast, f.isPartial_last]

theorem slice_first_slot (h : f.slots k = x :: post) : x.slice = 0 := by
  rw [ProducedFrame.slots] at h
  cases hes : f.entries with
  | nil => simp [ProducedFrame.entries] at hes
  | cons e es =>
    rw [hes, slotsFrom, List.cons.injEq] at h
    rw [← h.1]

/-- **A cut behind a frame's last entry** is a cut between two frames. -/
theorem slotsOf_cut {fs : List ProducedFrame} {q a : List Slot} (h : slotsOf k fs = q ++ a)
    (hq : q ≠ []) (hlast : ∀ x ∈ q.getLast?, x.entry.isPartial = false) :
    ∃ gs hs, fs = gs ++ hs ∧ a = slotsOf (k + gs.length) hs := by
  induction fs generalizing k q with
  | nil =>
    have := List.append_eq_nil_iff.mp h.symm
    exact absurd this.1 hq
  | cons f fs ih =>
    rw [slotsOf] at h
    rcases List.append_eq_append_iff.mp h with ⟨c, hqc, hrest⟩ | ⟨c, hfc, hac⟩
    · -- the cut is behind the first frame
      by_cases hc : c = []
      · rw [hc, List.nil_append] at hrest
        exact ⟨[f], fs, rfl, hrest.symm⟩
      · rw [hqc, List.getLast?_append_of_ne_nil _ hc] at hlast
        obtain ⟨gs, hs, rfl, ha⟩ := ih hrest hc hlast
        refine ⟨f :: gs, hs, rfl, ?_⟩
        rw [ha, List.length_cons, Nat.add_right_comm, Nat.add_assoc]
    · -- or inside it, which would be behind a slice
      by_cases hc : c = []
      · rw [hc, List.nil_append] at hac
        exact ⟨[f], fs, rfl, hac⟩
      · obtain ⟨z, hz⟩ := Option.isSome_iff_exists.mp (List.getLast?_isSome.mpr hq)
        have hpart := isPartial_of_slots_eq hfc hc z (List.mem_of_getLast? hz)
        simp [hlast z hz] at hpart

end Slots

/-! ### Frames announced as complete -/

/-- A frame that is still open has not been announced. -/
theorem Progress.not_announced {info : FrameInfo} {seg : List TxEvent} {nextIdx : ℕ} {failed : Bool}
    (h : Progress info seg nextIdx failed) (n : ℕ) : ¬ Announced n seg := by
  rintro ⟨hn, c, hc, hcount⟩
  rw [h.written.chunkCount c hc] at hcount
  exact hn hcount.symm

/-- An announced frame ends with an entry that is not `PARTIAL`. -/
theorem FrameLog.last_of_announced {cfg : TxConfig} {frameSeq : UInt16} {seg : List TxEvent} {n : ℕ}
    (h : FrameLog cfg frameSeq seg) (hn : Announced n seg) :
    ∃ e ∈ entriesOf seg, e.isPartial = false := by
  cases h with
  | unfinished progress => exact absurd hn (progress.not_announced n)
  | @ended info seg nextIdx e progress pts last fits =>
    exact ⟨e, by simp [entriesOf_append], last⟩
  | @whole info e k free pts last fits => exact ⟨e, by simp, last⟩
  | refused _ e =>
    obtain ⟨-, c, hc, -⟩ := hn
    simp [writtenOf, TxEvent.wrote?] at hc

/-- **An announced frame**: if all the chunks it was announced with were written, they carry
all of its entries. -/
theorem FrameLog.data_of_announced {cfg : TxConfig} {frameSeq : UInt16} {seg : List TxEvent} {n : ℕ}
    (h : FrameLog cfg frameSeq seg) (hn : Announced n seg)
    (hfits : ∀ e, entriesOf seg = [e] → e.data.length + cfg.chunkPayload ≤ 2 ^ 32)
    (hall : (writtenOf seg).length = n) : frameData (writtenOf seg) = entryData seg := by
  cases h with
  | unfinished progress => exact absurd hn (progress.not_announced n)
  | @ended info seg nextIdx e progress pts last fits =>
    obtain ⟨-, hwritten, hentry, -⟩ := @Progress.sent_views info seg nextIdx e cfg true
      (piecesNeeded e.data.length cfg.chunkPayload) progress pts
    rw [hwritten, hentry, List.take_of_length_le length_partChunks.le]
  | @whole info e k free pts last fits =>
    have hcount := chunkCountOf_eq (hfits e (by simp))
    rw [hcount] at fits hn hall ⊢
    obtain ⟨-, c, hc, rfl⟩ := hn
    have hc : c.hdr.chunkCount = UInt16.ofNat (piecesNeeded e.data.length cfg.chunkPayload) := by
      rw [writtenOf_entry, writtenOf_sendLog] at hc
      obtain ⟨i, -, rfl⟩ := List.mem_map.mp (List.mem_of_mem_take hc)
      rw [chunkCount_runChunk, Bool.false_and, if_neg Bool.false_ne_true]
    have hk : piecesNeeded e.data.length cfg.chunkPayload ≤ k := by
      rw [hc, UInt16.toNat_ofNat', Nat.mod_eq_of_lt (by omega), writtenOf_entry, writtenOf_sendLog,
        List.length_take, length_runChunks] at hall
      omega
    rw [writtenOf_entry, writtenOf_sendLog, entryData_entry, entryData_sendLog, List.append_nil,
      List.take_of_length_le (length_runChunks.trans_le hk)]
    exact flatMap_payload_runChunks cfg.chunkPayload_pos
  | refused _ e => exact absurd hall.symm hn.1

/-! ### Where the sender is -/

/-- Where the sender is in what the encoder writes: `cur` are the slots of the frame it has
open, and `rest` is what it has not yet taken. -/
inductive Position (frames : List ProducedFrame) : List Slot → List Slot → Prop
  /-- Between two frames; if one is open, its end was flushed. -/
  | between {fs gs : List ProducedFrame} {cur : List Slot} (frames_eq : frames = fs ++ gs)
      (isPartial : ∀ x ∈ cur, x.entry.isPartial = true) : Position frames cur (slotsOf fs.length gs)
  /-- Inside a frame, with all of it taken so far. -/
  | inside {fs gs : List ProducedFrame} {f : ProducedFrame} {cur post : List Slot}
      (frames_eq : frames = fs ++ f :: gs) (slots_eq : f.slots fs.length = cur ++ post)
      (more : post ≠ []) : Position frames cur (post ++ slotsOf (fs.length + 1) gs)

/-- A frame the sender has moved past: it has not seen the end of it, or it was given all its
entries; those of a frame sent whole do not wrap the chunk count. -/
def ClosedFrame (cfg : TxConfig) (frames : List ProducedFrame) (g : List Slot) : Prop :=
  (∀ x ∈ g, x.entry.isPartial = true) ∨
    ∃ fs f gs, frames = fs ++ f :: gs ∧ g = f.slots fs.length ∧
      ∀ x, g = [x] → x.entry.data.length + cfg.chunkPayload ≤ 2 ^ 32

section Position

variable {cfg : TxConfig} {frames : List ProducedFrame} {cur queue ahead : List Slot}

theorem Position.isPartial_cur (h : Position frames cur queue) :
    ∀ x ∈ cur, x.entry.isPartial = true := by
  cases h with
  | between frames_eq isPartial => exact isPartial
  | inside frames_eq slots_eq more => exact isPartial_of_slots_eq slots_eq more

/-- A flush that does not cut a frame leaves the sender between two frames. -/
theorem Position.flush (h : Position frames cur (queue ++ ahead))
    (hlast : ∀ x ∈ queue.getLast?, x.entry.isPartial = false) : Position frames cur ahead := by
  by_cases hq : queue = []
  · rwa [hq, List.nil_append] at h
  have hcur := h.isPartial_cur
  generalize hrest : queue ++ ahead = rest at h
  cases h with
  | @between fs gs _ frames_eq isPartial =>
    obtain ⟨skipped, hs, rfl, rfl⟩ := slotsOf_cut hrest.symm hq hlast
    rw [← List.length_append]
    exact .between (by rw [frames_eq, List.append_assoc]) hcur
  | @inside fs gs f _ post frames_eq slots_eq more =>
    have hcut : slotsOf fs.length (f :: gs) = (cur ++ queue) ++ ahead := by
      rw [slotsOf, slots_eq, List.append_assoc, List.append_assoc, hrest]
    obtain ⟨skipped, hs, hsplit, rfl⟩ := slotsOf_cut hcut (by simp [hq])
      (by rwa [List.getLast?_append_of_ne_nil _ hq])
    rw [← List.length_append]
    exact .between (by rw [frames_eq, hsplit, List.append_assoc]) hcur

/-- The next entry of the frame the sender is in. -/
theorem read_inside {fs gs : List ProducedFrame} {f : ProducedFrame} {x : Slot} {post : List Slot}
    (frames_eq : frames = fs ++ f :: gs) (slots_eq : f.slots fs.length = cur ++ x :: post)
    (hfits : cur = [] → x.entry.isPartial = false →
      x.entry.data.length + cfg.chunkPayload ≤ 2 ^ 32) :
    Position frames (groupStep Slot.entry cur x).1 (post ++ slotsOf (fs.length + 1) gs) ∧
      ∀ g ∈ (groupStep Slot.entry cur x).2, ClosedFrame cfg frames g := by
  have hother : (cur.any fun d => d.entry.pts != x.entry.pts) = false := by
    have hpts : ∀ d ∈ cur ++ x :: post, d.entry.pts = f.pts :=
      fun d hd => pts_of_mem_slots (slots_eq ▸ hd)
    rw [List.any_eq_false]
    intro d hd
    simp [hpts x (by simp), hpts d (by simp [hd])]
  rw [groupStep, hother, groupWith]
  by_cases hpost : post = []
  · -- the last entry of `f` closes it
    rw [hpost] at slots_eq ⊢
    have hlast := isPartial_last_slot slots_eq
    rw [hlast]
    constructor
    · have hpos : Position frames [] (slotsOf (fs ++ [f]).length gs) :=
        .between (by rw [frames_eq, List.append_assoc]; rfl) (by simp)
      simpa using hpos
    · intro g hg
      obtain rfl : g = cur ++ [x] := by simpa using hg
      refine Or.inr ⟨fs, f, gs, frames_eq, slots_eq.symm, fun y hy => ?_⟩
      obtain ⟨hcur, hyx⟩ : cur = [] ∧ x = y := by simpa [List.append_eq_singleton_iff] using hy
      exact hyx ▸ hfits hcur hlast
  · have hslots : f.slots fs.length = (cur ++ [x]) ++ post := by rw [slots_eq, List.append_cons]
    have hrest := isPartial_of_slots_eq hslots hpost x (by simp)
    rw [hrest]
    exact ⟨.inside frames_eq hslots hpost, by simp⟩

/-- The first entry of the next frame; an open one is given up for it. -/
theorem read_between {fs gs : List ProducedFrame} {f : ProducedFrame} {x : Slot} {post : List Slot}
    (frames_eq : frames = fs ++ f :: gs) (slots_eq : f.slots fs.length = x :: post)
    (hcur : ∀ d ∈ cur, d.entry.isPartial = true)
    (hpts : ∀ d ∈ cur, d.entry.pts ≠ x.entry.pts)
    (hfits : x.entry.isPartial = false → x.entry.data.length + cfg.chunkPayload ≤ 2 ^ 32) :
    Position frames (groupStep Slot.entry cur x).1 (post ++ slotsOf (fs.length + 1) gs) ∧
      ∀ g ∈ (groupStep Slot.entry cur x).2, ClosedFrame cfg frames g := by
  obtain ⟨hpos, hclosed⟩ := @read_inside cfg frames [] fs gs f x post frames_eq slots_eq
    fun _ => hfits
  -- giving up the open frame apart, it is as if there were none
  have hgroup : groupStep Slot.entry cur x = ((groupStep Slot.entry [] x).1,
      (if cur = [] then [] else [cur]) ++ (groupStep Slot.entry [] x).2) := by
    by_cases hnil : cur = []
    · rw [hnil, if_pos rfl]
      rfl
    · have hother : (cur.any fun d => d.entry.pts != x.entry.pts) = true := by
        obtain ⟨d, hd⟩ := List.exists_mem_of_ne_nil _ hnil
        exact List.any_eq_true.mpr ⟨d, hd, by simpa using hpts d hd⟩
      rw [groupStep, hother, if_neg hnil]
      rfl
  rw [hgroup]
  refine ⟨hpos, fun g hg => ?_⟩
  rcases List.mem_append.mp hg with hg | hg
  · split_ifs at hg
    · simp at hg
    · exact Or.inl (List.mem_singleton.mp hg ▸ hcur)
  · exact hclosed g hg

/-- **One entry taken**, in terms of frames. -/
theorem Position.read {x : Slot} {rest : List Slot} (h : Position frames cur (x :: rest))
    (hpts : x.slice = 0 → ∀ d ∈ cur, d.entry.pts ≠ x.entry.pts)
    (hfits : (cur = [] ∨ ∃ d ∈ cur, d.entry.pts ≠ x.entry.pts) → x.entry.isPartial = false →
      x.entry.data.length + cfg.chunkPayload ≤ 2 ^ 32) :
    Position frames (groupStep Slot.entry cur x).1 rest ∧
      ∀ g ∈ (groupStep Slot.entry cur x).2, ClosedFrame cfg frames g := by
  generalize hrest : x :: rest = all at h
  cases h with
  | @inside fs gs f _ post frames_eq slots_eq more =>
    obtain ⟨y, post', rfl⟩ := List.exists_cons_of_ne_nil more
    obtain ⟨rfl, rfl⟩ : x = y ∧ rest = post' ++ slotsOf (fs.length + 1) gs := by simpa using hrest
    exact read_inside frames_eq slots_eq fun hcur => hfits (Or.inl hcur)
  | @between fs gs _ frames_eq isPartial =>
    cases gs with
    | nil => simp [slotsOf] at hrest
    | cons f gs =>
      obtain ⟨y, post, hslots⟩ := List.exists_cons_of_ne_nil (slots_ne_nil f fs.length)
      rw [slotsOf, hslots] at hrest
      obtain ⟨rfl, rfl⟩ : x = y ∧ rest = post ++ slotsOf (fs.length + 1) gs := by simpa using hrest
      have hne := hpts (slice_first_slot hslots)
      refine read_between frames_eq hslots isPartial hne (hfits ?_)
      rcases List.eq_nil_or_concat cur with hcur | ⟨ds, d, rfl⟩
      · exact Or.inl hcur
      · exact Or.inr ⟨d, by simp, hne d (by simp)⟩

end Position

/-! ### Runs -/

theorem map_groupStep {α : Type*} (entry : α → RingEntry) (cur : List α) (x : α) :
    (groupStep entry cur x).1.map entry = (groupStep id (cur.map entry) (entry x)).1 ∧
      (groupStep entry cur x).2.map (List.map entry) =
        (groupStep id (cur.map entry) (entry x)).2 := by
  have hother : ((cur.map entry).any fun d => (id d).pts != (id (entry x)).pts) =
      cur.any fun d => (entry d).pts != (entry x).pts := by
    rw [List.any_map]
    rfl
  rw [groupStep, groupStep, hother, groupWith, groupWith, id]
  cases cur.any fun d => (entry d).pts != (entry x).pts <;> cases (entry x).isPartial <;> simp

/-- The frames of the slots taken are those of the entries. -/
theorem map_takenFrames (taken : List (Slot × List Bool)) :
    (takenFrames taken).1.map Slot.entry =
        (entryFrames ((senderInputs taken).map Prod.fst)).1 ∧
      (takenFrames taken).2.map (List.map Slot.entry) =
        (entryFrames ((senderInputs taken).map Prod.fst)).2 := by
  have hinputs : (senderInputs taken).map Prod.fst = (taken.map Prod.fst).map Slot.entry := by
    rw [senderInputs, List.map_map, List.map_map]
    rfl
  rw [hinputs, takenFrames, entryFrames]
  refine Mealy.run_induction (groupStep Slot.entry)
    (motive := fun xs cur closed =>
      cur.map Slot.entry = (Mealy.run (groupStep id) [] (xs.map Slot.entry)).1 ∧
        closed.map (List.map Slot.entry) = (Mealy.run (groupStep id) [] (xs.map Slot.entry)).2)
    ⟨rfl, rfl⟩ (fun xs x cur closed h => ?_) (taken.map Prod.fst)
  obtain ⟨hcur, hclosed⟩ := map_groupStep Slot.entry cur x
  rw [List.map_append, List.map_singleton, Mealy.run_concat, List.map_append, hcur, hclosed, ← h.1,
    h.2]
  exact ⟨rfl, rfl⟩

/-- What holds after every action. -/
structure RingInv (cfg : TxConfig) (frames : List ProducedFrame) (s : RingState)
    (taken : List (Slot × List Bool)) : Prop where
  tx_eq : s.tx = (txRun cfg (senderInputs taken)).1
  fits : EveryFits cfg (senderInputs taken)
  position : Position frames (takenFrames taken).1 (s.queue ++ s.ahead)
  closed : ∀ g ∈ (takenFrames taken).2, ClosedFrame cfg frames g

theorem ringInv_init (cfg : TxConfig) (frames : List ProducedFrame) :
    RingInv cfg frames (RingState.init frames) [] where
  tx_eq := rfl
  fits := always_nil
  position := @Position.between frames [] frames [] rfl (by simp)
  closed := by simp [takenFrames]

section Step

variable {cfg : TxConfig} {frames : List ProducedFrame} {s : RingState}
  {taken : List (Slot × List Bool)}

/-- The frame the sender has open, seen from the ring. -/
theorem RingInv.sending (h : RingInv cfg frames s taken) :
    (s.tx.sf.isOpen = true ↔ (takenFrames taken).1 ≠ []) ∧
      ∀ d ∈ (takenFrames taken).1, d.entry.pts = s.tx.sf.pts := by
  obtain ⟨hsend, hcur, -⟩ := sending_txRun cfg (senderInputs taken) h.fits
  rw [← h.tx_eq] at hsend
  rw [← (map_takenFrames taken).1] at hcur
  cases hopen : s.tx.sf.isOpen with
  | true =>
    obtain ⟨hprog, hne⟩ := hsend.sending hopen
    rw [hcur] at hne
    refine ⟨iff_of_true rfl fun hnil => hne (by rw [hnil]; rfl), fun d hd => ?_⟩
    exact hprog.framePts d.entry (hcur ▸ List.mem_map_of_mem hd)
  | false =>
    rw [hsend.idle hopen] at hcur
    have hnil : (takenFrames taken).1 = [] := List.map_eq_nil_iff.mp hcur.symm
    simp [hnil]

/-- The sender takes an entry. -/
theorem RingInv.read (h : RingInv cfg frames s taken) {x : Slot} {xs : List Slot}
    (hqueue : s.queue = x :: xs) {outcomes : List Bool}
    (hsound : (RingAction.read outcomes).Sound cfg s) :
    RingInv cfg frames { s with queue := xs, tx := (txStep cfg s.tx (x.entry, outcomes)).1 }
      (taken ++ [(x, outcomes)]) := by
  obtain ⟨hfirst, hfits, hwhole⟩ := hsound x (by simp [hqueue])
  obtain ⟨hopen, hpts⟩ := h.sending
  have hinputs : senderInputs (taken ++ [(x, outcomes)]) =
      senderInputs taken ++ [(x.entry, outcomes)] := List.map_append
  have hgroup : takenFrames (taken ++ [(x, outcomes)]) =
      ((groupStep Slot.entry (takenFrames taken).1 x).1,
        (takenFrames taken).2 ++ (groupStep Slot.entry (takenFrames taken).1 x).2) := by
    rw [takenFrames, List.map_append]
    exact Mealy.run_concat ..
  have hpos := h.position
  rw [hqueue, List.cons_append] at hpos
  have hnext : x.slice = 0 → ∀ d ∈ (takenFrames taken).1, d.entry.pts ≠ x.entry.pts := by
    intro hslice d hd
    rw [hpts d hd]
    exact (hfirst hslice (hopen.mpr (List.ne_nil_of_mem hd))).symm
  -- a frame of one entry is sent whole, and its chunk count must not wrap
  have hcount : ((takenFrames taken).1 = [] ∨
      ∃ d ∈ (takenFrames taken).1, d.entry.pts ≠ x.entry.pts) → x.entry.isPartial = false →
      x.entry.data.length + cfg.chunkPayload ≤ 2 ^ 32 := by
    intro hcur hlast
    refine hwhole ?_
    rw [hlast, Bool.false_or, TxState.abandon]
    -- either the open frame is given up for this entry, or none was open
    split_ifs with hab
    · rfl
    · rcases hcur with hnil | ⟨d, hd, hne⟩
      · exact Bool.eq_false_of_not_eq_true fun ho => hopen.mp ho hnil
      · refine absurd ?_ hab
        rw [hpts d hd] at hne
        simp [TxState.abandons, hopen.mpr (List.ne_nil_of_mem hd), Ne.symm hne]
  obtain ⟨hpos', hclosed⟩ := hpos.read hnext hcount
  refine ⟨?_, ?_, ?_, ?_⟩
  · rw [hinputs, txRun, Mealy.run_concat, h.tx_eq]
    rfl
  · rw [hinputs]
    exact h.fits.concat (h.tx_eq ▸ hfits)
  · rw [hgroup]
    exact hpos'
  · rw [hgroup]
    intro g hg
    rcases List.mem_append.mp hg with hg | hg
    · exact h.closed g hg
    · exact hclosed g hg

/-- **One action** keeps the invariant. -/
theorem RingInv.step (h : RingInv cfg frames s taken) {a : RingAction} (hsound : a.Sound cfg s) :
    RingInv cfg frames (ringStep cfg s a).1 (taken ++ (ringStep cfg s a).2) := by
  cases a with
  | produce =>
    rw [ringStep]
    cases hahead : s.ahead with
    | nil => simpa using h
    | cons x xs =>
      rw [List.append_nil]
      refine ⟨h.tx_eq, h.fits, ?_, h.closed⟩
      have hpos := h.position
      rw [hahead] at hpos
      simpa using hpos
  | read outcomes =>
    rw [ringStep]
    cases hqueue : s.queue with
    | nil => simpa using h
    | cons x xs => exact h.read hqueue hsound
  | flush =>
    rw [ringStep, List.append_nil]
    exact ⟨h.tx_eq, h.fits, h.position.flush hsound, h.closed⟩

end Step

theorem ringInv_ringRun (cfg : TxConfig) (frames : List ProducedFrame) (actions : List RingAction)
    (hsound : SoundRun cfg frames actions) :
    RingInv cfg frames (ringRun cfg frames actions).1 (ringRun cfg frames actions).2 := by
  induction actions using List.reverseRecOn with
  | nil => exact ringInv_init cfg frames
  | append_singleton actions a ih =>
    obtain ⟨hpast, ha⟩ := always_concat_iff.mp hsound
    rw [ringRun, Mealy.run_concat]
    exact (ih hpast).step ha

/-- The log `seg` is that of all entries of a frame of the encoder, and if as many chunks as
it was announced with were written, they carry all of its bytes. -/
def CarriesFrame (frames : List ProducedFrame) (n : ℕ) (seg : List TxEvent) (slots : List Slot) :
    Prop :=
  ∃ (k : ℕ) (f : ProducedFrame), frames[k]? = some f ∧ slots = f.slots k ∧
    entriesOf seg = f.entries ∧ frameData (writtenOf seg) <+: f.data ∧
    ((writtenOf seg).length = n → frameData (writtenOf seg) = f.data)

/-- An announced frame whose slots are those of a frame the sender has moved past. -/
theorem FrameLog.carriesFrame {cfg : TxConfig} {frames : List ProducedFrame} {frameSeq : UInt16}
    {seg : List TxEvent} {slots : List Slot} {n : ℕ} (h : FrameLog cfg frameSeq seg)
    (hentries : entriesOf seg = slots.map Slot.entry) (hclosed : ClosedFrame cfg frames slots)
    (hn : Announced n seg) : CarriesFrame frames n seg slots := by
  have hslots : ∃ fs f gs, frames = fs ++ f :: gs ∧ slots = f.slots fs.length ∧
      ∀ x, slots = [x] → x.entry.data.length + cfg.chunkPayload ≤ 2 ^ 32 := by
    refine hclosed.resolve_left fun hrest => ?_
    obtain ⟨e, he, hlast⟩ := h.last_of_announced hn
    rw [hentries] at he
    obtain ⟨x, hx, rfl⟩ := List.mem_map.mp he
    simp [hrest x hx] at hlast
  obtain ⟨fs, f, gs, rfl, rfl, hfits⟩ := hslots
  have hcount : ∀ e, entriesOf seg = [e] → e.data.length + cfg.chunkPayload ≤ 2 ^ 32 := by
    intro e he
    obtain ⟨x, hx, rfl⟩ := List.map_eq_singleton_iff.mp (hentries.symm.trans he)
    exact hfits x hx
  rw [map_entry_slots] at hentries
  have hdata : entryData seg = f.data := by rw [entryData, hentries, ProducedFrame.data]
  refine ⟨fs.length, f, by simp, rfl, hentries, hdata ▸ h.wireDiscipline.payload, fun hlen => ?_⟩
  rw [← hdata]
  exact h.data_of_announced hn hcount hlen

/-- **No truncated picture is sent as a complete frame**, in every run of the encoder and the
sender in which every action is sound: a frame the sender has moved past and has announced to
the ground carries a frame of the encoder, and the frame it is sending has not been
announced. -/
theorem frames_sent_whole (cfg : TxConfig) (frames : List ProducedFrame)
    (actions : List RingAction) (hsound : SoundRun cfg frames actions) :
    (∀ i n, (hi : i < (sentLogs cfg (ringRun cfg frames actions).2).1.length) →
      Announced n (sentLogs cfg (ringRun cfg frames actions).2).1[i] →
        ∃ slots, (takenFrames (ringRun cfg frames actions).2).2[i]? = some slots ∧
          CarriesFrame frames n (sentLogs cfg (ringRun cfg frames actions).2).1[i] slots) ∧
    ∀ n, ¬ Announced n (sentLogs cfg (ringRun cfg frames actions).2).2 := by
  have hinv := ringInv_ringRun cfg frames actions hsound
  revert hinv
  generalize (ringRun cfg frames actions).2 = taken
  intro hinv
  obtain ⟨hsend, -, hdone⟩ := sending_txRun cfg (senderInputs taken) hinv.fits
  rw [← (map_takenFrames taken).2] at hdone
  refine ⟨fun i n hi hn => ?_, fun n => ?_⟩
  · have hlen : i < (takenFrames taken).2.length := by
      have := congrArg List.length hdone
      rw [List.length_map, List.length_map] at this
      exact this ▸ hi
    refine ⟨_, List.getElem?_eq_getElem hlen, ?_⟩
    refine (hsend.done i hi).carriesFrame ?_ (hinv.closed _ (List.getElem_mem hlen)) hn
    have hi' := List.getElem_of_eq hdone (by rw [List.length_map]; exact hi)
    rw [List.getElem_map, List.getElem_map] at hi'
    exact hi'
  · cases hopen : (txRun cfg (senderInputs taken)).1.sf.isOpen with
    | true => exact (hsend.sending hopen).1.not_announced n
    | false =>
      rw [sentLogs, hsend.idle hopen]
      rintro ⟨-, c, hc, -⟩
      simp [writtenOf] at hc

/-- A picture in three slices. -/
def slicedFrame : ProducedFrame where
  pts := 1000
  slices := [⟨1000, vencFrameFlagPartial, [0x11]⟩, ⟨1000, vencFrameFlagPartial, [0x22]⟩]
  last := ⟨1000, 0, [0x33]⟩
  pts_slices := by decide
  pts_last := rfl
  isPartial_slices := by decide
  isPartial_last := by decide

/-- The socket is opened while the picture is being encoded, but with nothing queued. -/
def emptyFlush : List RingAction :=
  [.produce, .read [], .flush, .produce, .read [], .produce, .read []]

theorem soundRun_emptyFlush : SoundRun defaultTxConfig [slicedFrame] emptyFlush := by
  decide +kernel

/-- The picture is announced with three chunks and carries the frame. -/
theorem frames_sent_whole_emptyFlush :
    ∃ seg slots, (sentLogs defaultTxConfig
        (ringRun defaultTxConfig [slicedFrame] emptyFlush).2).1 = [seg] ∧
      Announced 3 seg ∧ CarriesFrame [slicedFrame] 3 seg slots := by
  have hlogs : (sentLogs defaultTxConfig
      (ringRun defaultTxConfig [slicedFrame] emptyFlush).2).1.length = 1 := by decide +kernel
  have hann : ∀ seg ∈ (sentLogs defaultTxConfig
      (ringRun defaultTxConfig [slicedFrame] emptyFlush).2).1, Announced 3 seg := by decide +kernel
  have h0 := hann _ (List.getElem_mem (hlogs ▸ Nat.one_pos))
  obtain ⟨slots, -, hcarries⟩ := (frames_sent_whole _ _ _ soundRun_emptyFlush).1 0 3
    (hlogs ▸ Nat.one_pos) h0
  exact ⟨_, slots, List.eq_getElem_of_length_eq_one _ hlogs, h0, hcarries⟩

/-- The socket is opened with the first slice queued, before the sender has seen anything of
the picture. -/
def flushBeforeOpen : List RingAction := [.produce, .flush, .produce, .read [], .produce, .read []]

/-- The socket is opened again with the second slice queued, when the first one was sent. -/
def flushWhileOpen : List RingAction := [.produce, .read [], .produce, .flush, .produce, .read []]

/-- The only frame sent of the picture is announced as complete and is not the picture. -/
def SentCut (actions : List RingAction) : Prop :=
  ∃ seg, (sentLogs defaultTxConfig (ringRun defaultTxConfig [slicedFrame] actions).2).1 = [seg] ∧
    Announced 2 seg ∧ ∀ slots, ¬ CarriesFrame [slicedFrame] 2 seg slots

theorem sentCut_of_log {actions : List RingAction} {seg : List TxEvent}
    (hseg : (sentLogs defaultTxConfig
      (ringRun defaultTxConfig [slicedFrame] actions).2).1 = [seg])
    (hann : Announced 2 seg) (hentries : entriesOf seg ≠ slicedFrame.entries) :
    SentCut actions := by
  refine ⟨seg, hseg, hann, ?_⟩
  rintro slots ⟨k, f, hf, -, hf', -⟩
  obtain rfl : f = slicedFrame := List.mem_singleton.mp (List.mem_of_getElem? hf)
  exact hentries hf'

/-- Either flush takes a slice out of the picture, and what is left of it is announced as
complete. -/
theorem truncated_frame_announced : SentCut flushBeforeOpen ∧ SentCut flushWhileOpen := by
  have hlength : ∀ actions ∈ [flushBeforeOpen, flushWhileOpen], (sentLogs defaultTxConfig
      (ringRun defaultTxConfig [slicedFrame] actions).2).1.length = 1 := by decide +kernel
  have hlogs : ∀ actions ∈ [flushBeforeOpen, flushWhileOpen], ∀ seg ∈ (sentLogs defaultTxConfig
      (ringRun defaultTxConfig [slicedFrame] actions).2).1,
      Announced 2 seg ∧ entriesOf seg ≠ slicedFrame.entries := by decide +kernel
  have hcut : ∀ actions ∈ [flushBeforeOpen, flushWhileOpen], SentCut actions := by
    intro actions ha
    obtain ⟨seg, hseg⟩ := List.length_eq_one_iff.mp (hlength actions ha)
    obtain ⟨hann, hentries⟩ := hlogs actions ha seg (by simp [hseg])
    exact sentCut_of_log hseg hann hentries
  exact ⟨hcut _ (by simp), hcut _ (by simp)⟩

end Ar8030

import Ar8030Transport.Library.Packing
import Ar8030Transport.Tx.Outq
import Ar8030Transport.Tx.SendLoop

/-!
# Combined writes

`stage_outq`, `flush_outq` and `chunk_send_to_socket` of `tx/main.c`: the items of the queue go out
as frames of one chunk each, in front of the next video chunk and in one write with it.

What the other threads push meanwhile, the clock and the socket are decided outside, by a value of
`Surroundings` for each call. A call returns what it has popped and written along with its state.
-/

namespace Ar8030

open Packing HexText

/-! ### Sizes -/

/-- `AR8030_SIDECAR_MAX_PAYLOAD`. -/
def sidecarMaxPayload : ℕ := 512

/-- `aux_payload_max`. -/
def TxConfig.auxPayloadMax (cfg : TxConfig) : ℕ :=
  if cfg.chunkPayload < sidecarMaxPayload then cfg.chunkPayload else sidecarMaxPayload

/-- `combo_cap`. -/
def TxConfig.comboCap (cfg : TxConfig) : ℕ :=
  txOutqDepth * (chunkHdrSize + sidecarMaxPayload) + chunkHdrSize + cfg.chunkPayload

theorem TxConfig.auxPayloadMax_pos (cfg : TxConfig) : 0 < cfg.auxPayloadMax := by
  rw [auxPayloadMax]
  split_ifs
  · exact cfg.chunkPayload_pos
  · decide

theorem TxConfig.auxPayloadMax_le (cfg : TxConfig) : cfg.auxPayloadMax ≤ sidecarMaxPayload := by
  rw [auxPayloadMax]
  split_ifs with hlt
  · exact hlt.le
  · exact le_rfl

/-! ### The socket -/

/-- Whether `stop_flag` is set before an attempt to write, and what `bb_socket_write` returns for
so many bytes. -/
structure Socket where
  stopFlag : ℕ → Bool
  bbSocketWrite : ℕ → ℕ → ℤ

/-- Every attempt is made, and takes at least one byte. -/
structure Socket.Progress (socket : Socket) : Prop where
  stopFlag : ∀ n, socket.stopFlag n = false
  bbSocketWrite : ∀ n len, 0 < len →
    0 < socket.bbSocketWrite n len ∧ socket.bbSocketWrite n len ≤ len

/-- What came of a write: the return value, the number of the next attempt, the bytes that were
taken, and the new `last_write_ret` if there is one. -/
structure Written where
  ret : ℤ
  attempts : ℕ
  wire : List UInt8
  lastWriteRet : Option ℤ

/-- Nothing is written. -/
def Written.nothing : Written := ⟨0, 0, [], none⟩

/-- `write_all`, from attempt `n` on. -/
def writeAll (socket : Socket) (n : ℕ) (buf : List UInt8) : Written :=
  if hbuf : buf = [] then ⟨0, n, [], none⟩
  else if socket.stopFlag n then ⟨-1, n + 1, [], none⟩
  else
    let wr := socket.bbSocketWrite n buf.length
    if hwr : wr ≤ 0 then ⟨-1, n + 1, [], some wr⟩
    else
      let rest := writeAll socket (n + 1) (buf.drop wr.toNat)
      { rest with wire := buf.take wr.toNat ++ rest.wire }
termination_by buf.length
decreasing_by
  have hpos := List.length_pos_iff.mpr hbuf
  rw [List.length_drop]
  omega

/-! ### The send context -/

/-- `struct tx_send_ctx`, as far as it changes. -/
structure TxSendCtx (cfg : TxConfig) where
  outq : TxOutq
  auxSeq : UInt16
  /-- `combo[0 .. combo_len)`. -/
  combo : Buffer UInt8 cfg.comboCap
  lastWriteRet : ℤ
  stats : TxStats

/-- What happens around a call. -/
structure Surroundings where
  /-- The items other threads push before each `tx_outq_pop`; before those behind the end of the
  list, none. -/
  pushes : List (List TxOutqItem)
  /-- `now_monotonic_us` after each `tx_outq_pop`. -/
  nowMonotonicUs : ℕ → ℕ
  socket : Socket

variable {cfg : TxConfig}

/-- `append_to_combo`. -/
def appendToCombo (combo : Buffer UInt8 cfg.comboCap) (c : Chunk) :
    Bool × Buffer UInt8 cfg.comboCap :=
  combo.append c.bytes

/-- The call of `ar8030_chunk_frame` for the payload of an item. -/
def TxSendCtx.auxCall (sc : TxSendCtx cfg) (item : TxOutqItem) (data : List UInt8) :
    Option (ChunkRun (Buffer UInt8 cfg.comboCap)) :=
  chunkFrame ⟨sc.auxSeq, 0, item.codec, 0⟩ data cfg.auxPayloadMax appendToCombo sc.combo
    (chunkHdrSize + sidecarMaxPayload)

/-- The body of the loop in `stage_outq`, for an item and the time. What the chunker returns is not
looked at. -/
def TxSendCtx.stageItem (sc : TxSendCtx cfg) (p : TxOutqItem × ℕ) : TxSendCtx cfg :=
  match stageOutq cfg.auxPayloadMax p.1 p.2 with
  | none => sc
  | some data =>
    { sc with
      auxSeq := sc.auxSeq + 1
      combo := ((sc.auxCall p.1 data).map ChunkRun.ctx).getD sc.combo }

/-- Staging leaves the queue alone. -/
@[simp]
theorem TxSendCtx.outq_stageItem (sc : TxSendCtx cfg) (p : TxOutqItem × ℕ) :
    (sc.stageItem p).outq = sc.outq := by
  rw [stageItem]
  split <;> rfl

/-- Other threads push some items. -/
def txOutqPushAll (q : TxOutq) (items : List TxOutqItem) : TxOutq := items.foldl txOutqPush q

theorem count_pop_lt {q : TxOutq} {item : TxOutqItem} (h : (txOutqPop q).1 = some item) :
    (txOutqPop q).2.count < q.count := by
  rw [txOutqPop] at h ⊢
  split_ifs at h ⊢ with hempty
  exact Nat.sub_lt (Nat.pos_of_ne_zero hempty) Nat.one_pos

/-- The loop of `stage_outq`, from pop `n` on; with it the items that were popped, each with the
time. -/
def TxSendCtx.stageLoop (nowMonotonicUs : ℕ → ℕ) (pushes : List (List TxOutqItem)) (n : ℕ)
    (sc : TxSendCtx cfg) : TxSendCtx cfg × List (TxOutqItem × ℕ) :=
  let q := txOutqPushAll sc.outq (pushes.headD [])
  match hpop : (txOutqPop q).1 with
  | none => ({ sc with outq := q }, [])
  | some item =>
    let p := (item, nowMonotonicUs n)
    let rest := stageLoop nowMonotonicUs pushes.tail (n + 1)
      (({ sc with outq := (txOutqPop q).2 } : TxSendCtx cfg).stageItem p)
    (rest.1, p :: rest.2)
termination_by (pushes.length, sc.outq.count)
decreasing_by
  cases pushes with
  | nil =>
    refine Prod.Lex.right _ ?_
    rw [TxSendCtx.outq_stageItem]
    exact count_pop_lt hpop
  | cons row rows => exact Prod.Lex.left _ _ (Nat.lt_succ_self _)

/-- `stage_outq`. -/
def TxSendCtx.stageOutq (around : Surroundings) (sc : TxSendCtx cfg) :
    TxSendCtx cfg × List (TxOutqItem × ℕ) :=
  sc.stageLoop around.nowMonotonicUs around.pushes 0

/-! ### The calls -/

/-- The state after a call, the items it has popped, and the bytes it has put on the wire. -/
structure SendRun (cfg : TxConfig) where
  ctx : TxSendCtx cfg
  popped : List (TxOutqItem × ℕ)
  wire : List UInt8

/-- After the writes of a call the buffer is empty. -/
def TxSendCtx.afterWrite (sc : TxSendCtx cfg) (w : Written) : TxSendCtx cfg :=
  { sc with
    combo := .empty
    lastWriteRet := w.lastWriteRet.getD sc.lastWriteRet }

/-- The queue is staged into the empty buffer. -/
def TxSendCtx.staged (around : Surroundings) (sc : TxSendCtx cfg) :
    TxSendCtx cfg × List (TxOutqItem × ℕ) :=
  ({ sc with combo := .empty } : TxSendCtx cfg).stageOutq around

/-- `flush_outq`. -/
def TxSendCtx.flushOutq (around : Surroundings) (sc : TxSendCtx cfg) : SendRun cfg :=
  let r := sc.staged around
  let w := if r.1.combo.items ≠ [] then writeAll around.socket 0 r.1.combo.items else .nothing
  { ctx := r.1.afterWrite w
    popped := r.2
    wire := w.wire }

/-- The writes of `chunk_send_to_socket`: one if there is room for the chunk behind what is staged,
and else one for each. -/
def writeCombo (socket : Socket) (combo : Buffer UInt8 cfg.comboCap) (buf : List UInt8) :
    Written :=
  if combo.items ≠ [] ∧ combo.items.length + buf.length ≤ cfg.comboCap then
    writeAll socket 0 (combo.items ++ buf)
  else
    let w := if combo.items ≠ [] then writeAll socket 0 combo.items else .nothing
    if w.ret = 0 then
      let w' := writeAll socket w.attempts buf
      { w' with wire := w.wire ++ w'.wire }
    else w

/-- `chunk_send_to_socket`. -/
def TxSendCtx.chunkSendToSocket (around : Surroundings) (sc : TxSendCtx cfg) (buf : List UInt8) :
    ℤ × SendRun cfg :=
  let r := sc.staged around
  let w := writeCombo around.socket r.1.combo buf
  let sc := r.1.afterWrite w
  if w.ret ≠ 0 then
    (-1,
      { ctx := { sc with stats := { sc.stats with chunksFailed := sc.stats.chunksFailed + 1 } }
        popped := r.2
        wire := w.wire })
  else
    (0,
      { ctx :=
          { sc with
            stats :=
              { sc.stats with
                chunksSent := sc.stats.chunksSent + 1
                bytesSent := sc.stats.bytesSent + buf.length } }
        popped := r.2
        wire := w.wire })

/-! ### What should be written -/

/-- The text of a `SYNCR`. -/
def syncrText (item : TxOutqItem) (t3 : ℕ) : List UInt8 :=
  syncrTag ++ hex item.syncSeq ++ 32 :: hex item.t1Us ++ 32 :: hex item.t2Us ++ 32 :: hex t3

/-- What an item says at a time. -/
def auxText (p : TxOutqItem × ℕ) : List UInt8 :=
  if p.1.isSyncr then syncrText p.1 p.2 else p.1.data

/-- The item is within the length limit. -/
def IsDue (cfg : TxConfig) (p : TxOutqItem × ℕ) : Prop :=
  1 ≤ (auxText p).length ∧ (auxText p).length ≤ cfg.auxPayloadMax

instance (p : TxOutqItem × ℕ) : Decidable (IsDue cfg p) := inferInstanceAs (Decidable (_ ∧ _))

/-- A `SYNCR` fits into the buffer in which it is formatted. -/
def IsFormatted (p : TxOutqItem × ℕ) : Prop :=
  p.1.isSyncr = true → (auxText p).length < ctrlMaxPayload

instance (p : TxOutqItem × ℕ) : Decidable (IsFormatted p) := inferInstanceAs (Decidable (_ → _))

/-- The items within the length limit. -/
def auxDue (cfg : TxConfig) (popped : List (TxOutqItem × ℕ)) : List (TxOutqItem × ℕ) :=
  popped.filter fun p => IsDue cfg p

/-- The length of the frame of an item. -/
def auxFrameLen (p : TxOutqItem × ℕ) : ℕ := chunkHdrSize + (auxText p).length

/-- The chunk is a frame of its own for the item. -/
structure CarriesItem (p : TxOutqItem × ℕ) (c : Chunk) : Prop where
  isSealed : c.Sealed
  payload_eq : c.payload = auxText p
  chunkIdx_eq : c.hdr.chunkIdx = 0
  chunkCount_eq : c.hdr.chunkCount = 1
  codec_eq : c.hdr.codec = p.1.codec
  flags_eq : c.hdr.flags = 0
  framePts_eq : c.hdr.framePts = 0

/-- The wire has one frame for each of the items, in order, and then the video chunk. -/
def CarriesAll (items : List (TxOutqItem × ℕ)) (video wire : List UInt8) : Prop :=
  ∃ chunks, List.Forall₂ CarriesItem items chunks ∧ wire = chunks.flatMap Chunk.bytes ++ video

/-- The frames of the items within the limit fit into the buffer together, and the text of every
`SYNCR` among them into its own. -/
def FitsCombo (cfg : TxConfig) (popped : List (TxOutqItem × ℕ)) : Prop :=
  ((auxDue cfg popped).map auxFrameLen).sum ≤ cfg.comboCap ∧
    ∀ p ∈ auxDue cfg popped, IsFormatted p

/-- The items a call pops, each with the time. -/
def Surroundings.drained (around : Surroundings) (q : TxOutq) : List (TxOutqItem × ℕ) :=
  ((DropOldest.drain txOutqDepth around.pushes q.contents).zipIdx).map fun p =>
    (p.1, around.nowMonotonicUs p.2)

/-! ### Writing -/

/-- **Partial writes add up**: as long as each takes something, everything is written. -/
theorem writeAll_progress {socket : Socket} (h : socket.Progress) (n : ℕ) (buf : List UInt8) :
    (writeAll socket n buf).ret = 0 ∧ (writeAll socket n buf).wire = buf ∧
      (writeAll socket n buf).lastWriteRet = none := by
  fun_induction writeAll socket n buf with
  | case1 => exact ⟨rfl, rfl, rfl⟩
  | case2 n buf hbuf hstop => exact absurd ((h.stopFlag n).symm.trans hstop) Bool.false_ne_true
  | case3 n buf hbuf hstop wr hwr =>
    have hpos := (h.bbSocketWrite n buf.length (List.length_pos_iff.mpr hbuf)).1
    exact absurd hwr (Int.not_le.mpr hpos)
  | case4 n buf hbuf hstop wr hwr rest ih =>
    obtain ⟨hret, hwire, hlast⟩ := ih
    refine ⟨hret, ?_, hlast⟩
    show buf.take wr.toNat ++ rest.wire = buf
    rw [hwire, List.take_append_drop]

/-- In either order the staged chunks go first. -/
theorem writeCombo_progress {socket : Socket} (h : socket.Progress)
    (combo : Buffer UInt8 cfg.comboCap) (buf : List UInt8) :
    (writeCombo socket combo buf).ret = 0 ∧
      (writeCombo socket combo buf).wire = combo.items ++ buf := by
  rw [writeCombo]
  split_ifs with hroom hstaged
  · obtain ⟨hret, hwire, -⟩ := writeAll_progress h 0 (combo.items ++ buf)
    exact ⟨hret, hwire⟩
  · obtain ⟨hret, hwire, -⟩ := writeAll_progress h 0 combo.items
    obtain ⟨hret', hwire', -⟩ := writeAll_progress h (writeAll socket 0 combo.items).attempts buf
    dsimp only
    rw [if_pos hret, hwire, hwire']
    exact ⟨hret', rfl⟩
  · obtain ⟨hret', hwire', -⟩ := writeAll_progress h 0 buf
    have hnil : combo.items = [] := not_not.mp hstaged
    rw [hnil]
    exact ⟨hret', hwire'⟩

/-! ### Staging -/

/-- The items that are staged. -/
def auxReady (cfg : TxConfig) (popped : List (TxOutqItem × ℕ)) : List (TxOutqItem × ℕ) :=
  (auxDue cfg popped).filter fun p => IsFormatted p

theorem auxReady_cons (p : TxOutqItem × ℕ) (popped : List (TxOutqItem × ℕ)) :
    auxReady cfg (p :: popped) =
      if IsDue cfg p ∧ IsFormatted p then p :: auxReady cfg popped else auxReady cfg popped := by
  rw [auxReady, auxReady, auxDue, auxDue, List.filter_cons]
  by_cases hdue : IsDue cfg p
  · rw [if_pos (decide_eq_true hdue), List.filter_cons]
    by_cases hfmt : IsFormatted p <;> simp [hdue, hfmt]
  · simp [hdue]

/-- What `stage_outq` makes of an item is its text. -/
theorem stageOutq_eq (p : TxOutqItem × ℕ) :
    stageOutq cfg.auxPayloadMax p.1 p.2 =
      if IsDue cfg p ∧ IsFormatted p then some (auxText p) else none := by
  have hlen : ¬ ((auxText p).length = 0 ∨ cfg.auxPayloadMax < (auxText p).length) ↔
      IsDue cfg p := by
    rw [IsDue]
    omega
  by_cases hsyncr : p.1.isSyncr = true
  swap
  · have hfmt : IsFormatted p := fun h => absurd h hsyncr
    have htext : auxText p = p.1.data := if_neg hsyncr
    rw [htext] at hlen
    rw [stageOutq, htext]
    dsimp only
    rw [if_neg fun h => hsyncr h.1, if_neg hsyncr, ← ite_not, if_congr hlen rfl rfl]
    simp only [hfmt, and_true]
  · have htext : auxText p = syncrText p.1 p.2 := if_pos hsyncr
    have hpos : (syncrText p.1 p.2).length ≠ 0 := by simp [syncrText]
    rw [htext] at hlen
    rw [stageOutq, ← syncrText, htext]
    dsimp only
    by_cases hfmt : (syncrText p.1 p.2).length < ctrlMaxPayload
    · have hshort : ¬ (p.1.isSyncr = true ∧
          ((syncrText p.1 p.2).length = 0 ∨ ctrlMaxPayload ≤ (syncrText p.1 p.2).length)) :=
        fun h => h.2.elim hpos (Nat.not_le.mpr hfmt)
      have hformatted : IsFormatted p := fun _ => htext ▸ hfmt
      rw [snprintf_of_lt hfmt, if_neg hshort, if_pos hsyncr, ← ite_not, if_congr hlen rfl rfl]
      simp only [hformatted, and_true]
    · have hformatted : ¬ (IsDue cfg p ∧ IsFormatted p) := fun h => hfmt (htext ▸ h.2 hsyncr)
      rw [if_neg hformatted]
      exact if_pos ⟨hsyncr, .inr (Nat.le_of_not_lt hfmt)⟩

/-- The context after one chunk. -/
theorem sendChunks_singleton {σ : Type*} (send : σ → Chunk → Bool × σ) (c : Chunk) (ctx : σ) :
    (sendChunks send [c] ctx).2 = (send ctx c).2 := by
  rw [sendChunks]
  rcases send ctx c with ⟨_ | _, ctx'⟩ <;> rfl

/-- **One item** is appended as a chunk of its own, if there is room. -/
theorem stageItem_of_ready (sc : TxSendCtx cfg) {p : TxOutqItem × ℕ} (hdue : IsDue cfg p)
    (hfmt : IsFormatted p) :
    ∃ c, CarriesItem p c ∧ (sc.stageItem p).combo = (sc.combo.append c.bytes).2 := by
  have hmax : cfg.auxPayloadMax ≤ chunkMaxPayload := cfg.auxPayloadMax_le.trans (by decide)
  obtain ⟨c, hpayload, hsealed, hc, hframe⟩ := chunkFrame_single appendToCombo sc.combo
    ⟨sc.auxSeq, 0, p.1.codec, 0⟩ cfg.auxPayloadMax_pos hdue.2 hmax
    (Nat.add_le_add_left cfg.auxPayloadMax_le chunkHdrSize)
  refine ⟨c, ⟨hsealed, hpayload, ?_, ?_, ?_, ?_, ?_⟩, ?_⟩
  iterate 5 rw [hc]; rfl
  rw [TxSendCtx.stageItem, stageOutq_eq, if_pos ⟨hdue, hfmt⟩]
  dsimp only
  rw [TxSendCtx.auxCall, hframe, Option.map_some, Option.getD_some]
  exact sendChunks_singleton appendToCombo c sc.combo

theorem stageItem_of_not_ready (sc : TxSendCtx cfg) {p : TxOutqItem × ℕ}
    (h : ¬ (IsDue cfg p ∧ IsFormatted p)) : sc.stageItem p = sc := by
  rw [TxSendCtx.stageItem, stageOutq_eq, if_neg h]

/-- What other threads push comes behind what is held. -/
theorem contents_pushAll (q : TxOutq) (items : List TxOutqItem) :
    (txOutqPushAll q items).contents = DropOldest.pushAll txOutqDepth q.contents items := by
  induction items generalizing q with
  | nil => rfl
  | cons item items ih =>
    have hstep := (outqStep_refines q (.push item)).1
    rw [txOutqPushAll, List.foldl_cons, DropOldest.pushAll, List.foldl_cons, ← hstep]
    exact ih (txOutqPush q item)

/-- **The loop** pops what the queue gives until it is empty, and stages it item by item. -/
theorem stageLoop_spec (nowMonotonicUs : ℕ → ℕ) (pushes : List (List TxOutqItem)) (n : ℕ)
    (sc : TxSendCtx cfg) :
    (sc.stageLoop nowMonotonicUs pushes n).2 =
        ((DropOldest.drain txOutqDepth pushes sc.outq.contents).zipIdx n).map
          (fun p => (p.1, nowMonotonicUs p.2)) ∧
      ∃ chunks, List.Forall₂ CarriesItem
          (auxReady cfg (sc.stageLoop nowMonotonicUs pushes n).2) chunks ∧
        (sc.stageLoop nowMonotonicUs pushes n).1.combo =
          sc.combo.appendAll (chunks.map Chunk.bytes) := by
  fun_induction TxSendCtx.stageLoop nowMonotonicUs pushes n sc with
  | case1 pushes n sc q hpop =>
    -- the queue is empty at last
    have hnil : DropOldest.pushAll txOutqDepth sc.outq.contents (pushes.headD []) = [] := by
      rw [← contents_pushAll]
      exact List.head?_eq_none_iff.mp ((popped_eq q).symm.trans hpop)
    rw [DropOldest.drain_of_nil hnil]
    exact ⟨rfl, [], .nil, rfl⟩
  | case2 pushes n sc q item hpop p rest ih =>
    obtain ⟨hpopped, chunks, hcarry, hcombo⟩ := ih
    have hcons : DropOldest.pushAll txOutqDepth sc.outq.contents (pushes.headD []) =
        item :: (txOutqPop q).2.contents := by
      rw [← contents_pushAll, contents_pop]
      exact List.eq_cons_of_mem_head? ((popped_eq q).symm.trans hpop)
    rw [DropOldest.drain_of_cons hcons, List.zipIdx_cons, List.map_cons]
    refine ⟨by rw [hpopped, TxSendCtx.outq_stageItem], ?_⟩
    show ∃ chunks, List.Forall₂ CarriesItem (auxReady cfg (p :: rest.2)) chunks ∧
      rest.1.combo = sc.combo.appendAll (chunks.map Chunk.bytes)
    rw [auxReady_cons]
    -- whether it is staged or not, the rest of the loop appends behind it
    by_cases hready : IsDue cfg p ∧ IsFormatted p
    · obtain ⟨c, hc, happend⟩ := stageItem_of_ready
        ({ sc with outq := (txOutqPop q).2 } : TxSendCtx cfg) hready.1 hready.2
      rw [if_pos hready]
      exact ⟨c :: chunks, .cons hc hcarry, by rw [hcombo, happend]; rfl⟩
    · rw [if_neg hready]
      exact ⟨chunks, hcarry, by rw [hcombo, stageItem_of_not_ready _ hready]⟩

/-! ### What is on the wire -/

theorem CarriesItem.length_bytes {p : TxOutqItem × ℕ} {c : Chunk} (h : CarriesItem p c) :
    c.bytes.length = auxFrameLen p := by rw [Chunk.length_bytes, h.payload_eq, auxFrameLen]

theorem auxFrameLen_pos (p : TxOutqItem × ℕ) : 0 < auxFrameLen p :=
  Nat.lt_of_lt_of_le (by decide : 0 < chunkHdrSize) (Nat.le_add_right _ _)

/-- The lengths of the frames are those of the items. -/
theorem map_length_bytes {items : List (TxOutqItem × ℕ)} {chunks : List Chunk}
    (h : List.Forall₂ CarriesItem items chunks) :
    (chunks.map Chunk.bytes).map List.length = items.map auxFrameLen := by
  induction h with
  | nil => rfl
  | cons hc _ ih => rw [List.map_cons, List.map_cons, List.map_cons, hc.length_bytes, ih]

section Wire

variable {popped : List (TxOutqItem × ℕ)} {chunks : List Chunk}

/-- Whatever is left out is left out whole. -/
theorem exists_carriesAll (h : List.Forall₂ CarriesItem (auxReady cfg popped) chunks)
    (combo : Buffer UInt8 cfg.comboCap)
    (hcombo : combo = Buffer.empty.appendAll (chunks.map Chunk.bytes)) (video : List UInt8) :
    ∃ sent, sent.Sublist (auxDue cfg popped) ∧ CarriesAll sent video (combo.items ++ video) := by
  obtain ⟨kept, hkept, hitems⟩ := Buffer.empty.appendAll_eq_flatten (chunks.map Chunk.bytes)
  obtain ⟨chunks', hchunks', rfl⟩ := List.sublist_map_iff.mp hkept
  obtain ⟨sent, hsent, hcarry⟩ := exists_sublist_of_forall₂ h hchunks'
  refine ⟨sent, hsent.trans List.filter_sublist, chunks', hcarry, ?_⟩
  rw [hcombo, hitems, List.flatMap_def]
  rfl

/-- **Nothing is left out** exactly if there is room for everything. -/
theorem carriesAll_iff (h : List.Forall₂ CarriesItem (auxReady cfg popped) chunks)
    (combo : Buffer UInt8 cfg.comboCap)
    (hcombo : combo = Buffer.empty.appendAll (chunks.map Chunk.bytes)) (video : List UInt8) :
    CarriesAll (auxDue cfg popped) video (combo.items ++ video) ↔ FitsCombo cfg popped := by
  have hready := map_length_bytes h
  constructor
  · rintro ⟨chunks', hcarry, hwire⟩
    have hitems : combo.items = chunks'.flatMap Chunk.bytes := List.append_cancel_right hwire
    have hlen : combo.items.length = ((auxDue cfg popped).map auxFrameLen).sum := by
      rw [hitems, List.flatMap_def, List.length_flatten, map_length_bytes hcarry]
    refine ⟨hlen ▸ combo.length_le, fun p hp => ?_⟩
    -- what is staged weighs as much as what is due
    have hle := (Buffer.empty : Buffer UInt8 cfg.comboCap).length_appendAll_le
      (chunks.map Chunk.bytes)
    rw [← hcombo, hlen, hready] at hle
    exact of_decide_eq_true (forall_of_sum_le auxFrameLen_pos ((Nat.zero_add _) ▸ hle) p hp)
  · rintro ⟨hfits, hformatted⟩
    have hall : auxReady cfg popped = auxDue cfg popped :=
      List.filter_eq_self.mpr fun p hp => decide_eq_true (hformatted p hp)
    rw [hall] at h hready
    have hroom := (Buffer.appendAll_items_eq_iff (Buffer.empty : Buffer UInt8 cfg.comboCap)
      (chunks.map Chunk.bytes)).mpr (by rw [hready]; exact (Nat.zero_add _).le.trans hfits)
    refine ⟨chunks, h, ?_⟩
    rw [hcombo, hroom, List.flatMap_def]
    rfl

end Wire

/-! ### Whole chunks -/

section Calls

variable (around : Surroundings) (sc : TxSendCtx cfg)

/-- What a call stages, whatever it writes then. -/
theorem TxSendCtx.staged_spec :
    (sc.staged around).2 = around.drained sc.outq ∧
      ∃ chunks, List.Forall₂ CarriesItem (auxReady cfg (sc.staged around).2) chunks ∧
        (sc.staged around).1.combo = Buffer.empty.appendAll (chunks.map Chunk.bytes) :=
  stageLoop_spec around.nowMonotonicUs around.pushes 0 { sc with combo := .empty }

/-- A call that writes what is staged, and behind it `video`. -/
theorem TxSendCtx.wire_spec {video wire : List UInt8}
    (hwire : wire = (sc.staged around).1.combo.items ++ video) :
    (∃ sent, sent.Sublist (auxDue cfg (sc.staged around).2) ∧ CarriesAll sent video wire) ∧
      (CarriesAll (auxDue cfg (sc.staged around).2) video wire ↔
        FitsCombo cfg (around.drained sc.outq)) := by
  obtain ⟨hpopped, chunks, hcarry, hcombo⟩ := sc.staged_spec around
  rw [hwire]
  refine ⟨exists_carriesAll hcarry _ hcombo video, ?_⟩
  rw [carriesAll_iff hcarry _ hcombo video, hpopped]

theorem TxSendCtx.wire_flushOutq (h : around.socket.Progress) :
    (sc.flushOutq around).wire = (sc.staged around).1.combo.items ++ [] := by
  rw [flushOutq, List.append_nil]
  dsimp only
  split_ifs with hstaged
  · exact (writeAll_progress h 0 _).2.1
  · exact (not_not.mp hstaged).symm

theorem TxSendCtx.chunkSendToSocket_spec (h : around.socket.Progress) (buf : List UInt8) :
    (sc.chunkSendToSocket around buf).2.popped = (sc.staged around).2 ∧
      (sc.chunkSendToSocket around buf).2.wire = (sc.staged around).1.combo.items ++ buf := by
  obtain ⟨hret, hwire⟩ := writeCombo_progress h (sc.staged around).1.combo buf
  rw [chunkSendToSocket]
  dsimp only
  rw [if_neg (not_not.mpr hret)]
  exact ⟨rfl, hwire⟩

theorem TxSendCtx.stats_staged : (sc.staged around).1.stats = sc.stats := by
  have hitem (sc : TxSendCtx cfg) (p : TxOutqItem × ℕ) : (sc.stageItem p).stats = sc.stats := by
    rw [stageItem]
    split <;> rfl
  have hloop (pushes n) (sc : TxSendCtx cfg) :
      (sc.stageLoop around.nowMonotonicUs pushes n).1.stats = sc.stats := by
    fun_induction TxSendCtx.stageLoop around.nowMonotonicUs pushes n sc with
    | case1 => rfl
    | case2 pushes n sc q item hpop p rest ih => exact ih.trans (hitem _ p)
  exact hloop around.pushes 0 _

/-- To the send loop a call is a write that succeeds or does not. -/
theorem TxSendCtx.stats_chunkSendToSocket (c : Chunk) (log : List TxEvent) :
    (sc.chunkSendToSocket around c.bytes).2.ctx.stats =
      (Ar8030.chunkSendToSocket
        ⟨[(sc.chunkSendToSocket around c.bytes).1 = 0], log, sc.stats⟩ c).2.stats := by
  rw [chunkSendToSocket, ← sc.stats_staged around]
  dsimp only
  split_ifs <;> rfl

/-- **Combined writes** lose nothing if and only if there is room for all that is popped. Always the
buffer is never filled beyond its end, no chunk is split and the order is kept. -/
theorem combinedWrites_whole (h : around.socket.Progress) :
    (sc.staged around).1.combo.items.length ≤ cfg.comboCap ∧
    ((sc.flushOutq around).popped = around.drained sc.outq ∧
      (∃ sent, sent.Sublist (auxDue cfg (sc.flushOutq around).popped) ∧
        CarriesAll sent [] (sc.flushOutq around).wire) ∧
      (CarriesAll (auxDue cfg (sc.flushOutq around).popped) [] (sc.flushOutq around).wire ↔
        FitsCombo cfg (around.drained sc.outq))) ∧
    ∀ buf,
      (sc.chunkSendToSocket around buf).2.popped = around.drained sc.outq ∧
      (∃ sent, sent.Sublist (auxDue cfg (sc.chunkSendToSocket around buf).2.popped) ∧
        CarriesAll sent buf (sc.chunkSendToSocket around buf).2.wire) ∧
      (CarriesAll (auxDue cfg (sc.chunkSendToSocket around buf).2.popped) buf
          (sc.chunkSendToSocket around buf).2.wire ↔
        FitsCombo cfg (around.drained sc.outq)) := by
  have hpopped := (sc.staged_spec around).1
  refine ⟨(sc.staged around).1.combo.length_le, ⟨hpopped, ?_⟩, fun buf => ?_⟩
  · exact sc.wire_spec around (sc.wire_flushOutq around h)
  · obtain ⟨hsame, hwire⟩ := sc.chunkSendToSocket_spec around h buf
    rw [hsame]
    exact ⟨hpopped, sc.wire_spec around hwire⟩

end Calls

/-! ### Room for a full queue -/

/-- If nothing is pushed meanwhile, there is room. -/
theorem fitsCombo_of_quiet {around : Surroundings} (h : around.pushes = []) (q : TxOutq)
    (hformatted : ∀ p ∈ around.drained q, IsFormatted p) :
    FitsCombo cfg (around.drained q) := by
  refine ⟨?_, fun p hp => hformatted p (List.mem_of_mem_filter hp)⟩
  have hlen : (auxDue cfg (around.drained q)).length ≤ txOutqDepth := by
    refine (List.length_filter_le _ _).trans ?_
    rw [Surroundings.drained, h, DropOldest.drain, List.length_map, List.length_zipIdx,
      q.length_contents]
    exact q.count_le
  have hsum : ((auxDue cfg (around.drained q)).map auxFrameLen).sum ≤
      (auxDue cfg (around.drained q)).length * (chunkHdrSize + sidecarMaxPayload) := by
    have hle : ∀ n ∈ (auxDue cfg (around.drained q)).map auxFrameLen,
        n ≤ chunkHdrSize + sidecarMaxPayload := by
      intro n hn
      obtain ⟨p, hp, rfl⟩ := List.mem_map.mp hn
      have hdue : IsDue cfg p := of_decide_eq_true (List.mem_filter.mp hp).2
      exact Nat.add_le_add_left (hdue.2.trans cfg.auxPayloadMax_le) _
    have hcard := List.sum_le_card_nsmul _ _ hle
    rwa [List.length_map, nsmul_eq_mul, Nat.cast_id] at hcard
  calc ((auxDue cfg (around.drained q)).map auxFrameLen).sum
      ≤ (auxDue cfg (around.drained q)).length * (chunkHdrSize + sidecarMaxPayload) := hsum
    _ ≤ txOutqDepth * (chunkHdrSize + sidecarMaxPayload) := Nat.mul_le_mul_right _ hlen
    _ ≤ cfg.comboCap := (Nat.le_add_right _ _).trans (Nat.le_add_right _ _)

/-- A chunk has room for the greatest sidecar datagram, and no more. -/
def sidecarConfig : TxConfig := ⟨sidecarMaxPayload, by decide, by decide⟩

/-- Such a datagram. -/
def longDatagram : TxOutqItem := ⟨List.replicate sidecarMaxPayload 0, 0x04, false, 0, 0, 0⟩

/-- The queue is full of such datagrams. -/
def fullSendCtx : TxSendCtx sidecarConfig where
  outq :=
    { TxOutq.init with
      items := fun _ => longDatagram
      count := txOutqDepth
      count_le := Nat.le_refl _ }
  auxSeq := 0
  combo := .empty
  lastWriteRet := 0
  stats := ⟨0, 0, 0, 0, 0, 0⟩

/-- A socket that takes everything. -/
def Surroundings.pushing (pushes : List (List TxOutqItem)) : Surroundings :=
  ⟨pushes, fun _ => 0, ⟨fun _ => false, fun _ len => len⟩⟩

theorem Surroundings.progress_pushing (pushes : List (List TxOutqItem)) :
    (Surroundings.pushing pushes).socket.Progress :=
  ⟨fun _ => rfl, fun _ _ h => ⟨Int.natCast_pos.mpr h, le_rfl⟩⟩

theorem isDue_longDatagram (t3 : ℕ) : IsDue sidecarConfig (longDatagram, t3) := by
  have hlen : (auxText (longDatagram, t3)).length = sidecarMaxPayload := List.length_replicate
  rw [IsDue, hlen]
  decide

theorem auxDue_longDatagram (n t3 : ℕ) :
    auxDue sidecarConfig (List.replicate n (longDatagram, t3)) =
      List.replicate n (longDatagram, t3) := by
  refine List.filter_eq_self.mpr fun p hp => decide_eq_true ?_
  rw [List.eq_of_mem_replicate hp]
  exact isDue_longDatagram t3

/-- A full queue goes out in front of a chunk of 3 bytes, or alone. -/
theorem combinedWrites_whole_quiet :
    CarriesAll (List.replicate 16 (longDatagram, 0)) [] (fullSendCtx.flushOutq (.pushing [])).wire ∧
      CarriesAll (List.replicate 16 (longDatagram, 0)) [1, 2, 3]
        (fullSendCtx.chunkSendToSocket (.pushing []) [1, 2, 3]).2.wire := by
  obtain ⟨-, ⟨hpopped, -, hflush⟩, hsend⟩ :=
    combinedWrites_whole (.pushing []) fullSendCtx (Surroundings.progress_pushing [])
  obtain ⟨hpopped', -, hsend⟩ := hsend [1, 2, 3]
  have hdrained : (Surroundings.pushing []).drained fullSendCtx.outq =
      List.replicate 16 (longDatagram, 0) := rfl
  have hfits : FitsCombo sidecarConfig ((Surroundings.pushing []).drained fullSendCtx.outq) := by
    refine fitsCombo_of_quiet rfl _ fun p hp => ?_
    rw [hdrained] at hp
    rw [List.eq_of_mem_replicate hp]
    exact fun h => absurd h Bool.false_ne_true
  rw [hpopped, hdrained, auxDue_longDatagram] at hflush
  rw [hpopped', hdrained, auxDue_longDatagram] at hsend
  exact ⟨hflush.mpr (hdrained ▸ hfits), hsend.mpr (hdrained ▸ hfits)⟩

/-- With two more pushed while the queue is drained, 18 such datagrams are popped, and there is no
room for the last. -/
theorem combinedWrites_loses :
    (Surroundings.pushing [[], [longDatagram], [longDatagram]]).socket.Progress ∧
      ¬ CarriesAll
        (auxDue sidecarConfig
          (fullSendCtx.flushOutq (.pushing [[], [longDatagram], [longDatagram]])).popped) []
        (fullSendCtx.flushOutq (.pushing [[], [longDatagram], [longDatagram]])).wire ∧
      ∀ buf, ¬ CarriesAll
        (auxDue sidecarConfig
          (fullSendCtx.chunkSendToSocket (.pushing [[], [longDatagram], [longDatagram]])
            buf).2.popped) buf
        (fullSendCtx.chunkSendToSocket (.pushing [[], [longDatagram], [longDatagram]])
          buf).2.wire := by
  have hprogress := Surroundings.progress_pushing [[], [longDatagram], [longDatagram]]
  have hdrained : (Surroundings.pushing [[], [longDatagram], [longDatagram]]).drained
      fullSendCtx.outq = List.replicate 18 (longDatagram, 0) := rfl
  have hfits : ¬ FitsCombo sidecarConfig ((Surroundings.pushing
      [[], [longDatagram], [longDatagram]]).drained fullSendCtx.outq) := by
    have hlen : auxFrameLen (longDatagram, 0) = chunkHdrSize + sidecarMaxPayload :=
      congrArg (chunkHdrSize + ·) List.length_replicate
    rintro ⟨hsum, -⟩
    rw [hdrained, auxDue_longDatagram, List.map_replicate, List.sum_replicate, hlen] at hsum
    exact absurd hsum (by decide)
  refine ⟨hprogress, fun hcarry => ?_, fun buf hcarry => ?_⟩
  · exact hfits ((fullSendCtx.wire_spec _ (fullSendCtx.wire_flushOutq _ hprogress)).2.mp hcarry)
  · obtain ⟨hsame, hwire⟩ := fullSendCtx.chunkSendToSocket_spec _ hprogress buf
    rw [hsame] at hcarry
    exact hfits ((fullSendCtx.wire_spec _ hwire).2.mp hcarry)

end Ar8030

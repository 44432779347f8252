import Ar8030Transport.Wire.Chunker

/-!
# The contract of the chunker

What `chunker.h` promises of `ar8030_chunk_frame` and `ar8030_chunk_part`: data that needs more
chunks than the header can number is refused, and of other data the chunks go to the send
function in order, up to the first that it does not take.

The chunk count and its sum with the first index are computed in 32 bits, so some data is
accepted that has to be refused. `chunkFrame_contract_iff` and `chunkPart_contract_iff` say when
the promise is kept.
-/

namespace Ar8030

open Pieces

variable {σ : Type*}

/-! ### The calls of the send function -/

/-- A send function with a log of its calls and their answers. -/
def logged (send : σ → Chunk → Bool × σ) (s : σ × List (Chunk × Bool)) (c : Chunk) :
    Bool × (σ × List (Chunk × Bool)) :=
  ((send s.1 c).1, (send s.1 c).2, s.2 ++ [(c, (send s.1 c).1)])

/-- The calls made for these chunks, with their answers. -/
def chunkCalls (send : σ → Chunk → Bool × σ) : List Chunk → σ → List (Chunk × Bool)
  | [], _ => []
  | c :: cs, ctx =>
    match send ctx c with
    | (true, ctx') => (c, true) :: chunkCalls send cs ctx'
    | (false, _) => [(c, false)]

section Calls

variable (send : σ → Chunk → Bool × σ)

/-- The log leaves the run as it is, and has its calls. -/
theorem sendChunks_logged (cs : List Chunk) (ctx : σ) (log : List (Chunk × Bool)) :
    sendChunks (logged send) cs (ctx, log) =
      ((sendChunks send cs ctx).1, (sendChunks send cs ctx).2, log ++ chunkCalls send cs ctx) := by
  induction cs generalizing ctx log with
  | nil => simp only [sendChunks, chunkCalls, List.append_nil]
  | cons c cs ih =>
    rcases hsend : send ctx c with ⟨_ | _, ctx'⟩
    · simp only [sendChunks, chunkCalls, logged, hsend]
    · simp only [sendChunks, chunkCalls, logged, hsend, ih, List.append_assoc, List.cons_append,
        List.nil_append]

/-- The calls are made in order. -/
theorem chunkCalls_prefix (cs : List Chunk) (ctx : σ) :
    (chunkCalls send cs ctx).map Prod.fst <+: cs := by
  induction cs generalizing ctx with
  | nil => exact List.prefix_rfl
  | cons c cs ih =>
    rcases hsend : send ctx c with ⟨_ | _, ctx'⟩
    · rw [chunkCalls, hsend]
      exact ⟨cs, rfl⟩
    · rw [chunkCalls, hsend]
      exact (List.prefix_cons_inj c).mpr (ih ctx')

/-- After a chunk that is not taken there is no call. -/
theorem chunkCalls_dropLast (cs : List Chunk) (ctx : σ) :
    ∀ call ∈ (chunkCalls send cs ctx).dropLast, call.2 = true := by
  induction cs generalizing ctx with
  | nil => exact fun _ h => absurd h List.not_mem_nil
  | cons c cs ih =>
    rcases hsend : send ctx c with ⟨_ | _, ctx'⟩
    · rw [chunkCalls, hsend]
      exact fun _ h => absurd h List.not_mem_nil
    · rw [chunkCalls, hsend]
      intro call hcall
      change call ∈ ((c, true) :: chunkCalls send cs ctx').dropLast at hcall
      rcases hrest : chunkCalls send cs ctx' with _ | ⟨next, calls⟩
      · rw [hrest] at hcall
        exact absurd hcall List.not_mem_nil
      · rw [hrest] at hcall
        rcases List.mem_cons.mp hcall with rfl | hcall
        · rfl
        · exact ih ctx' call (hrest ▸ hcall)

/-- What is returned is the number of calls that were answered with success. -/
theorem countP_chunkCalls (cs : List Chunk) (ctx : σ) :
    (sendChunks send cs ctx).1 = (chunkCalls send cs ctx).countP Prod.snd := by
  induction cs generalizing ctx with
  | nil => rfl
  | cons c cs ih =>
    rcases hsend : send ctx c with ⟨_ | _, ctx'⟩
    · rw [sendChunks, chunkCalls, hsend]
      rfl
    · rw [sendChunks, chunkCalls, hsend]
      dsimp only
      rw [List.countP_cons_of_pos rfl, ih]

/-- Without a failure every chunk is sent. -/
theorem chunkCalls_of_success (cs : List Chunk) (ctx : σ)
    (h : ∀ call ∈ chunkCalls send cs ctx, call.2 = true) :
    (chunkCalls send cs ctx).map Prod.fst = cs := by
  induction cs generalizing ctx with
  | nil => rfl
  | cons c cs ih =>
    rcases hsend : send ctx c with ⟨_ | _, ctx'⟩
    · rw [chunkCalls, hsend] at h
      exact absurd (h _ List.mem_cons_self) Bool.false_ne_true
    · rw [chunkCalls, hsend] at h ⊢
      exact congrArg (c :: ·) (ih ctx' fun call hcall => h call (List.mem_cons_of_mem _ hcall))

end Calls

/-! ### The contract -/

/-- A run that was not refused: of the chunks the data needs, numbered from `firstIdx`, those up
to the first failure were handed over. -/
structure SentRun (data : List UInt8) (chunkPayload firstIdx : ℕ)
    (run : ChunkRun (σ × List (Chunk × Bool))) : Prop where
  outChunkCount : run.outChunkCount = piecesNeeded data.length chunkPayload
  sent : run.sent = run.ctx.2.countP Prod.snd
  untilFailure : ∀ call ∈ run.ctx.2.dropLast, call.2 = true
  numbered : ∀ (i : ℕ) (c : Chunk), (run.ctx.2.map Prod.fst)[i]? = some c →
    c.hdr.chunkIdx.toNat = firstIdx + i
  fits : ∀ c ∈ run.ctx.2.map Prod.fst, c.payload.length ≤ chunkPayload ∧ c.Sealed
  isPrefix : (run.ctx.2.map Prod.fst).flatMap Chunk.payload <+: data
  complete : (∀ call ∈ run.ctx.2, call.2 = true) →
    run.ctx.2.length = piecesNeeded data.length chunkPayload ∧
      (run.ctx.2.map Prod.fst).flatMap Chunk.payload = data

/-- The contract: data is refused if it needs a chunk that cannot be numbered, and sent
otherwise. -/
structure ChunkerContract (data : List UInt8) (chunkPayload firstIdx : ℕ)
    (run : Option (ChunkRun (σ × List (Chunk × Bool)))) : Prop where
  refused : run = none ↔ 0xFFFF < firstIdx + piecesNeeded data.length chunkPayload
  accepted : ∀ r, run = some r → SentRun data chunkPayload firstIdx r

section Contract

variable {info : FrameInfo} {data : List UInt8} {chunkPayload firstIdx totalCount scratchCap : ℕ}
  {frameEnd part : Bool} (send : σ → Chunk → Bool × σ) (ctx : σ)

/-- The chunks of a run are sent as promised if there are as many as the data needs, and their
numbers fit the header. -/
theorem sentRun_runChunks (hpos : 0 < chunkPayload) (hmax : chunkPayload ≤ chunkMaxPayload)
    (hcount : firstIdx + piecesNeeded data.length chunkPayload ≤ 0xFFFF) {cs : List Chunk}
    (hcs : cs = runChunks info data chunkPayload firstIdx totalCount
      (piecesNeeded data.length chunkPayload) frameEnd part) :
    SentRun data chunkPayload firstIdx
      ⟨(sendChunks (logged send) cs (ctx, [])).1, piecesNeeded data.length chunkPayload,
        (sendChunks (logged send) cs (ctx, [])).2⟩ := by
  have hlen : cs.length = piecesNeeded data.length chunkPayload := by rw [hcs, length_runChunks]
  have hpayload : cs.flatMap Chunk.payload = data := by rw [hcs, flatMap_payload_runChunks hpos]
  have hchunk : ∀ (i : ℕ) (c : Chunk), cs[i]? = some c →
      i < piecesNeeded data.length chunkPayload ∧
        c = runChunk info data chunkPayload firstIdx totalCount
          (piecesNeeded data.length chunkPayload) frameEnd part i := by
    intro i c hc
    obtain ⟨hi, rfl⟩ := List.getElem?_eq_some_iff.mp hc
    subst hcs
    exact ⟨hlen ▸ hi, getElem_runChunks hi⟩
  have hpref := chunkCalls_prefix send cs ctx
  -- the calls are a prefix of the chunks, so they stand at the same positions
  have hget : ∀ (i : ℕ) (c : Chunk),
      ((chunkCalls send cs ctx).map Prod.fst)[i]? = some c → cs[i]? = some c := by
    intro i c hc
    obtain ⟨hi, rfl⟩ := List.getElem?_eq_some_iff.mp hc
    exact List.prefix_iff_getElem?.mp hpref i hi
  rw [sendChunks_logged, List.nil_append]
  constructor
  · rfl
  · exact countP_chunkCalls send cs ctx
  · exact chunkCalls_dropLast send cs ctx
  · -- an index below 2 ^ 16 is what the header has room for
    intro i c hc
    obtain ⟨hi, rfl⟩ := hchunk i c (hget i c hc)
    show (UInt16.ofNat (firstIdx + i)).toNat = firstIdx + i
    rw [UInt16.toNat_ofNat']
    omega
  · intro c hc
    obtain ⟨i, hi⟩ := List.mem_iff_getElem?.mp (hpref.subset hc)
    obtain ⟨-, rfl⟩ := hchunk i c hi
    exact ⟨length_piece_le _ _ _, runChunk_sealed hmax i⟩
  · obtain ⟨rest, hrest⟩ := hpref
    rw [← hpayload]
    exact ⟨rest.flatMap Chunk.payload, by rw [← List.flatMap_append, hrest]⟩
  · intro hall
    have hcalls := chunkCalls_of_success send cs ctx hall
    refine ⟨?_, ?_⟩
    · rw [← hlen, ← hcalls, List.length_map, hcalls]
    · rw [hcalls, hpayload]

/-- In 32 bits the chunk count is right, or the rounding has wrapped and it is 1. -/
theorem chunkCountOf_cases (hpos : 0 < chunkPayload) (hlen : data.length < 2 ^ 32) :
    data.length + chunkPayload ≤ 2 ^ 32 ∧
        chunkCountOf data.length chunkPayload = piecesNeeded data.length chunkPayload ∧
        piecesNeeded data.length chunkPayload < 2 ^ 32 ∨
      2 ^ 32 < data.length + chunkPayload ∧ chunkCountOf data.length chunkPayload = 1 := by
  rcases Nat.lt_or_ge (2 ^ 32) (data.length + chunkPayload) with hwrap | hwrap
  · right
    refine ⟨hwrap, ?_⟩
    -- less than one payload is left of the sum, and a count of 0 is made 1
    have hmod : (data.length + chunkPayload - 1) % 2 ^ 32 / chunkPayload = 0 :=
      Nat.div_eq_of_lt (by omega)
    rw [chunkCountOf, hmod]
    rfl
  · left
    refine ⟨hwrap, chunkCountOf_eq hwrap, ?_⟩
    have hdiv := Nat.div_le_self (data.length + chunkPayload - 1) chunkPayload
    rw [piecesNeeded]
    omega

/-- Data whose rounding wraps needs more chunks than can be numbered. -/
theorem piecesNeeded_of_wrap (hpos : 0 < chunkPayload) (hmax : chunkPayload ≤ chunkMaxPayload)
    (hwrap : 2 ^ 32 < data.length + chunkPayload) :
    0xFFFF < piecesNeeded data.length chunkPayload := by
  by_contra hle
  have := add_le_of_piecesNeeded_le hpos hmax (Nat.not_lt.mp hle)
  omega

/-- What `chunk_run` refuses. -/
theorem chunkRun_eq_none_iff {send : σ → Chunk → Bool × σ} {ctx : σ} (hpos : 0 < chunkPayload)
    (hmax : chunkPayload ≤ chunkMaxPayload)
    (hscratch : chunkHdrSize + chunkPayload ≤ scratchCap) :
    chunkRun info data chunkPayload firstIdx totalCount frameEnd part send ctx scratchCap = none ↔
      0xFFFF < (firstIdx + chunkCountOf data.length chunkPayload) % 2 ^ 32 := by
  have hpay : ¬ (chunkPayload = 0 ∨ chunkMaxPayload < chunkPayload) := by omega
  rw [chunkRun, if_neg hpay, if_neg (by omega)]
  dsimp only
  split_ifs with h
  · exact ⟨fun _ => h, fun _ => rfl⟩
  · exact ⟨False.elim, fun hlt => absurd hlt h⟩

/-- The contract is kept exactly if the test of the code refuses what has to be refused. -/
theorem chunkRun_contract_iff (hpos : 0 < chunkPayload) (hmax : chunkPayload ≤ chunkMaxPayload)
    (hscratch : chunkHdrSize + chunkPayload ≤ scratchCap) :
    ChunkerContract data chunkPayload firstIdx (chunkRun info data chunkPayload firstIdx totalCount
        frameEnd part (logged send) (ctx, []) scratchCap) ↔
      (0xFFFF < (firstIdx + chunkCountOf data.length chunkPayload) % 2 ^ 32 ↔
        0xFFFF < firstIdx + piecesNeeded data.length chunkPayload) := by
  have hnone := @chunkRun_eq_none_iff (σ × List (Chunk × Bool)) info data chunkPayload firstIdx
    totalCount scratchCap frameEnd part (logged send) (ctx, []) hpos hmax hscratch
  constructor
  · intro h
    rw [← hnone, h.refused]
  · intro h
    refine ⟨hnone.trans h, fun r hr => ?_⟩
    have haccept : (firstIdx + chunkCountOf data.length chunkPayload) % 2 ^ 32 ≤ 0xFFFF := by
      rw [← Nat.not_lt, ← hnone, hr]
      exact Option.some_ne_none r
    have hneeded : firstIdx + piecesNeeded data.length chunkPayload ≤ 0xFFFF :=
      Nat.not_lt.mp fun hlt => Nat.not_lt.mpr haccept (h.mpr hlt)
    have hwrap := add_le_of_piecesNeeded_le hpos hmax
      (le_trans (Nat.le_add_left _ firstIdx) hneeded)
    rw [chunkRun_eq_some hpos hmax hscratch haccept, chunkCountOf_eq hwrap] at hr
    obtain rfl := Option.some.inj hr
    exact sentRun_runChunks send ctx hpos hmax hneeded rfl

/-- **A frame**: the contract is kept unless rounding up the length wraps. -/
theorem chunkFrame_contract_iff (hpos : 0 < chunkPayload) (hmax : chunkPayload ≤ chunkMaxPayload)
    (hscratch : chunkHdrSize + chunkPayload ≤ scratchCap) (hlen : data.length < 2 ^ 32) :
    ChunkerContract data chunkPayload 0
        (chunkFrame info data chunkPayload (logged send) (ctx, []) scratchCap) ↔
      data.length + chunkPayload ≤ 2 ^ 32 := by
  have hpay : ¬ (chunkPayload = 0 ∨ chunkMaxPayload < chunkPayload) := by omega
  have hrun : chunkFrame info data chunkPayload (logged send) (ctx, []) scratchCap =
      chunkRun info data chunkPayload 0 (chunkCountOf data.length chunkPayload) false false
        (logged send) (ctx, []) scratchCap := by
    rw [chunkFrame, if_neg hpay]
    dsimp only
    split_ifs with hcount
    · refine ((chunkRun_eq_none_iff hpos hmax hscratch).mpr ?_).symm
      rcases chunkCountOf_cases hpos hlen with ⟨-, heq, hlt⟩ | ⟨-, heq⟩ <;> omega
    · rfl
  rw [hrun, chunkRun_contract_iff send ctx hpos hmax hscratch]
  rcases chunkCountOf_cases hpos hlen with ⟨hwrap, hcount, hlt⟩ | ⟨hwrap, hcount⟩
  · rw [hcount]
    omega
  · have hneeded := piecesNeeded_of_wrap hpos hmax hwrap
    rw [hcount]
    omega

/-- When a part is treated as promised. -/
def PartInRange (dataLen chunkPayload firstIdx : ℕ) : Prop :=
  if dataLen + chunkPayload ≤ 2 ^ 32 then
    ¬ (2 ^ 32 ≤ firstIdx + piecesNeeded dataLen chunkPayload ∧
      firstIdx + piecesNeeded dataLen chunkPayload ≤ 2 ^ 32 + 0xFFFF)
  else 0xFFFF ≤ firstIdx ∧ firstIdx ≠ 2 ^ 32 - 1

instance {dataLen chunkPayload firstIdx : ℕ} :
    Decidable (PartInRange dataLen chunkPayload firstIdx) :=
  inferInstanceAs (Decidable (ite _ _ _))

/-- **A part**: the contract is kept unless its last index or the rounding wraps. -/
theorem chunkPart_contract_iff {last : Bool} (hpos : 0 < chunkPayload)
    (hmax : chunkPayload ≤ chunkMaxPayload)
    (hscratch : chunkHdrSize + chunkPayload ≤ scratchCap) (hlen : data.length < 2 ^ 32)
    (hfirst : firstIdx < 2 ^ 32) :
    ChunkerContract data chunkPayload firstIdx
        (chunkPart info data chunkPayload firstIdx last (logged send) (ctx, []) scratchCap) ↔
      PartInRange data.length chunkPayload firstIdx := by
  rw [chunkPart, chunkRun_contract_iff send ctx hpos hmax hscratch, PartInRange]
  rcases chunkCountOf_cases hpos hlen with ⟨hwrap, hcount, hlt⟩ | ⟨hwrap, hcount⟩
  · rw [hcount, if_pos hwrap]
    omega
  · have hneeded := piecesNeeded_of_wrap hpos hmax hwrap
    rw [hcount, if_neg (Nat.not_le.mpr hwrap)]
    omega

/-- **When the contract is kept**, for a whole frame and for a part of one. -/
theorem chunker_contract_iff {last : Bool} (hpos : 0 < chunkPayload)
    (hmax : chunkPayload ≤ chunkMaxPayload)
    (hscratch : chunkHdrSize + chunkPayload ≤ scratchCap) (hlen : data.length < 2 ^ 32)
    (hfirst : firstIdx < 2 ^ 32) :
    (ChunkerContract data chunkPayload 0
        (chunkFrame info data chunkPayload (logged send) (ctx, []) scratchCap) ↔
      data.length + chunkPayload ≤ 2 ^ 32) ∧
    (ChunkerContract data chunkPayload firstIdx
        (chunkPart info data chunkPayload firstIdx last (logged send) (ctx, []) scratchCap) ↔
      PartInRange data.length chunkPayload firstIdx) := by
  constructor
  · exact chunkFrame_contract_iff send ctx hpos hmax hscratch hlen
  · exact chunkPart_contract_iff send ctx hpos hmax hscratch hlen hfirst

end Contract

/-- An empty part with the highest index is promised to be refused, and is sent; a frame of
`2 ^ 32 - 1` bytes is as well. -/
theorem chunker_contract_iff_wraps :
    (¬ ChunkerContract [] 1 (2 ^ 32 - 1)
      (chunkPart ⟨0, 0, 0, 0⟩ [] 1 (2 ^ 32 - 1) true (logged fun _ _ => (true, ())) ((), []) 23)) ∧
    ¬ ChunkerContract (List.replicate (2 ^ 32 - 1) 0) 2 0
      (chunkFrame ⟨0, 0, 0, 0⟩ (List.replicate (2 ^ 32 - 1) 0) 2 (logged fun _ _ => (true, ()))
        ((), []) 24) := by
  constructor
  · rw [chunkPart_contract_iff _ _ (by decide) (by decide) (by decide) (by decide) (by decide)]
    decide
  · have hlength : (List.replicate (2 ^ 32 - 1) (0 : UInt8)).length = 2 ^ 32 - 1 :=
      List.length_replicate
    rw [chunkFrame_contract_iff _ _ (by decide) (by decide) (by decide) (by omega), hlength]
    decide

/-- The largest frame that is sent in chunks of one byte. -/
theorem chunker_contract_iff_largest :
    ChunkerContract (List.replicate 65535 7) 1 0
      (chunkFrame ⟨0, 0, 0, 0⟩ (List.replicate 65535 7) 1 (logged fun _ _ => (true, ()))
        ((), []) 23) := by
  have hlength : (List.replicate 65535 (7 : UInt8)).length = 65535 := List.length_replicate
  refine (@chunker_contract_iff Unit ⟨0, 0, 0, 0⟩ (List.replicate 65535 7) 1 0 23 _ () true
    (by decide) (by decide) (by decide) (by omega) (by decide)).1.mpr ?_
  rw [hlength]
  decide

end Ar8030

import Ar8030Transport.Kmod.Netdev
import Ar8030Transport.Library.Trace

/-!
# The position in the chip's socket stream

The driver numbers what it writes by the position `wr_index` in the socket's byte stream and
runs ahead of the chip: several frames, and later several replies, are under way at a time.
`SoLink` is the driver, the chip and what is under way between them. The chip takes a frame
at the position it expects, turns it away there when it has no room, and asks for the expected
position when the frame stands elsewhere.

A turned-away frame dooms the frames written behind it, and each of them draws a reply that
sets `wr_index` back to the same position. What goes wrong is a frame that is built after the
first of these replies and before the last: the chip takes it, and the replies still to come
set `wr_index` back once more. And a frame whose write fails (`artosyn_write_all`) has moved
`wr_index` without reaching the chip. `InStep` rules out the first, and the second unless a reply
will set `wr_index` anyway; nothing else has to be ruled out.
-/

namespace Ar8030

open LittleEndian Trace

/-! ### The driver, the chip and what is under way -/

/-- The position of a `so_write` frame. -/
def soPos (frame : List UInt8) : UInt64 :=
  UInt64.ofNat (decode ((frame.drop rpcHdrLen).take soPosLen))

/-- The number of stream bytes in a `so_write` frame. -/
def soLen (frame : List UInt8) : ℕ := frame.length - (rpcHdrLen + soPosLen + 1)

/-- The driver, the frames on their way to the chip, the position the chip expects, and the
replies on their way back. -/
structure SoLink where
  net : ArtosynNet
  writes : List (List UInt8)
  expected : UInt64
  replies : List (ℤ × List UInt8)

/-- What the chip does with a frame: whether it has room, the status of an acceptance (`none` for
`SO_STA_SEND_OK`) with the data of that reply, and the second position of a refusal. -/
structure ChipChoice where
  room : Bool
  sta : Option ℕ
  data : List UInt8
  arg : UInt64

/-- The chip on its oldest frame: the position it expects next, and the reply. -/
def chipWrite (expected : UInt64) (frame : List UInt8) (c : ChipChoice) :
    UInt64 × (ℤ × List UInt8) :=
  if soPos frame ≠ expected then
    (expected, soStaWanted, encode 8 (soPos frame).toNat ++ encode 8 expected.toNat)
  else if c.room then
    (expected + UInt64.ofNat (soLen frame), c.sta.elim soStaSendOk (fun n => (n : ℤ)), c.data)
  else (expected, soStaPending, encode 8 (soPos frame).toNat ++ encode 8 c.arg.toNat)

/-- What can happen next. -/
inductive SoAction where
  /-- The driver builds the frame of a packet and writes it, with the outcome of the write. A
  frame whose write fails is not under way to the chip. -/
  | build (skb : List UInt8) (ok : Bool)
  /-- The chip processes the oldest frame. -/
  | chip (c : ChipChoice)
  /-- The driver processes the oldest reply. -/
  | ack

/-- One step; without a frame or a reply to process nothing happens. -/
def SoLink.step (s : SoLink) : SoAction → SoLink
  | .build skb ok =>
    { s with
      net := (netBuildFrame s.net skb).1
      writes := if ok then s.writes ++ [(netBuildFrame s.net skb).2] else s.writes }
  | .chip c =>
    match s.writes with
    | [] => s
    | frame :: writes =>
      { s with
        writes := writes
        expected := (chipWrite s.expected frame c).1
        replies := s.replies ++ [(chipWrite s.expected frame c).2] }
  | .ack =>
    match s.replies with
    | [] => s
    | (sta, data) :: replies => { s with net := netRxWriteAck s.net sta data, replies := replies }

/-- A freshly opened socket. -/
def SoLink.opened (net : ArtosynNet) : SoLink where
  net := net
  writes := []
  expected := net.wrIndex
  replies := []

/-- A run of the link. -/
def soRun (s : SoLink) (actions : List SoAction) : SoLink := actions.foldl SoLink.step s

/-- The position a reply sets `wr_index` to, if it does. -/
def resyncTo (reply : ℤ × List UInt8) : Option UInt64 :=
  if 0 ≤ reply.1 ∨ reply.2.length < 16 then none
  else if reply.1 = soStaPending then some (UInt64.ofNat (decode (reply.2.take 8)))
  else if reply.1 = soStaWanted then some (UInt64.ofNat (decode ((reply.2.drop 8).take 8)))
  else none

/-- A reply that sets `wr_index` is under way, or a frame that will draw one: the oldest does not
stand where the chip expects it. -/
def SoLink.Resyncs (s : SoLink) : Prop :=
  (∃ r ∈ s.replies, resyncTo r ≠ none) ∨ ∃ f ∈ s.writes.head?, soPos f ≠ s.expected

instance (s : SoLink) : Decidable s.Resyncs := inferInstanceAs (Decidable (_ ∨ _))

/-- A packet is built in step with the chip: less than `2^64` bytes are under way to it, and if
`wr_index` is the position the chip expects, no frame is under way and no reply that would set
it again. If its write fails, `wr_index` will be set again. -/
def InStep (s : SoLink) : SoAction → Prop
  | .build skb true =>
    (s.writes.map soLen).sum + (dgramOverhead + skb.length) < 2 ^ 64 ∧
      (s.net.wrIndex = s.expected → s.writes = [] ∧ ∀ r ∈ s.replies, resyncTo r = none)
  | .build _ false => s.Resyncs
  | .chip _ => True
  | .ack => True

instance (s : SoLink) : (a : SoAction) → Decidable (InStep s a)
  | .build _ true => inferInstanceAs (Decidable (_ ∧ _))
  | .build _ false => inferInstanceAs (Decidable s.Resyncs)
  | .chip _ => inferInstanceAs (Decidable True)
  | .ack => inferInstanceAs (Decidable True)

/-- Every packet of the run is built in step with the chip. -/
def InStepRun (s : SoLink) (actions : List SoAction) : Prop :=
  Always (fun past a => InStep (soRun s past) a) actions

/-! ### Frames and replies -/

theorem wrIndex_netRxWriteAck (net : ArtosynNet) (sta : ℤ) (data : List UInt8) :
    (netRxWriteAck net sta data).wrIndex = (resyncTo (sta, data)).getD net.wrIndex := by
  rw [netRxWriteAck, resyncTo]
  by_cases hsta : 0 ≤ sta
  · simp [hsta]
  by_cases hdata : data.length < 16
  · simp [hsta, hdata]
  have hneg : ¬ (0 ≤ sta ∨ data.length < 16) := not_or.mpr ⟨hsta, hdata⟩
  rw [if_neg hsta, if_neg hdata, if_neg hneg]
  by_cases hsend : sta = soStaSendOk
  · subst hsend
    rfl
  rw [if_neg hsend]
  split_ifs <;> rfl

theorem ofNat_decode_encode (x : UInt64) : UInt64.ofNat (decode (encode 8 x.toNat)) = x := by
  rw [decode_encode_of_lt (by have := x.toNat_lt; omega), UInt64.ofNat_toNat]

section Build

variable (net : ArtosynNet) (skb : List UInt8)

theorem soPos_netBuildFrame : soPos (netBuildFrame net skb).2 = net.wrIndex := by
  have hdrop : ((netBuildFrame net skb).2.drop rpcHdrLen).take soPosLen =
      encode 8 net.wrIndex.toNat := rfl
  rw [soPos, hdrop, ofNat_decode_encode]

theorem soLen_netBuildFrame : soLen (netBuildFrame net skb).2 = dgramOverhead + skb.length := by
  simp [soLen, netBuildFrame, rpcPutHdr, be32, dgram, dgramHdr, rpcHdrLen, soPosLen, dgramOverhead,
    dgramHdrLen]
  omega

end Build

section Chip

variable {expected : UInt64} {frame : List UInt8} (c : ChipChoice)

theorem chipWrite_of_ne (h : soPos frame ≠ expected) :
    (chipWrite expected frame c).1 = expected ∧
      resyncTo (chipWrite expected frame c).2 = some expected := by
  rw [chipWrite, if_pos h]
  refine ⟨rfl, ?_⟩
  have hdata : ¬ (0 ≤ soStaWanted ∨
      (encode 8 (soPos frame).toNat ++ encode 8 expected.toNat).length < 16) := by
    simp [soStaWanted]
  rw [resyncTo, if_neg hdata, if_neg (show soStaWanted ≠ soStaPending by decide), if_pos rfl,
    List.drop_left' (length_encode _ _), List.take_of_length_le (length_encode _ _).le,
    ofNat_decode_encode]

theorem chipWrite_of_room (h : soPos frame = expected) (hroom : c.room = true) :
    (chipWrite expected frame c).1 = expected + UInt64.ofNat (soLen frame) ∧
      resyncTo (chipWrite expected frame c).2 = none := by
  rw [chipWrite, if_neg (not_not.mpr h), if_pos hroom]
  refine ⟨rfl, ?_⟩
  cases hsta : c.sta with
  | none =>
    rw [resyncTo, Option.elim_none]
    split_ifs with hneg hpending hwanted
    · rfl
    · exact absurd hpending (show soStaSendOk ≠ soStaPending by decide)
    · exact absurd hwanted (show soStaSendOk ≠ soStaWanted by decide)
    · rfl
  | some n =>
    rw [resyncTo, Option.elim_some]
    exact if_pos (Or.inl (Int.natCast_nonneg n))

theorem chipWrite_of_full (h : soPos frame = expected) (hroom : c.room = false) :
    (chipWrite expected frame c).1 = expected ∧
      resyncTo (chipWrite expected frame c).2 = some expected := by
  rw [chipWrite, if_neg (not_not.mpr h), if_neg (by simp [hroom])]
  refine ⟨rfl, ?_⟩
  have hdata : ¬ (0 ≤ soStaPending ∨
      (encode 8 (soPos frame).toNat ++ encode 8 c.arg.toNat).length < 16) := by
    simp [soStaPending]
  rw [resyncTo, if_neg hdata, if_pos rfl, List.take_left' (length_encode _ _),
    ofNat_decode_encode, h]

end Chip

/-! ### Frames in sequence -/

/-- The frames continue each other from position `a` to position `b`. -/
def Chained : UInt64 → List (List UInt8) → UInt64 → Prop
  | a, [], b => a = b
  | a, f :: fs, b => soPos f = a ∧ Chained (a + UInt64.ofNat (soLen f)) fs b

theorem Chained.concat {a b : UInt64} {fs : List (List UInt8)} {f : List UInt8}
    (h : Chained a fs b) (hf : soPos f = b) :
    Chained a (fs ++ [f]) (b + UInt64.ofNat (soLen f)) := by
  induction fs generalizing a with
  | nil =>
    obtain rfl : a = b := h
    exact ⟨hf, rfl⟩
  | cons g fs ih => exact ⟨h.1, ih h.2⟩

theorem add_ofNat_ne_self {a : UInt64} {k : ℕ} (hpos : 0 < k) (hlt : k < 2 ^ 64) :
    a + UInt64.ofNat k ≠ a := by
  intro h
  have htoNat := congrArg UInt64.toNat h
  rw [UInt64.toNat_add, UInt64.toNat_ofNat_of_lt' hlt] at htoNat
  have := a.toNat_lt
  omega

/-- Frames behind position `a` do not stand at `a`, as long as they do not go once around. -/
theorem Chained.soPos_ne {a b : UInt64} {fs : List (List UInt8)} {k : ℕ}
    (h : Chained (a + UInt64.ofNat k) fs b) (hpos : 0 < k)
    (hlt : k + (fs.map soLen).sum < 2 ^ 64) : ∀ f ∈ fs, soPos f ≠ a := by
  induction fs generalizing k with
  | nil => simp
  | cons f fs ih =>
    rw [List.map_cons, List.sum_cons] at hlt
    have hrest : Chained (a + UInt64.ofNat (k + soLen f)) fs b := by
      rw [UInt64.ofNat_add, ← UInt64.add_assoc]
      exact h.2
    intro g hg
    obtain rfl | hg := List.mem_cons.mp hg
    · rw [h.1]
      exact add_ofNat_ne_self hpos (by omega)
    · exact ih hrest (by omega) (by omega) g hg

/-! ### The invariant -/

/-- Either the frames under way continue the stream from the expected position to `wr_index`
and no reply will set it, or all of them stand elsewhere, and `wr_index` is, or will be, set to
the expected position. -/
inductive InSync (s : SoLink) : Prop where
  | streaming (neutral : ∀ r ∈ s.replies, resyncTo r = none)
      (chained : Chained s.expected s.writes s.net.wrIndex)
      (soLen_pos : ∀ f ∈ s.writes, 0 < soLen f) (sum_lt : (s.writes.map soLen).sum < 2 ^ 64)
  | resyncing (resync : ∀ r ∈ s.replies, resyncTo r = none ∨ resyncTo r = some s.expected)
      (doomed : ∀ f ∈ s.writes, soPos f ≠ s.expected)
      (eventually : s.net.wrIndex = s.expected ∨ s.writes ≠ [] ∨
        ∃ r ∈ s.replies, resyncTo r = some s.expected)

theorem inSync_opened (net : ArtosynNet) : InSync (.opened net) :=
  .streaming (by simp [SoLink.opened]) rfl (by simp [SoLink.opened]) (by simp [SoLink.opened])

section Step

variable {s : SoLink}

theorem InSync.build {skb : List UInt8} (h : InSync s) (hstep : InStep s (.build skb true)) :
    InSync (s.step (.build skb true)) := by
  obtain ⟨hsum, hexpected⟩ := hstep
  have hsum' : ((s.writes ++ [(netBuildFrame s.net skb).2]).map soLen).sum < 2 ^ 64 := by
    simpa [soLen_netBuildFrame] using hsum
  have hchain : Chained s.expected s.writes s.net.wrIndex →
      Chained s.expected (s.writes ++ [(netBuildFrame s.net skb).2])
        (netBuildFrame s.net skb).1.wrIndex := by
    intro hc
    have := hc.concat (soPos_netBuildFrame s.net skb)
    rwa [soLen_netBuildFrame] at this
  have hframe : 0 < soLen (netBuildFrame s.net skb).2 := by
    rw [soLen_netBuildFrame, dgramOverhead]
    omega
  cases h with
  | streaming neutral chained soLen_pos sum_lt =>
    refine .streaming neutral (hchain chained) (fun f hf => ?_) hsum'
    obtain hf | rfl := by simpa [SoLink.step] using hf
    · exact soLen_pos f hf
    · exact hframe
  | resyncing resync doomed eventually =>
    by_cases heq : s.net.wrIndex = s.expected
    · -- the last of the replies is in: the stream goes on
      obtain ⟨hnil, hneutral⟩ := hexpected heq
      have hc : Chained s.expected s.writes s.net.wrIndex := by
        rw [hnil, heq]
        rfl
      refine .streaming hneutral (hchain hc) (fun f hf => ?_) hsum'
      obtain rfl : f = (netBuildFrame s.net skb).2 := by simpa [SoLink.step, hnil] using hf
      exact hframe
    · refine .resyncing resync (fun f hf => ?_) (.inr (.inl (by simp [SoLink.step])))
      obtain hf | rfl := by simpa [SoLink.step] using hf
      · exact doomed f hf
      · rw [soPos_netBuildFrame]
        exact heq

/-- The frames under way do not continue the stream if `wr_index` will be set again. -/
theorem InSync.build_failed {skb : List UInt8} (h : InSync s)
    (hstep : InStep s (.build skb false)) : InSync (s.step (.build skb false)) := by
  cases h with
  | streaming neutral chained soLen_pos sum_lt =>
    exfalso
    obtain ⟨r, hr, hsome⟩ | ⟨f, hf, hne⟩ := hstep
    · exact hsome (neutral r hr)
    · -- the oldest frame stands where the chip expects it
      obtain ⟨writes, hw⟩ := List.head?_eq_some_iff.mp hf
      rw [hw] at chained
      exact hne chained.1
  | resyncing resync doomed eventually =>
    refine .resyncing resync doomed (.inr ?_)
    obtain ⟨r, hr, hsome⟩ | ⟨f, hf, -⟩ := hstep
    · exact .inr ⟨r, hr, (resync r hr).resolve_left hsome⟩
    · exact .inl fun hnil => by simp [show s.writes = [] from hnil] at hf

/-- A refused frame brings a reply with the position the chip expects, and stays refused until
`wr_index` is there. -/
theorem inSync_of_refused {write : UInt64 × (ℤ × List UInt8)} {writes : List (List UInt8)}
    (hwrite : write.1 = s.expected ∧ resyncTo write.2 = some s.expected)
    (hreplies : ∀ r ∈ s.replies, resyncTo r = none ∨ resyncTo r = some s.expected)
    (hdoomed : ∀ f ∈ writes, soPos f ≠ s.expected) :
    InSync { s with
      writes := writes
      expected := write.1
      replies := s.replies ++ [write.2] } := by
  obtain ⟨hexpected, hreply⟩ := hwrite
  rw [hexpected]
  refine .resyncing (fun r hr => ?_) hdoomed (.inr (.inr ⟨write.2, by simp, hreply⟩))
  obtain hr | rfl := by simpa using hr
  · exact hreplies r hr
  · exact .inr hreply

theorem InSync.chip (h : InSync s) (c : ChipChoice) : InSync (s.step (.chip c)) := by
  cases hw : s.writes with
  | nil =>
    have hstep : s.step (.chip c) = s := by simp only [SoLink.step, hw]
    rw [hstep]
    exact h
  | cons frame writes =>
    have hstep : s.step (.chip c) = { s with
        writes := writes
        expected := (chipWrite s.expected frame c).1
        replies := s.replies ++ [(chipWrite s.expected frame c).2] } := by
      simp only [SoLink.step, hw]
    rw [hstep]
    cases h with
    | streaming neutral chained soLen_pos sum_lt =>
      rw [hw] at chained soLen_pos sum_lt
      rw [List.map_cons, List.sum_cons] at sum_lt
      -- the frame is at the expected position, and only a full buffer turns it away
      cases hroom : c.room with
      | true =>
        obtain ⟨hexpected, hreply⟩ := chipWrite_of_room c chained.1 hroom
        refine .streaming (fun r hr => ?_) ?_ (fun f hf => soLen_pos f (List.mem_cons_of_mem _ hf))
          (lt_of_le_of_lt (Nat.le_add_left _ _) sum_lt)
        · obtain hr | rfl := by simpa using hr
          · exact neutral r hr
          · exact hreply
        · rw [hexpected]
          exact chained.2
      | false =>
        -- the frames behind the one turned away are doomed
        refine inSync_of_refused (chipWrite_of_full c chained.1 hroom)
          (fun r hr => .inl (neutral r hr)) ?_
        exact chained.2.soPos_ne (soLen_pos frame List.mem_cons_self) sum_lt
    | resyncing resync doomed eventually =>
      rw [hw] at doomed
      exact inSync_of_refused (chipWrite_of_ne c (doomed frame List.mem_cons_self)) resync
        fun f hf => doomed f (List.mem_cons_of_mem _ hf)

theorem InSync.ack (h : InSync s) : InSync (s.step .ack) := by
  cases hr : s.replies with
  | nil =>
    have hstep : s.step .ack = s := by simp only [SoLink.step, hr]
    rw [hstep]
    exact h
  | cons reply replies =>
    have hstep : s.step .ack =
        { s with net := netRxWriteAck s.net reply.1 reply.2, replies := replies } := by
      simp only [SoLink.step, hr]
    rw [hstep]
    have hindex := wrIndex_netRxWriteAck s.net reply.1 reply.2
    cases h with
    | streaming neutral chained soLen_pos sum_lt =>
      rw [hr] at neutral
      rw [neutral reply List.mem_cons_self, Option.getD_none] at hindex
      refine .streaming (fun r hmem => neutral r (List.mem_cons_of_mem _ hmem)) ?_ soLen_pos sum_lt
      dsimp only
      rw [hindex]
      exact chained
    | resyncing resync doomed eventually =>
      rw [hr] at resync eventually
      refine .resyncing (fun r hmem => resync r (List.mem_cons_of_mem _ hmem)) doomed ?_
      obtain hnone | hsome := resync reply List.mem_cons_self
      · -- an acceptance from before the refusal
        rw [hnone, Option.getD_none] at hindex
        dsimp only
        rw [hindex]
        refine eventually.imp_right (Or.imp_right ?_)
        rintro ⟨r, hmem, hsome⟩
        obtain rfl | hmem := List.mem_cons.mp hmem
        · rw [hnone] at hsome
          cases hsome
        · exact ⟨r, hmem, hsome⟩
      · rw [hsome, Option.getD_some] at hindex
        exact .inl hindex

end Step

theorem inSync_soRun (net : ArtosynNet) (actions : List SoAction)
    (h : InStepRun (.opened net) actions) : InSync (soRun (.opened net) actions) := by
  induction actions using List.reverseRecOn with
  | nil => exact inSync_opened net
  | append_singleton actions a ih =>
    obtain ⟨hpast, ha⟩ := always_concat_iff.mp h
    rw [soRun, List.foldl_append]
    cases a with
    | build skb ok =>
      cases ok with
      | true => exact (ih hpast).build ha
      | false => exact (ih hpast).build_failed ha
    | chip c => exact (ih hpast).chip c
    | ack => exact (ih hpast).ack

/-- **The positions agree** whenever nothing is under way, in every run whose packets are all
built in step with the chip. -/
theorem positions_agree (net : ArtosynNet) (actions : List SoAction)
    (h : InStepRun (.opened net) actions)
    (hwrites : (soRun (.opened net) actions).writes = [])
    (hreplies : (soRun (.opened net) actions).replies = []) :
    (soRun (.opened net) actions).net.wrIndex = (soRun (.opened net) actions).expected := by
  have hsync := inSync_soRun net actions h
  revert hsync hwrites hreplies
  generalize soRun (.opened net) actions = s
  intro hwrites hreplies hsync
  cases hsync with
  | streaming neutral chained soLen_pos sum_lt =>
    rw [hwrites] at chained
    exact chained.symm
  | resyncing resync doomed eventually =>
    simpa [hwrites, hreplies] using eventually

/-- The chip has room. -/
def takes : ChipChoice := ⟨true, some 0, [], 0⟩

/-- The chip has no room. -/
def refuses : ChipChoice := ⟨false, none, [], 0⟩

/-- An Ethernet header alone. -/
def emptyPacket : List UInt8 := List.replicate ethHlen 0

/-- Two packets are turned away, the write of the third fails, and the fourth is built when both
replies are in. -/
def patientActions : List SoAction :=
  [.build emptyPacket true, .build emptyPacket true, .chip refuses, .build emptyPacket false,
    .chip takes, .ack, .ack, .build emptyPacket true, .chip takes, .ack]

theorem inStepRun_patientActions : InStepRun (.opened freshNet) patientActions := by
  unfold InStepRun
  decide +kernel

/-- The fourth packet is taken, and the positions agree. -/
theorem positions_agree_patient :
    (soRun (.opened freshNet) patientActions).expected = 21 ∧
      (soRun (.opened freshNet) patientActions).net.wrIndex = 21 := by
  have hexpected : (soRun (.opened freshNet) patientActions).expected = 21 := by decide +kernel
  refine ⟨hexpected, ?_⟩
  rw [← hexpected]
  exact positions_agree freshNet patientActions inStepRun_patientActions (by decide +kernel)
    (by decide +kernel)

/-- The third packet is built between the two replies. -/
def hastyActions : List SoAction :=
  [.build emptyPacket true, .build emptyPacket true, .chip refuses, .chip takes, .ack,
    .build emptyPacket true, .chip takes, .ack, .ack]

/-- The chip has taken the third packet, and the second reply has set `wr_index` back to its
start; the next packet will be rejected. -/
theorem stale_reply_moves_wrIndex :
    let s := soRun (.opened freshNet) hastyActions
    s.writes = [] ∧ s.replies = [] ∧ s.net.wrIndex = 0 ∧ s.expected = 21 := by
  decide +kernel

-- A write fails: nothing is under way, and the next packet will be rejected.
example :
    let s := soRun (.opened freshNet) [.build emptyPacket false]
    s.writes = [] ∧ s.replies = [] ∧ s.net.wrIndex = 21 ∧ s.expected = 0 := by
  decide +kernel

end Ar8030

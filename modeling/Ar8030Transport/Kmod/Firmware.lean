import Ar8030Transport.Kmod.BootRom

/-!
# The firmware download

`artosyn_download_firmware` of `kmod/artosyn_sdio.c`: the sections of an image, each found behind
the one in front of it, the configuration if there is one, and the packet that makes the chip
start what it has. The transfer of a section is a parameter.

After `troot` and `signature` a failure is only logged, and the return value is overwritten by
that of the next section. `download_contract_iff` says when this is noticed.
-/

namespace Ar8030

open Trace

/-! ### The image -/

/-- The fields of `struct spl_header` that are read. -/
structure SplHeader where
  headerLen : ℕ
  splLoadAddr : ℕ
  splLen : ℕ
  trootLoadAddr : ℕ
  trootLen : ℕ
  signatureLoadAddr : ℕ
  signatureLen : ℕ

/-- The packed header at the start of an image. -/
def SplHeader.ofBytes (fw : List UInt8) : SplHeader where
  headerLen := fieldAt 6 2 fw
  splLoadAddr := fieldAt 24 4 fw
  splLen := fieldAt 28 4 fw
  trootLoadAddr := fieldAt 32 4 fw
  trootLen := fieldAt 36 4 fw
  signatureLoadAddr := fieldAt 40 4 fw
  signatureLen := fieldAt 44 4 fw

/-- `SPL_HEADER_LOAD_ADDR`. -/
def splHeaderLoadAddr : ℕ := 0x002f0000 + 0x40

/-- `ROUNDUP` to `SPL_IMAGE_SIZE_ALIGN`, in 32 bits. -/
def roundUp (x : ℕ) : ℕ := (x + 511) % 2 ^ 32 / 512 * 512

/-- Where `troot` starts, or without one the SPL. -/
def SplHeader.trootOffset (hdr : SplHeader) : ℕ := roundUp hdr.headerLen

/-- Where the signature starts. -/
def SplHeader.signatureOffset (hdr : SplHeader) : ℕ :=
  (hdr.trootOffset + roundUp hdr.trootLen) % 2 ^ 32

/-- Where the SPL starts. -/
def SplHeader.splOffset (hdr : SplHeader) : ℕ :=
  if hdr.trootLen ≠ 0 then (hdr.signatureOffset + roundUp hdr.signatureLen) % 2 ^ 32
  else hdr.trootOffset

/-! ### The transfers -/

/-- What a transfer is for. -/
inductive BootPart where
  | header
  | troot
  | signature
  | spl
  | config
  | done
  deriving DecidableEq, Repr

/-- A call of `artosyn_fw_send_chunk`, with the memory from its pointer on. -/
structure BootTransfer where
  part : BootPart
  data : List UInt8
  addr : ℕ
  len : ℕ
  deriving DecidableEq

section Transfers

variable (fw : List UInt8)

def headerTransfer : BootTransfer :=
  ⟨.header, fw, splHeaderLoadAddr, (SplHeader.ofBytes fw).headerLen⟩

def trootTransfer : BootTransfer :=
  let hdr := SplHeader.ofBytes fw
  ⟨.troot, fw.drop hdr.trootOffset, hdr.trootLoadAddr, hdr.trootLen⟩

def signatureTransfer : BootTransfer :=
  let hdr := SplHeader.ofBytes fw
  ⟨.signature, fw.drop hdr.signatureOffset, hdr.signatureLoadAddr, hdr.signatureLen⟩

def splTransfer : BootTransfer :=
  let hdr := SplHeader.ofBytes fw
  ⟨.spl, fw.drop hdr.splOffset, hdr.splLoadAddr, hdr.splLen⟩

/-- The configuration goes where the signature went. -/
def configTransfer (cfg : List UInt8) : BootTransfer :=
  ⟨.config, cfg, (SplHeader.ofBytes fw).signatureLoadAddr, cfg.length % 2 ^ 32⟩

/-- The zero-length packet. -/
def doneTransfer : BootTransfer := ⟨.done, [], 0, 0⟩

end Transfers

/-- An error of the kernel. -/
abbrev Errno := { e : ℤ // e ≠ 0 }

/-- `EINVAL`. -/
def einval : ℤ := 22

section Download

variable {σ : Type*} (send : σ → BootTransfer → ℤ × σ)

/-- `artosyn_download_firmware` once the files are there. -/
def downloadImage (fw : List UInt8) (cfg : Option (List UInt8)) (s : σ) : ℤ × σ :=
  let r := send s (headerTransfer fw)
  if r.1 ≠ 0 then r
  else
    -- both return values are overwritten
    let s :=
      if (SplHeader.ofBytes fw).trootLen ≠ 0 then
        (send (send r.2 (trootTransfer fw)).2 (signatureTransfer fw)).2
      else r.2
    let r := send s (splTransfer fw)
    if r.1 ≠ 0 then r
    else
      match cfg with
      | none => send r.2 doneTransfer
      | some cfg =>
        let r := send r.2 (configTransfer fw cfg)
        if r.1 ≠ 0 then r else send r.2 doneTransfer

/-- `artosyn_download_firmware`: `fw` and `cfg` are what `request_firmware` gives for `fw_name`
and `cfg_name`, when these are set. -/
def artosynDownloadFirmware (fw cfg : Option (Except Errno (List UInt8))) (s : σ) : ℤ × σ :=
  match fw with
  | none => (-einval, s)
  | some (.error e) => (e, s)
  | some (.ok fw) => downloadImage send fw (cfg.bind Except.toOption) s

end Download

/-! ### What is promised -/

/-- The sections that have to be sent, in front of the last packet. -/
def bootSections (fw : List UInt8) (cfg : Option (List UInt8)) : List BootTransfer :=
  headerTransfer fw ::
    (if (SplHeader.ofBytes fw).trootLen ≠ 0 then [trootTransfer fw, signatureTransfer fw]
      else []) ++
    splTransfer fw :: (cfg.map (configTransfer fw)).toList

/-- A download that returns success exactly if everything was sent, and lets the chip start
nothing else. -/
structure DownloadContract (fw : List UInt8) (cfg : Option (List UInt8))
    (r : ℤ × List (BootTransfer × ℤ)) : Prop where
  zero_iff : r.1 = 0 ↔ ∀ t ∈ bootSections fw cfg ++ [doneTransfer], (t, 0) ∈ r.2
  done : Always (fun past e => e.1.part = .done → ∀ x ∈ past, x.2 = 0) r.2

/-- Transfers that answer after a pattern, and a log of them. No part is sent twice. -/
def answering (pattern : BootPart → ℤ) (log : List (BootTransfer × ℤ)) (t : BootTransfer) :
    ℤ × List (BootTransfer × ℤ) :=
  (pattern t.part, log ++ [(t, pattern t.part)])

/-- A failure of `troot` or its signature with nothing but success after it. -/
def FailureSwallowed (pattern : BootPart → ℤ) (fw : List UInt8) (cfg : Option (List UInt8)) :
    Prop :=
  (SplHeader.ofBytes fw).trootLen ≠ 0 ∧ (pattern .troot ≠ 0 ∨ pattern .signature ≠ 0) ∧
    pattern .header = 0 ∧ pattern .spl = 0 ∧ (cfg.isSome → pattern .config = 0)

/-! ### The two ways a download ends -/

section Contract

variable {pattern : BootPart → ℤ} {fw : List UInt8} {cfg : Option (List UInt8)}

/-- The log of some transfers. -/
def answerLog (pattern : BootPart → ℤ) (l : List BootTransfer) : List (BootTransfer × ℤ) :=
  l.map fun t => (t, pattern t.part)

theorem mem_answerLog {l : List BootTransfer} {t : BootTransfer} {a : ℤ}
    (h : (t, a) ∈ answerLog pattern l) : t ∈ l ∧ a = pattern t.part := by
  obtain ⟨u, hu, heq⟩ := List.mem_map.mp h
  obtain ⟨rfl, rfl⟩ := Prod.mk.inj heq
  exact ⟨hu, rfl⟩

theorem mem_bootSections {t : BootTransfer} :
    t ∈ bootSections fw cfg ↔ t = headerTransfer fw ∨
      ((SplHeader.ofBytes fw).trootLen ≠ 0 ∧ (t = trootTransfer fw ∨ t = signatureTransfer fw)) ∨
        t = splTransfer fw ∨ ∃ c, cfg = some c ∧ t = configTransfer fw c := by
  have htroot : t ∈ (if (SplHeader.ofBytes fw).trootLen ≠ 0 then
      [trootTransfer fw, signatureTransfer fw] else []) ↔
        (SplHeader.ofBytes fw).trootLen ≠ 0 ∧
          (t = trootTransfer fw ∨ t = signatureTransfer fw) := by
    split_ifs with h <;> simp [h]
  rw [bootSections, List.mem_append, List.mem_cons, List.mem_cons, htroot]
  cases cfg <;> simp [or_assoc]

theorem part_ne_done {t : BootTransfer} (h : t ∈ bootSections fw cfg) : t.part ≠ .done := by
  rcases mem_bootSections.mp h with rfl | ⟨-, rfl | rfl⟩ | rfl | ⟨c, -, rfl⟩ <;> nofun

/-- With the sections behind which there is a check sent, all are tried, and the packet that ends
the download as well. -/
theorem downloadImage_finished (hheader : pattern .header = 0) (hspl : pattern .spl = 0)
    (hconfig : cfg.isSome → pattern .config = 0) :
    downloadImage (answering pattern) fw cfg [] =
      (pattern .done, answerLog pattern (bootSections fw cfg ++ [doneTransfer])) := by
  have hheader' : pattern (headerTransfer fw).part = 0 := hheader
  have hspl' : pattern (splTransfer fw).part = 0 := hspl
  cases cfg with
  | none =>
    rw [downloadImage, bootSections]
    simp only [answering, hheader', hspl', ne_eq, not_true, if_false]
    split_ifs with htroot <;> simp [answerLog, hheader', hspl', doneTransfer]
  | some c =>
    have hconfig' : pattern (configTransfer fw c).part = 0 := hconfig rfl
    rw [downloadImage, bootSections]
    simp only [answering, hheader', hspl', hconfig', ne_eq, not_true, if_false]
    split_ifs with htroot <;> simp [answerLog, hheader', hspl', hconfig', doneTransfer]

theorem downloadImage_header (hheader : pattern .header ≠ 0) :
    downloadImage (answering pattern) fw cfg [] =
      (pattern .header, answerLog pattern [headerTransfer fw]) := by
  have hheader' : pattern (headerTransfer fw).part ≠ 0 := hheader
  exact if_pos hheader'

theorem downloadImage_spl (hheader : pattern .header = 0) (hspl : pattern .spl ≠ 0) :
    downloadImage (answering pattern) fw cfg [] =
      (pattern .spl, answerLog pattern (bootSections fw none)) := by
  have hheader' : pattern (headerTransfer fw).part = 0 := hheader
  have hspl' : pattern (splTransfer fw).part ≠ 0 := hspl
  rw [downloadImage, bootSections]
  simp only [answering, hheader', ne_eq, not_true, if_false, hspl', not_false_iff, if_true]
  split_ifs with htroot <;> simp [answerLog, hheader', splTransfer]

theorem downloadImage_config {c : List UInt8} (hheader : pattern .header = 0)
    (hspl : pattern .spl = 0) (hconfig : pattern .config ≠ 0) :
    downloadImage (answering pattern) fw (some c) [] =
      (pattern .config, answerLog pattern (bootSections fw (some c))) := by
  have hheader' : pattern (headerTransfer fw).part = 0 := hheader
  have hspl' : pattern (splTransfer fw).part = 0 := hspl
  have hconfig' : pattern (configTransfer fw c).part ≠ 0 := hconfig
  rw [downloadImage, bootSections]
  simp only [answering, hheader', hspl', ne_eq, not_true, if_false, hconfig', not_false_iff,
    if_true]
  split_ifs with htroot <;> simp [answerLog, hheader', hspl', configTransfer]

/-- Otherwise the download fails at one of these. -/
theorem downloadImage_stopped
    (h : ¬ (pattern .header = 0 ∧ pattern .spl = 0 ∧ (cfg.isSome → pattern .config = 0))) :
    ∃ t ∈ bootSections fw cfg, ∃ l, downloadImage (answering pattern) fw cfg [] =
      (pattern t.part, answerLog pattern l) ∧ pattern t.part ≠ 0 ∧
        ∀ u ∈ l, u ∈ bootSections fw cfg := by
  by_cases hheader : pattern .header = 0
  · by_cases hspl : pattern .spl = 0
    · obtain ⟨c, rfl, hconfig⟩ : ∃ c, cfg = some c ∧ pattern .config ≠ 0 := by
        cases cfg with
        | none => exact absurd ⟨hheader, hspl, nofun⟩ h
        | some c => exact ⟨c, rfl, fun h0 => h ⟨hheader, hspl, fun _ => h0⟩⟩
      exact ⟨configTransfer fw c, mem_bootSections.mpr (.inr (.inr (.inr ⟨c, rfl, rfl⟩))), _,
        downloadImage_config hheader hspl hconfig, hconfig, fun u hu => hu⟩
    · refine ⟨splTransfer fw, mem_bootSections.mpr (.inr (.inr (.inl rfl))), _,
        downloadImage_spl hheader hspl, hspl, fun u hu => ?_⟩
      rcases mem_bootSections.mp hu with hu | hu | hu | ⟨c, hc, -⟩
      · exact mem_bootSections.mpr (.inl hu)
      · exact mem_bootSections.mpr (.inr (.inl hu))
      · exact mem_bootSections.mpr (.inr (.inr (.inl hu)))
      · exact absurd hc nofun
  · refine ⟨headerTransfer fw, mem_bootSections.mpr (.inl rfl), _,
      downloadImage_header hheader, hheader, fun u hu => ?_⟩
    exact mem_bootSections.mpr (.inl (List.mem_singleton.mp hu))

/-- A download that stopped keeps the promise. -/
theorem DownloadContract.of_stopped {t : BootTransfer} (ht : t ∈ bootSections fw cfg)
    (hfailed : pattern t.part ≠ 0) {l : List BootTransfer}
    (hl : ∀ u ∈ l, u ∈ bootSections fw cfg) :
    DownloadContract fw cfg (pattern t.part, answerLog pattern l) := by
  constructor
  · refine ⟨fun h0 => absurd h0 hfailed, fun hall => ?_⟩
    have hzero := mem_answerLog (hall t (List.mem_append_left _ ht))
    exact hzero.2.symm
  · intro past e post heq hdone
    have heq' : answerLog pattern l = past ++ e :: post := heq
    have hmem : (e.1, e.2) ∈ answerLog pattern l := by
      rw [heq']
      exact List.mem_append_right _ List.mem_cons_self
    exact absurd hdone (part_ne_done (hl e.1 (mem_answerLog hmem).1))

/-- A download that ran to its end keeps it if every section was sent. -/
theorem downloadContract_finished_iff :
    DownloadContract fw cfg
        (pattern .done, answerLog pattern (bootSections fw cfg ++ [doneTransfer])) ↔
      ∀ t ∈ bootSections fw cfg, pattern t.part = 0 := by
  have hlog : answerLog pattern (bootSections fw cfg ++ [doneTransfer]) =
      answerLog pattern (bootSections fw cfg) ++ [(doneTransfer, pattern .done)] :=
    List.map_append
  constructor
  · intro h t ht
    have hmem : (t, pattern t.part) ∈ answerLog pattern (bootSections fw cfg) :=
      List.mem_map_of_mem (f := fun t => (t, pattern t.part)) ht
    exact h.done _ (doneTransfer, pattern .done) [] hlog rfl _ hmem
  · intro hall
    constructor
    · constructor
      · intro h0 t ht
        rcases List.mem_append.mp ht with ht' | ht'
        · rw [← hall t ht']
          exact List.mem_map_of_mem (f := fun t => (t, pattern t.part)) ht
        · obtain rfl := List.mem_singleton.mp ht'
          rw [hlog, ← h0]
          exact List.mem_append_right _ List.mem_cons_self
      · intro hsent
        exact (mem_answerLog (hsent doneTransfer
          (List.mem_append_right _ List.mem_cons_self))).2.symm
    · -- only the last transfer is the packet that ends the download
      rw [hlog]
      refine Always.concat ?_ fun _ e he => ?_
      · intro past e post heq hdone
        have hmem : (e.1, e.2) ∈ answerLog pattern (bootSections fw cfg) := by
          rw [heq]
          exact List.mem_append_right _ List.mem_cons_self
        exact absurd hdone (part_ne_done (mem_answerLog hmem).1)
      · obtain ⟨ht, ha⟩ := mem_answerLog (t := e.1) (a := e.2) he
        rw [ha, hall _ ht]

/-- **When the promise is kept.** -/
theorem download_contract_iff (pattern : BootPart → ℤ) (fw : List UInt8)
    (cfg : Option (Except Errno (List UInt8))) :
    DownloadContract fw (cfg.bind Except.toOption)
        (artosynDownloadFirmware (answering pattern) (some (.ok fw)) cfg []) ↔
      ¬ FailureSwallowed pattern fw (cfg.bind Except.toOption) := by
  rw [artosynDownloadFirmware]
  generalize cfg.bind Except.toOption = cfg
  by_cases h : pattern .header = 0 ∧ pattern .spl = 0 ∧ (cfg.isSome → pattern .config = 0)
  · obtain ⟨hheader, hspl, hconfig⟩ := h
    rw [downloadImage_finished hheader hspl hconfig, downloadContract_finished_iff]
    constructor
    · rintro hall ⟨htroot, hfailed, -⟩
      have h1 := hall _ (mem_bootSections.mpr (.inr (.inl ⟨htroot, .inl rfl⟩)))
      have h2 := hall _ (mem_bootSections.mpr (.inr (.inl ⟨htroot, .inr rfl⟩)))
      exact hfailed.elim (absurd h1) (absurd h2)
    · intro hnot t ht
      rcases mem_bootSections.mp ht with rfl | ⟨htroot, hpart⟩ | rfl | ⟨c, rfl, rfl⟩
      · exact hheader
      · by_contra hfailed
        refine hnot ⟨htroot, ?_, hheader, hspl, hconfig⟩
        rcases hpart with rfl | rfl
        · exact .inl hfailed
        · exact .inr hfailed
      · exact hspl
      · exact hconfig rfl
  · obtain ⟨t, ht, l, heq, hfailed, hl⟩ := @downloadImage_stopped pattern fw cfg h
    rw [heq]
    refine iff_of_true (DownloadContract.of_stopped ht hfailed hl) fun hswallowed => h ?_
    exact hswallowed.2.2

end Contract

/-- `troot` fails, and the download succeeds. -/
theorem download_contract_iff_troot :
    let fw : List UInt8 := List.replicate 36 0 ++ [1, 0, 0, 0] ++ List.replicate 8 0
    let pattern : BootPart → ℤ := fun part => if part = .troot then -eio else 0
    let r := artosynDownloadFirmware (answering pattern) (some (.ok fw)) none []
    r.1 = 0 ∧ (trootTransfer fw, -eio) ∈ r.2 ∧ ¬ DownloadContract fw none r := by
  intro fw pattern r
  have hr : r = (0, answerLog pattern (bootSections fw none ++ [doneTransfer])) :=
    @downloadImage_finished pattern fw none rfl rfl (fun h => absurd h Bool.false_ne_true)
  have htroot : trootTransfer fw ∈ bootSections fw none :=
    mem_bootSections.mpr (.inr (.inl ⟨by decide, .inl rfl⟩))
  refine ⟨by rw [hr], ?_, fun h => ?_⟩
  · rw [hr]
    exact List.mem_map.mpr ⟨_, List.mem_append_left _ htroot, rfl⟩
  · rw [hr] at h
    have hall := (@downloadContract_finished_iff pattern fw none).mp h
    exact absurd (hall _ htroot) (by decide : ¬ -eio = 0)

end Ar8030

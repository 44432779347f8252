import Mathlib.Data.Nat.Notation
import Mathlib.Tactic.SplitIfs

/-!
# Channels and output power

The values the lifecycle daemon tunes the chip with, from `lifecycled/lifecycle_tuning.c`. A
channel is an index into the chip's table or its own adaptation, a power level one of a table
of levels in mW for each role; the source keeps both in an `int` with negative numbers for
the special values.
-/

namespace Ar8030

/-- `lc_role_e`: the air unit is the AP, the ground unit the DEV. -/
inductive Role where
  | ap
  | dev
  deriving DecidableEq, Repr

/-! ### Channels -/

/-- A wanted channel: `LC_CHANNEL_AUTO`, `LC_CHANNEL_NONE` (leave the chip alone), or an index
into the chip's table. -/
inductive Channel where
  | auto
  | none
  | index (n : ℕ)
  deriving DecidableEq, Repr

/-- What `lc_channel_read` gets from the chip. -/
structure ChanReading where
  autoMode : Bool
  workChan : ℕ
  chanNum : ℕ
  deriving DecidableEq, Repr

/-- The channel the chip says it is on. -/
def ChanReading.observed (r : ChanReading) : Channel :=
  if r.autoMode then .auto else .index r.workChan

/-- `lc_channel_matches`; nothing matches `LC_CHANNEL_NONE`. -/
def lcChannelMatches (chan : Channel) (r : ChanReading) : Bool :=
  match chan with
  | .auto => r.autoMode
  | .none => false
  | .index n => !r.autoMode && r.workChan == n

/-- A reading matches exactly the channel it observes. -/
theorem lcChannelMatches_iff {chan : Channel} {r : ChanReading} :
    lcChannelMatches chan r = true ↔ chan = r.observed := by
  cases chan with
  | auto => cases h : r.autoMode <;> simp [lcChannelMatches, ChanReading.observed, h]
  | none => cases h : r.autoMode <;> simp [lcChannelMatches, ChanReading.observed, h]
  | index n =>
    cases h : r.autoMode
    · simp only [lcChannelMatches, ChanReading.observed, h]
      simpa using eq_comm
    · simp [lcChannelMatches, ChanReading.observed, h]

/-- `BB_CONFIG_MAX_CHAN_NUM`. -/
def maxChanNum : ℕ := 60

/-- The channels an HTTP client may ask for. -/
def Channel.isRequestable : Channel → Bool
  | .auto => true
  | .none => false
  | .index n => n < maxChanNum

/-- The channel lies outside the table the chip reports. -/
def Channel.isOutside (chan : Channel) (chanNum : ℕ) : Bool :=
  match chan with
  | .index n => chanNum ≤ n
  | _ => false

/-- `|a - b|` of two frequencies. -/
def khzDistance (a b : UInt32) : UInt32 := if b < a then a - b else b - a

/-- One round of the loop in `lc_channel_neighbour`: entry `i` is better than the best so far. -/
def nearer (table : List UInt32) (chan : ℕ) (best : Option (ℕ × UInt32)) (i : ℕ) :
    Option (ℕ × UInt32) :=
  if i = chan then best
  else
    let d := khzDistance (table.getD i 0) (table.getD chan 0)
    match best with
    | none => some (i, d)
    | some (_, bestD) => if d < bestD then some (i, d) else best

/-- `lc_channel_neighbour`: the entry nearest in frequency to `chan`, other than `chan`. -/
def lcChannelNeighbour (table : List UInt32) (chan : ℕ) : Option ℕ :=
  ((List.range table.length).foldl (nearer table chan) none).map Prod.fst

/-! ### Output power -/

/-- A power level: `LC_POWER_AUTO`, `LC_POWER_NONE` (leave the chip alone), or mW. -/
inductive PowerLevel where
  | auto
  | none
  | mw (n : ℕ)
  deriving DecidableEq, Repr

/-- `AP_POWER_LEVELS`: mW and the chip's dBm target. -/
def apPowerLevels : List (ℕ × ℕ) := [(400, 26), (200, 22), (100, 19), (25, 13)]

/-- `DEV_POWER_LEVELS`. -/
def devPowerLevels : List (ℕ × ℕ) := [(500, 24), (200, 20), (100, 17), (25, 11)]

/-- `DEV_AUTO_DBM`. -/
def devAutoDbm : ℕ := 24

/-- `DEV_AUTO_CAP_MW`: what "auto" counts as against a cap. -/
def devAutoCapMw : ℕ := 500

/-- `power_levels`. -/
def powerLevels : Role → List (ℕ × ℕ)
  | .ap => apPowerLevels
  | .dev => devPowerLevels

/-- `power_level_dbm`; `none` is the return value `-1`. -/
def powerLevelDbm (role : Role) (level : PowerLevel) : Option ℕ :=
  match level with
  | .auto => if role = .ap then Option.none else some devAutoDbm
  | .none => Option.none
  | .mw n => ((powerLevels role).find? fun t => t.1 == n).map Prod.snd

/-- `power_within`; a cap of 0 is none. -/
def powerWithin (maxMw : ℕ) (level : PowerLevel) : Bool :=
  maxMw == 0 ||
    match level with
    | .auto => devAutoCapMw ≤ maxMw
    | .none => true
    | .mw n => n ≤ maxMw

/-- `lc_power_valid`. -/
def lcPowerValid (role : Role) (maxMw : ℕ) (level : PowerLevel) : Bool :=
  (powerLevelDbm role level).isSome && powerWithin maxMw level

/-- The level of a role without a cap. -/
def rolePower : Role → ℕ
  | .ap => 400
  | .dev => 500

/-- `lc_power_default`; the return value `-1` is `LC_POWER_AUTO`. -/
def lcPowerDefault (role : Role) (maxMw : ℕ) : PowerLevel :=
  if powerWithin maxMw (.mw (rolePower role)) then .mw (rolePower role)
  else
    match (powerLevels role).find? fun t => powerWithin maxMw (.mw t.1) with
    | some t => .mw t.1
    | none => .auto

/-- Every level of the table has a dBm target. -/
theorem isSome_powerLevelDbm {role : Role} {t : ℕ × ℕ} (ht : t ∈ powerLevels role) :
    (powerLevelDbm role (.mw t.1)).isSome = true := by
  rw [powerLevelDbm, Option.isSome_map, List.find?_isSome]
  exact ⟨t, ht, beq_self_eq_true t.1⟩

/-- A valid level is not `LC_POWER_NONE`. -/
theorem ne_none_of_lcPowerValid {role : Role} {maxMw : ℕ} {level : PowerLevel}
    (h : lcPowerValid role maxMw level = true) : level ≠ .none := by
  rintro rfl
  simp [lcPowerValid, powerLevelDbm] at h

/-- The default level is valid, unless the cap leaves none. -/
theorem lcPowerDefault_valid {role : Role} {maxMw : ℕ} (h : lcPowerDefault role maxMw ≠ .auto) :
    lcPowerValid role maxMw (lcPowerDefault role maxMw) = true := by
  rw [lcPowerDefault] at h ⊢
  split_ifs at h ⊢ with hrole
  · have hmem : ∃ dbm, (rolePower role, dbm) ∈ powerLevels role := by
      cases role
      · exact ⟨26, by decide⟩
      · exact ⟨24, by decide⟩
    obtain ⟨dbm, hmem⟩ := hmem
    rw [lcPowerValid, isSome_powerLevelDbm hmem, hrole]
    rfl
  · cases hfind : (powerLevels role).find? fun t => powerWithin maxMw (.mw t.1) with
    | none => simp [hfind] at h
    | some t =>
      have hwithin := List.find?_some hfind
      dsimp only at hwithin ⊢
      rw [lcPowerValid, isSome_powerLevelDbm (List.mem_of_find?_eq_some hfind), hwithin]
      rfl

/-- Without a cap the default is the role's own level. -/
theorem lcPowerDefault_zero (role : Role) : lcPowerDefault role 0 = .mw (rolePower role) := rfl

end Ar8030

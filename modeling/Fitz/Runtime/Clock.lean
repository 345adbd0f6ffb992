import Fitz.Lib.Bytes

/-!
# The two clocks

Monotonic instants are nanoseconds, wall-clock times are milliseconds since the Unix epoch; they are converted
relative to one reading of both.
-/

namespace Fitz.Runtime

open Lib

/-- One reading of the `Clock`, with the last instant the platform represents. -/
structure Clock where
  nowInstant : ℕ
  nowEpochMs : ℕ
  lastInstant : ℕ
  deriving Repr, DecidableEq

/-- The nanoseconds of a millisecond. -/
def nanosPerMs : ℕ := 10 ^ 6

/-- `instant_to_epoch_ms_with_reference`. -/
def instantToEpochMsWithReference (instant : ℕ) (reference : Clock) : ℕ :=
  if instant ≥ reference.nowInstant then
    saturatingAdd u64Max reference.nowEpochMs (min ((instant - reference.nowInstant) / nanosPerMs) u64Max)
  else
    reference.nowEpochMs - min ((reference.nowInstant - instant) / nanosPerMs) u64Max

/-- `epoch_ms_to_instant_with_reference`. -/
def epochMsToInstantWithReference (timestampMs referenceInstant referenceEpochMs lastInstant : ℕ) : ℕ :=
  if timestampMs ≥ referenceEpochMs then
    (checkedAdd lastInstant referenceInstant ((timestampMs - referenceEpochMs) * nanosPerMs)).getD
      referenceInstant
  else
    let back := (referenceEpochMs - timestampMs) * nanosPerMs
    if back ≤ referenceInstant then referenceInstant - back else referenceInstant

theorem instantToEpochMs_of_exact {instant epochMs : ℕ} {reference : Clock} (hbound : epochMs ≤ u64Max)
    (hreference : reference.nowEpochMs ≤ u64Max)
    (hexact : instant + reference.nowEpochMs * nanosPerMs = reference.nowInstant + epochMs * nanosPerMs) :
    instantToEpochMsWithReference instant reference = epochMs := by
  unfold instantToEpochMsWithReference saturatingAdd
  simp only [nanosPerMs] at hexact ⊢
  split
  · have hdiv : (instant - reference.nowInstant) / 10 ^ 6 = epochMs - reference.nowEpochMs := by omega
    have hle : reference.nowEpochMs ≤ epochMs := by omega
    rw [hdiv]
    omega
  · have hdiv : (reference.nowInstant - instant) / 10 ^ 6 = reference.nowEpochMs - epochMs := by omega
    have hle : epochMs ≤ reference.nowEpochMs := by omega
    rw [hdiv]
    omega

theorem epochMsToInstant_of_le {timestampMs referenceInstant referenceEpochMs lastInstant : ℕ}
    (hle : referenceEpochMs ≤ timestampMs)
    (hlast : referenceInstant + (timestampMs - referenceEpochMs) * nanosPerMs ≤ lastInstant) :
    epochMsToInstantWithReference timestampMs referenceInstant referenceEpochMs lastInstant =
      referenceInstant + (timestampMs - referenceEpochMs) * nanosPerMs := by
  unfold epochMsToInstantWithReference checkedAdd
  rw [if_pos hle, if_pos hlast, Option.getD_some]

end Fitz.Runtime

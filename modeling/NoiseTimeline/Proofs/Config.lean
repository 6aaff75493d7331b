import NoiseTimeline.Config
import NoiseTimeline.Window

/-! Configurations that a run can be asked for: they pass the check, and the counters
of the program hold their numbers. -/

namespace NoiseTimeline.RunConfig

structure IsValid (c : RunConfig) : Prop where
  validated : c.validated = .ok c
  horizon : ∀ h ∈ c.horizon, h < wordLimit
  size : c.size < halfWordLimit
  threshold : c.threshold < halfWordLimit

variable {c : RunConfig}

theorem validated_eq_ok {c' : RunConfig} (h : c.validated = .ok c') :
    c' = c ∧ c.size ≠ 0 ∧ c.threshold ≠ 0 ∧ c.stride ≠ 0 ∧ c.blockSize ≠ 0 ∧
    c.width < wordLimit := by
  unfold validated at h
  split at h
  · cases h
  · rename_i hsize
    split at h
    · cases h
    · rename_i hthreshold
      split at h
      · cases h
      · rename_i hstride
        split at h
        · cases h
        · rename_i hblock
          split at h
          · cases h
          · rename_i hwidth
            cases h
            exact ⟨rfl, hsize, hthreshold, hstride, hblock, Nat.not_le.mp hwidth⟩

theorem IsValid.stride_pos (h : c.IsValid) : 0 < c.stride :=
  Nat.pos_of_ne_zero (validated_eq_ok h.validated).2.2.2.1

theorem IsValid.blockSize_pos (h : c.IsValid) : 0 < c.blockSize :=
  Nat.pos_of_ne_zero (validated_eq_ok h.validated).2.2.2.2.1

theorem IsValid.width_pos (h : c.IsValid) : 0 < c.width := Nat.mul_pos h.blockSize_pos h.stride_pos

def lastCovered (c : RunConfig) : Nat := c.horizon.getD lastCycle

theorem IsValid.lastCovered_le (h : c.IsValid) : c.lastCovered ≤ lastCycle := by
  unfold lastCovered
  cases hh : c.horizon with
  | none => exact Nat.le_refl _
  | some n => exact Nat.le_pred_of_lt (h.horizon n hh)

end NoiseTimeline.RunConfig

import NoiseTimeline.Proofs.Number.Places
import NoiseTimeline.Proofs.Run.Peak
import NoiseTimeline.RunLog

/-! The progress line of a window. It carries the first and the last three of the window's
probabilities, and the maximum of all probabilities up to there, each with three places. -/

namespace NoiseTimeline

namespace Timeline

variable {t : Timeline} {m : Binary64}

/-- The maximum of the probabilities so far. A NaN is above all that come before it and below all
that follow, so only the samples after the last of them are compared. -/
inductive IsRunningMaximum : Timeline → Binary64 → Prop
  | empty : IsRunningMaximum [] .zero
  | nan {before : Timeline} {x : Sample} (hx : x.probability.isNaN = true) :
      IsRunningMaximum (before ++ [x]) x.probability
  | peak {before recent : Timeline} {x : Sample}
      (hbefore : ∀ y ∈ before.getLast?, y.probability.isNaN = true) (hx : recent.IsFirstPeak x) :
      IsRunningMaximum (before ++ recent) x.probability

theorem isFirstPeak_singleton {x : Sample} (hx : x.probability.isNaN = false) :
    Timeline.IsFirstPeak [x] x :=
  ⟨[], [], rfl, by simpa using Binary64.le_refl hx, by simp⟩

theorem IsFirstPeak.append_of_le {x y : Sample} (h : t.IsFirstPeak x)
    (hy : y.probability.le x.probability = true) : Timeline.IsFirstPeak (t ++ [y]) x := by
  obtain ⟨before, after, rfl, hmax, hbefore⟩ := h
  refine ⟨before, after ++ [y], by rw [List.append_assoc, List.cons_append], ?_, hbefore⟩
  intro z hz
  rcases List.mem_append.mp hz with hz | hz
  · exact hmax z hz
  · rwa [List.mem_singleton.mp hz]

theorem IsRunningMaximum.append_singleton (h : t.IsRunningMaximum m) (x : Sample) :
    (x.probability.le m = true → t ≠ [] → Timeline.IsRunningMaximum (t ++ [x]) m) ∧
      (x.probability.le m = false ∨ t = [] →
        Timeline.IsRunningMaximum (t ++ [x]) x.probability) := by
  constructor
  · intro hle hne
    cases h with
    | empty => exact absurd rfl hne
    | nan hm => exact absurd ((Binary64.le_iff.mp hle).2.1.symm.trans hm) Bool.false_ne_true
    | peak hbefore hpeak =>
      rw [List.append_assoc]
      exact .peak hbefore (hpeak.append_of_le hle)
  · intro hnew
    by_cases hx : x.probability.isNaN = true
    · exact .nan hx
    rw [Bool.not_eq_true] at hx
    have halone := isFirstPeak_singleton hx
    cases h with
    | empty => exact .peak (fun y hy => nomatch hy) halone
    | nan hm => exact .peak (by simpa using hm) halone
    | @peak before recent top hbefore hpeak =>
      have hgt : x.probability.le top.probability = false := by
        refine hnew.resolve_right fun hnil => ?_
        rw [(List.append_eq_nil_iff.mp hnil).2] at hpeak
        exact absurd hpeak.mem List.not_mem_nil
      have htop : top.probability.isNaN = false :=
        (Binary64.le_iff.mp (hpeak.le top hpeak.mem)).1
      rw [List.append_assoc]
      refine .peak hbefore (halone.append fun y hy => ?_)
      have hlt : top.probability.lt x.probability = true := by
        rw [Binary64.lt_eq_not_le htop hx, hgt]
        rfl
      exact Binary64.lt_of_le_of_lt (hpeak.le y hy) hlt

theorem maxProbability_append_singleton (t : Timeline) (x : Sample) :
    Timeline.maxProbability (t ++ [x]) = runningMax t.maxProbability x.probability := by
  rw [maxProbability, List.map_append, List.foldl_append]
  rfl

theorem isRunningMaximum_maxProbability (t : Timeline) :
    t.IsRunningMaximum (t.maxProbability.getD .zero) ∧ (t.maxProbability = none ↔ t = []) := by
  induction t using List.reverseRecOn with
  | nil => exact ⟨.empty, iff_of_true rfl rfl⟩
  | append_singleton t x ih =>
    obtain ⟨hmax, hnone⟩ := ih
    obtain ⟨hkeeps, hreplaces⟩ := hmax.append_singleton x
    have hne : t ++ [x] ≠ [] := List.append_ne_nil_of_right_ne_nil t (List.cons_ne_nil x [])
    rw [maxProbability_append_singleton]
    cases hm : Timeline.maxProbability t with
    | none => exact ⟨hreplaces (Or.inr (hnone.mp hm)), iff_of_false (Option.some_ne_none _) hne⟩
    | some m =>
      have htne : t ≠ [] := fun hnil =>
        Option.some_ne_none m (hm.symm.trans (hnone.mpr hnil))
      rw [hm, Option.getD_some] at hkeeps hreplaces
      rw [runningMax]
      split
      · rename_i hle
        exact ⟨hkeeps hle htne, iff_of_false (Option.some_ne_none _) hne⟩
      · rename_i hle
        rw [Bool.not_eq_true] at hle
        exact ⟨hreplaces (Or.inl hle), iff_of_false (Option.some_ne_none _) hne⟩

end Timeline

/-- The first and the last cycle of a window, as a log names them. -/
def Window.boundsText (w : Window) : String :=
  "(" ++ toString w.lower ++ "," ++ toString w.upper ++ ")"

theorem Window.text_eq_boundsText (w : Window) : w.text = w.boundsText := by
  unfold text boundsText
  rfl

def ProbabilityTexts : List Sample → List String → Prop :=
  List.Forall₂ fun s text => s.probability.FixedText 3 text

/-- What is said of a window whose samples follow those `before`. -/
inductive ProgressLine (w : Window) (before samples : Timeline) : String → Prop
  | mk {head last : List String} {top : Binary64} {topText : String}
      (hhead : ProbabilityTexts (samples.take 3) head)
      (hlast : ProbabilityTexts (samples.drop (samples.length - 3)) last)
      (htop : Timeline.IsRunningMaximum (before ++ samples) top)
      (htopText : top.FixedText 3 topText) :
      ProgressLine w before samples
        ("finished clock cycle block " ++ w.boundsText ++ ". P: [" ++
          String.intercalate ", " head ++ "..." ++ String.intercalate ", " last ++
          "]. Pmax: " ++ topText)

theorem probabilityTexts_map (samples : List Sample) :
    ProbabilityTexts samples (samples.map fun s => s.probability.toFixed 3) := by
  rw [ProbabilityTexts, List.forall₂_map_right_iff, List.forall₂_same]
  exact fun s _ => Binary64.fixedText_toFixed (by decide) s.probability

theorem progressText_eq (w : Window) (samples : List Sample) (top : Binary64) :
    progressText w samples top =
      "finished clock cycle block " ++ w.boundsText ++ ". P: [" ++
        String.intercalate ", " ((samples.take 3).map fun s => s.probability.toFixed 3) ++ "..." ++
        String.intercalate ", " ((samples.drop (samples.length - 3)).map fun s =>
          s.probability.toFixed 3) ++
        "]. Pmax: " ++ top.toFixed 3 := by
  unfold progressText Text.joined
  rw [← w.text_eq_boundsText]
  simp only [String.append_assoc]
  rfl

theorem progressLine_progressText (w : Window) (before samples : Timeline) :
    ProgressLine w before samples
      (progressText w samples ((Timeline.maxProbability (before ++ samples)).getD .zero)) := by
  rw [progressText_eq]
  exact .mk (probabilityTexts_map _) (probabilityTexts_map _)
    (Timeline.isRunningMaximum_maxProbability (before ++ samples)).1
    (Binary64.fixedText_toFixed (by decide) _)

end NoiseTimeline

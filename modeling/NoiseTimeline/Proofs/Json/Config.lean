import NoiseTimeline.Json.Records
import NoiseTimeline.Proofs.Config
import NoiseTimeline.Proofs.Json.ReadBack
import NoiseTimeline.Proofs.Settings.ReadBack
import NoiseTimeline.Proofs.Window.Partition

/-! Where a configuration comes from. The builder lets through what keeps the rules, and
then the windows are cut as they should be. JSON gives whatever the fields' types can hold. -/

namespace NoiseTimeline

theorem Slot.required_eq_some {α β : Type} {read : β → Option α} {slot : Slot β} {a : α}
    (h : slot.required read = some a) :
    ∃ v, read v = some a := by
  cases slot with
  | present v => exact ⟨v, h⟩
  | missing => cases h
  | cutOff => cases h

theorem Slot.optional_eq_some {α β : Type} {isNull : β → Bool} {read : β → Option α} {slot : Slot β}
    {answer : Option α} (h : slot.optional isNull read = some answer) :
    ∀ a ∈ answer, ∃ v, read v = some a := by
  cases slot with
  | present v =>
    rw [Slot.optional] at h
    split at h
    · cases h
      nofun
    · obtain ⟨a, ha, rfl⟩ := Option.map_eq_some_iff.mp h
      rintro b ⟨⟩
      exact ⟨v, ha⟩
  | missing =>
    cases h
    nofun
  | cutOff => cases h

namespace JsonTree

theorem count?_lt {limit n : Nat} {j : JsonTree} (h : j.count? limit = some n) : n < limit := by
  unfold count? at h
  split at h
  · rw [JsonNumber.count?] at h
    split at h
    · cases h
    · dsimp only at h
      split at h
      · rename_i hlt
        cases h
        exact hlt
      · cases h
  · cases h

end JsonTree

namespace RunConfig

variable {c : RunConfig} {j : JsonTree}

/-- The fields' types can hold the numbers. -/
structure InTypes (c : RunConfig) : Prop where
  size : c.size < halfWordLimit
  horizon : ∀ h ∈ c.horizon, h < wordLimit
  threshold : c.threshold < halfWordLimit
  stride : c.stride < wordLimit
  blockSize : c.blockSize < wordLimit

theorem inTypes_of_ofJson? (h : ofJson? j = some c) : c.InTypes := by
  obtain ⟨slots, -, h⟩ := Option.bind_eq_some_iff.mp h
  split at h
  · obtain ⟨size, hsize, h⟩ := Option.bind_eq_some_iff.mp h
    obtain ⟨property, -, h⟩ := Option.bind_eq_some_iff.mp h
    obtain ⟨horizon, hhorizon, h⟩ := Option.bind_eq_some_iff.mp h
    obtain ⟨threshold, hthreshold, h⟩ := Option.bind_eq_some_iff.mp h
    obtain ⟨stride, hstride, h⟩ := Option.bind_eq_some_iff.mp h
    obtain ⟨blockSize, hblockSize, h⟩ := Option.bind_eq_some_iff.mp h
    obtain ⟨flits, -, h⟩ := Option.bind_eq_some_iff.mp h
    cases h
    have hcount : ∀ {limit n : Nat} {slot : Slot JsonTree},
        slot.required (JsonTree.count? limit) = some n → n < limit := by
      intro limit n slot hslot
      obtain ⟨v, hv⟩ := Slot.required_eq_some hslot
      exact JsonTree.count?_lt hv
    refine ⟨hcount hsize, fun n hn => ?_, hcount hthreshold, hcount hstride, hcount hblockSize⟩
    obtain ⟨v, hv⟩ := Slot.optional_eq_some hhorizon n hn
    exact JsonTree.count?_lt hv
  · cases h

/-- The tree that the text of a configuration is read as. -/
def tree (c : RunConfig) : JsonTree :=
  .record [
    (some "size", .number (.ofCount c.size)),
    (some "property", .text (some c.property.token)),
    (some "horizon", c.horizon.elim .null fun n => .number (.ofCount n)),
    (some "threshold", .number (.ofCount c.threshold)),
    (some "stride", .number (.ofCount c.stride)),
    (some "block_size", .number (.ofCount c.blockSize)),
    (some "flit_generation", c.flits.elim .null fun s => .text (some s))]

theorem spells_tree (c : RunConfig) : c.toJson.Spells c.tree := by
  have hhorizon : (Json.option Json.count c.horizon).Spells
      (c.horizon.elim .null fun n => .number (.ofCount n)) := by
    cases c.horizon with
    | none => exact .null
    | some n => exact .count n
  have hflits : (Json.option Json.text c.flits).Spells
      (c.flits.elim .null fun s => .text (some s)) := by
    cases c.flits with
    | none => exact .null
    | some s => exact .text s
  exact .record (.cons (.count _) (.cons (.text _) (.cons hhorizon (.cons (.count _)
    (.cons (.count _) (.cons (.count _) (.cons hflits .nil)))))))

theorem ofToken?_token (p : NoiseProperty) : NoiseProperty.ofToken? p.token = some p := by
  cases p <;> decide

/-- It gives the configuration back if its types can hold its numbers, whether or not it keeps the
rules. -/
theorem ofJson?_tree (h : c.InTypes) : ofJson? c.tree = some c := by
  have hslots : c.tree.slots? fieldNames = some [.present (.number (.ofCount c.size)),
      .present (.text (some c.property.token)),
      .present (c.horizon.elim .null fun n => .number (.ofCount n)),
      .present (.number (.ofCount c.threshold)), .present (.number (.ofCount c.stride)),
      .present (.number (.ofCount c.blockSize)),
      .present (c.flits.elim .null fun s => .text (some s))] :=
    Slot.ofFields_eq (show fieldNames.Nodup by decide)
  have hhorizon :
      (Slot.present (c.horizon.elim JsonTree.null fun n => .number (.ofCount n))).optional
        JsonTree.isNull
      (JsonTree.count? wordLimit) = some c.horizon := by
    cases hh : c.horizon with
    | none => rfl
    | some n => exact congrArg (Option.map some) (JsonNumber.count?_ofCount (h.horizon n hh))
  have hflits : (Slot.present (c.flits.elim JsonTree.null fun s => .text (some s))).optional
      JsonTree.isNull JsonTree.text? =
      some c.flits := by
    cases c.flits <;> rfl
  rw [ofJson?, hslots]
  refine Option.bind_eq_some_iff.mpr ⟨_, rfl, ?_⟩
  refine Option.bind_eq_some_iff.mpr ⟨_, JsonNumber.count?_ofCount h.size, ?_⟩
  refine Option.bind_eq_some_iff.mpr ⟨_, ofToken?_token c.property, ?_⟩
  refine Option.bind_eq_some_iff.mpr ⟨_, hhorizon, ?_⟩
  refine Option.bind_eq_some_iff.mpr ⟨_, JsonNumber.count?_ofCount h.threshold, ?_⟩
  refine Option.bind_eq_some_iff.mpr ⟨_, JsonNumber.count?_ofCount h.stride, ?_⟩
  refine Option.bind_eq_some_iff.mpr ⟨_, JsonNumber.count?_ofCount h.blockSize, ?_⟩
  refine Option.bind_eq_some_iff.mpr ⟨_, hflits, ?_⟩
  rfl

/-- A reader of JSON for which the compact text of a configuration is a text of its tree. -/
def ReadsBack (read? : String → Option JsonTree) : Prop :=
  ∀ c : RunConfig, c.InTypes → read? c.toJson.compact = some c.tree

theorem readsBack_read? : ReadsBack JsonTree.read? := fun c _ => c.spells_tree.read?_compact

theorem ReadsBack.exists_text_iff {read? : String → Option JsonTree} (hread : ReadsBack read?) :
    (∃ text, (read? text).bind ofJson? = some c) ↔ c.InTypes := by
  constructor
  · rintro ⟨text, h⟩
    obtain ⟨j, -, h⟩ := Option.bind_eq_some_iff.mp h
    exact inTypes_of_ofJson? h
  · intro h
    refine ⟨c.toJson.compact, ?_⟩
    rw [hread c h, Option.bind_some, ofJson?_tree h]

/-- No number is zero where none may be, and the counter can hold the width of a window. -/
structure KeepsRules (c : RunConfig) : Prop where
  size_pos : 1 ≤ c.size
  threshold_pos : 1 ≤ c.threshold
  stride_pos : 1 ≤ c.stride
  blockSize_pos : 1 ≤ c.blockSize
  width_lt : c.width < wordLimit

theorem KeepsRules.width_pos (h : c.KeepsRules) : 1 ≤ c.width :=
  Nat.mul_pos h.blockSize_pos h.stride_pos

theorem validated_eq_ok_iff {b : RunConfig} : b.validated = .ok c ↔ b = c ∧ c.KeepsRules := by
  constructor
  · intro h
    obtain ⟨rfl, hsize, hthreshold, hstride, hblockSize, hwidth⟩ := validated_eq_ok h
    exact ⟨rfl, Nat.pos_of_ne_zero hsize, Nat.pos_of_ne_zero hthreshold, Nat.pos_of_ne_zero hstride,
      Nat.pos_of_ne_zero hblockSize, hwidth⟩
  · rintro ⟨rfl, h⟩
    rw [validated, if_neg (Nat.ne_of_gt h.size_pos), if_neg (Nat.ne_of_gt h.threshold_pos),
      if_neg (Nat.ne_of_gt h.stride_pos), if_neg (Nat.ne_of_gt h.blockSize_pos),
      if_neg (Nat.not_le.mpr h.width_lt)]

/-- The window number `k` of a run. -/
def window (c : RunConfig) (k : Nat) : Window := .cut c.width c.lastCovered k

/-- The planner's windows are as wide as the block size and the stride say. Only the last may be
narrower: it ends with the last cycle. -/
structure IsCut (c : RunConfig) : Prop where
  width? : c.width? = some (c.blockSize * c.stride)
  width_pos : 1 ≤ c.width
  yields : (Planner.new c.width c.horizon).Yields
    ((List.range (c.lastCovered / c.width + 1)).map c.window)
  whole : ∀ k < c.lastCovered / c.width, (c.window k).width? = some c.width
  last : ∃ n ≤ c.width, (c.window (c.lastCovered / c.width)).width? = some n ∧
    (c.window (c.lastCovered / c.width)).upper = c.lastCovered

theorem KeepsRules.isCut (h : c.KeepsRules) (htypes : c.InTypes) : c.IsCut := by
  have hfits : c.width ≤ lastCycle := Nat.le_pred_of_lt h.width_lt
  have hlast : c.lastCovered < c.lastCovered / c.width * c.width + c.width :=
    Nat.lt_div_mul_add h.width_pos
  refine ⟨if_pos h.width_lt, h.width_pos, ?_, fun k hk => ?_, ?_⟩
  · have hyields := Planner.yields_windows (Planner.inRange_new h.width_lt htypes.horizon).width_pos
    rw [Planner.windows_new h.width_pos fun n hn => Nat.le_pred_of_lt (htypes.horizon n hn)]
      at hyields
    exact hyields
  · obtain ⟨n, hn, -, hwhole⟩ := Window.width?_cut h.width_pos hfits (Nat.lt_succ_of_lt hk)
    exact hwhole hk ▸ hn
  · obtain ⟨n, hn, hle, -⟩ :=
      Window.width?_cut h.width_pos hfits (Nat.lt_succ_self (c.lastCovered / c.width))
    refine ⟨n, hle, hn, ?_⟩
    dsimp only [window, Window.cut]
    omega

/-- The builder gives just the configurations that keep the rules, and their windows are cut as they
should be. From JSON comes every configuration whose numbers their types can hold. -/
theorem origin_decides_validity {read? : String → Option JsonTree} (hread : ReadsBack read?)
    (c : RunConfig) :
    ((∃ b : RunConfig, b.InTypes ∧ b.validated = .ok c) ↔ c.InTypes ∧ c.KeepsRules) ∧
    ((∃ text, (read? text).bind ofJson? = some c) ↔ c.InTypes) ∧
    (c.InTypes ∧ c.KeepsRules → c.IsCut) := by
  refine ⟨?_, hread.exists_text_iff, fun h => h.2.isCut h.1⟩
  constructor
  · rintro ⟨b, htypes, hb⟩
    obtain ⟨rfl, hrules⟩ := validated_eq_ok_iff.mp hb
    exact ⟨htypes, hrules⟩
  · rintro ⟨htypes, hrules⟩
    exact ⟨c, htypes, validated_eq_ok_iff.mpr ⟨rfl, hrules⟩⟩

/-- The last of its windows ends early, with the horizon. -/
def clipped : RunConfig := { size := 2, property := .irDrop, horizon := some 120 }

theorem clipped_is_cut : (∃ b : RunConfig, b.InTypes ∧ b.validated = .ok clipped) ∧
    (∃ text, (JsonTree.read? text).bind ofJson? = some clipped) ∧
    (Planner.new 50 (some 120)).Yields [⟨0, 49⟩, ⟨50, 99⟩, ⟨100, 120⟩] := by
  have htypes : clipped.InTypes := ⟨by decide, by decide, by decide, by decide, by decide⟩
  have hrules : clipped.KeepsRules := ⟨by decide, by decide, by decide, by decide, by decide⟩
  obtain ⟨hbuilt, hfound, hcut⟩ := origin_decides_validity readsBack_read? clipped
  exact ⟨hbuilt.mpr ⟨htypes, hrules⟩, hfound.mpr htypes, (hcut ⟨htypes, hrules⟩).yields⟩

/-- What the builder refuses is read from JSON: a stride of zero, with which a window should be no
cycle wide, and a width that the counter cannot hold. -/
theorem unchecked_from_text :
    (∃ c, (JsonTree.read?
        ("\x7b\"size\":2,\"property\":\"resistive\",\"horizon\":null,\"threshold\":1," ++
          "\"stride\":0,\"block_size\":50,\"flit_generation\":null\x7d")).bind ofJson? = some c ∧
      c.width? = some 0 ∧
      c.validated = .error (.zero "stride") ∧
      (Planner.new c.width c.horizon).next.1 = some ⟨0, 0⟩) ∧
    ∃ c, (JsonTree.read?
        ("\x7b\"size\":2,\"property\":\"resistive\",\"horizon\":null,\"threshold\":1," ++
          "\"stride\":2,\"block_size\":9223372036854775808,\"flit_generation\":null\x7d")).bind
            ofJson? = some c ∧
      c.width? = none := by
  refine ⟨⟨{ size := 2, property := .irDrop, stride := 0 }, ?_, ?_, ?_, ?_⟩,
    ⟨{ size := 2, property := .irDrop, stride := 2, blockSize := 9223372036854775808 }, ?_, ?_⟩⟩
  all_goals decide +kernel

end RunConfig

end NoiseTimeline

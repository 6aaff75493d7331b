import NoiseTimeline.Toml.Document

/-! Readers of TOML that accept different integers. What one of them reads is read alike by every
one that accepts more of them, so a text that can be edited is also read. -/

namespace NoiseTimeline

variable {α β : Type} {x y : Option α}

/-- What the first gives, if anything, the second gives as well. -/
def Extended (x y : Option α) : Prop := ∀ v, x = some v → y = some v

theorem Extended.refl (x : Option α) : Extended x x := fun _ h => h

theorem Extended.bind {f g : α → Option β} (h : Extended x y) (hfg : ∀ v, Extended (f v) (g v)) :
    Extended (x >>= f) (y >>= g) := by
  intro w hw
  obtain ⟨v, hx, hv⟩ := Option.bind_eq_some_iff.mp hw
  exact Option.bind_eq_some_iff.mpr ⟨v, h v hx, hfg v w hv⟩

theorem Extended.bind_left {f : α → Option β} (h : Extended x y) : Extended (x >>= f) (y >>= f) :=
  h.bind fun _ => .refl _

theorem Extended.bind_right {f g : α → Option β} (x : Option α) (hfg : ∀ v, Extended (f v) (g v)) :
    Extended (x >>= f) (x >>= g) :=
  (Extended.refl x).bind hfg

theorem Extended.map (h : Extended x y) (f : α → β) : Extended (x.map f) (y.map f) := by
  intro w hw
  obtain ⟨v, hx, hv⟩ := Option.map_eq_some_iff.mp hw
  exact Option.map_eq_some_iff.mpr ⟨v, h v hx, hv⟩

namespace Toml

/-- Every integer of the one range is in the other. -/
def IntegerRange.Within (range range' : IntegerRange) : Prop :=
  range'.low ≤ range.low ∧ range.high ≤ range'.high

variable {range range' : IntegerRange}

section

variable (h : range.Within range')

include h

theorem extended_scalar? (s : List Char) :
    Extended (scalar? range.low range.high s) (scalar? range'.low range'.high s) := by
  unfold scalar?
  split
  · exact .refl _
  split
  · exact .refl _
  split
  · rename_i n hn
    intro v hv
    obtain ⟨⟨hlow, hhigh⟩, hv⟩ := Option.ite_none_right_eq_some.mp hv
    rw [if_pos ⟨Int.le_trans h.1 hlow, Int.le_trans hhigh h.2⟩, hv]
  · exact .refl _

theorem extended_plain? (s : List Char) : Extended (plain? range s) (plain? range' s) := by
  unfold plain?
  dsimp only
  split
  · split
    · exact (extended_scalar? h _).map _
    · exact (extended_scalar? h _).map _
  · exact (extended_scalar? h _).map _

/-- The readers of values, lists and tables call each other with less fuel. -/
theorem extended_readers (fuel : Nat) :
    (∀ depth s, Extended (value? range fuel depth s) (value? range' fuel depth s)) ∧
    (∀ depth acc s, Extended (items? range fuel depth acc s) (items? range' fuel depth acc s)) ∧
    (∀ depth acc s, Extended (fields? range fuel depth acc s)
      (fields? range' fuel depth acc s)) := by
  induction fuel with
  | zero =>
    refine ⟨fun depth s => ?_, fun depth acc s => ?_, fun depth acc s => ?_⟩
    · rw [value?, value?]
      exact .refl _
    · rw [items?, items?]
      exact .refl _
    · rw [fields?, fields?]
      exact .refl _
  | succ fuel ih =>
    obtain ⟨hvalue, hitems, hfields⟩ := ih
    refine ⟨fun depth s => ?_, fun depth acc s => ?_, fun depth acc s => ?_⟩
    · unfold value?
      split
      · exact .refl _
      · exact .refl _
      · split
        · exact hitems _ _ _
        · exact .refl _
      · split
        · exact hfields _ _ _
        · exact .refl _
      · exact extended_plain? h s
    · unfold items?
      refine .bind_right _ fun rest => ?_
      split
      · exact .refl _
      · refine (hvalue _ _).bind fun (v, s) => .bind_right _ fun rest => ?_
        split
        · exact hitems _ _ _
        · exact .refl _
        · exact .refl _
    · unfold fields?
      refine .bind_right _ fun rest => ?_
      split
      · exact .refl _
      · refine .bind_right _ fun (key, s) => .bind_right _ fun s => (hvalue _ _).bind fun (v, s) =>
          .bind_right _ fun acc => .bind_right _ fun rest => ?_
        split
        · exact hfields _ _ _
        · exact .refl _
        · exact .refl _

theorem extended_readAssignment? (d : Document) (lead s : List Char) :
    Extended (Document.readAssignment? range d lead s)
      (Document.readAssignment? range' d lead s) := by
  unfold Document.readAssignment?
  refine .bind_right _ fun (key, r) => .bind_right _ fun r => ?_
  exact ((extended_readers h _).1 _ _).bind_left

theorem extended_readFrom? (fuel : Nat) (d : Document) (s : List Char) :
    Extended (Document.readFrom? range fuel d s) (Document.readFrom? range' fuel d s) := by
  induction fuel generalizing d s with
  | zero => exact .refl _
  | succ fuel ih =>
    unfold Document.readFrom?
    refine .bind_right _ fun rest => ?_
    split
    · exact .refl _
    · exact .bind_right _ fun (d, rest) => ih _ _
    · exact .bind_right _ fun (d, rest) => ih _ _
    · exact (extended_readAssignment? h _ _ _).bind fun (d, rest) => ih _ _

theorem extended_read? (text : String) :
    Extended (Document.read? range text) (Document.read? range' text) := by
  unfold Document.read?
  exact extended_readFrom? h _ _ _

end

theorem editRange_within : Document.editRange.Within Document.readRange := by
  rw [IntegerRange.Within, Document.editRange, Document.readRange]
  decide

end Toml

end NoiseTimeline

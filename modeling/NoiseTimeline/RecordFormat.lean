/-!
Records in tree-shaped data. A format says how a tree yields the fields of a record and its leaves;
a record is then read in the same way from any format. Fields may be missing, by name or because a
list is too short.
-/

namespace NoiseTimeline

inductive Slot (β : Type) where
  | present (value : β)
  | missing
  /-- The record was given as a list that ends before the field. -/
  | cutOff

structure RecordFormat (β : Type) where
  /-- The fields of the given names, in that order; names that are not asked for do not matter. -/
  slots? : List String → β → Option (List (Slot β))
  count? : Nat → β → Option Nat
  text? : β → Option String
  bool? : β → Option Bool
  /-- The name in a value that is one of several names. -/
  choice? : β → Option String

namespace Slot

variable {α β : Type}

def required (read : β → Option α) : Slot β → Option α
  | .present v => read v
  | _ => none

/-- A field that may be missing by name or null. -/
def optional (isNull : β → Bool) (read : β → Option α) : Slot β → Option (Option α)
  | .present v => if isNull v then some none else (read v).map some
  | .missing => some none
  | .cutOff => none

def orDefault (default : α) (read : β → Option α) : Slot β → Option α
  | .present v => read v
  | _ => some default

/-- The slots of a list of values, one for each of `count` fields; too many values are refused if
`exact`. -/
def ofList (exact : Bool) (count : Nat) (values : List β) : Option (List (Slot β)) :=
  if exact && count < values.length then none
  else some ((values.take count).map .present ++ List.replicate (count - values.length) .cutOff)

/-- The slots of named values. A name that is asked for must not occur twice. -/
def ofFields (names : List String) (fields : List (String × β)) : Option (List (Slot β)) :=
  names.mapM fun name =>
    match fields.filter (fun f => f.1 == name) with
    | [] => some .missing
    | [f] => some (.present f.2)
    | _ => none

end Slot

end NoiseTimeline

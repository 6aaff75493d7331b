import NoiseTimeline.Number.Binary64
import NoiseTimeline.RecordFormat

/-!
TOML data as a tree. A table remembers how it came to be, which decides what may be added to it
later.
-/

namespace NoiseTimeline.Toml

/-- How a table came to be: by a header of its own, as a part of a longer header, by a dotted key,
or in braces. -/
inductive Origin where
  | header
  | implied
  | dotted
  | inlined
  deriving DecidableEq

inductive Tree where
  | text (s : String)
  | integer (n : Int)
  | real (x : Binary64)
  | bool (b : Bool)
  /-- A date, a time or both, as it is spelled. -/
  | moment (spelling : String)
  | list (items : List Tree)
  | table (origin : Origin) (fields : List (String × Tree))
  /-- Tables that share a header in double brackets. -/
  | tables (elements : List Tree)

abbrev Fields := List (String × Tree)

namespace Fields

def set (name : String) (v : Tree) (fields : Fields) : Fields :=
  fields.map fun f => if f.1 == name then (name, v) else f

/-- Adds a value under a dotted key. Only tables that dotted keys have made may be added to, and no
key may be set twice; on the way to such a table, one that a longer header implies may be passed. -/
def assign? (v : Tree) : List String → Fields → Option Fields
  | [], _ => none
  | [name], fields => if (fields.lookup name).isSome then none else some (fields ++ [(name, v)])
  | name :: rest, fields =>
    match fields.lookup name with
    | none => (assign? v rest []).map fun inner => fields ++ [(name, .table .dotted inner)]
    | some (.table .dotted inner) =>
      (assign? v rest inner).map fun inner => set name (.table .dotted inner) fields
    | some (.table .implied inner) =>
      if rest.length = 1 then none
      else (assign? v rest inner).map fun inner => set name (.table .implied inner) fields
    | some _ => none

/-- Goes to the fields of the table that a path names and changes them. The tables on the way are
made where they are missing; of tables that share a header the last one is meant. -/
def within? (change : Fields → Option Fields) : List String → Fields → Option Fields
  | [], fields => change fields
  | name :: rest, fields =>
    match fields.lookup name with
    | none => (within? change rest []).map fun inner => fields ++ [(name, .table .implied inner)]
    | some (.table .inlined _) => none
    | some (.table origin inner) =>
      (within? change rest inner).map fun inner => set name (.table origin inner) fields
    | some (.tables elements) =>
      match elements.getLast? with
      | some (.table origin inner) =>
        (within? change rest inner).map fun inner =>
          set name (.tables (elements.dropLast ++ [.table origin inner])) fields
      | _ => none
    | some _ => none

/-- Opens a table. One that a longer header has implied is moved to the end; any other must be
new. -/
def open? (name : String) (fields : Fields) : Option Fields :=
  match fields.lookup name with
  | none => some (fields ++ [(name, .table .header [])])
  | some (.table .implied inner) =>
    some (fields.filter (fun f => f.1 != name) ++ [(name, .table .header inner)])
  | some _ => none

def openNext? (name : String) (fields : Fields) : Option Fields :=
  match fields.lookup name with
  | none => some (fields ++ [(name, .tables [.table .header []])])
  | some (.tables elements) => some (set name (.tables (elements ++ [.table .header []])) fields)
  | some _ => none

end Fields

/-- Records in TOML data. A list gives the fields in order, and a moment has none of them. -/
def tomlFormat : RecordFormat Tree where
  slots? names v :=
    match v with
    | .table _ fields => Slot.ofFields names fields
    | .list items | .tables items => Slot.ofList false names.length items
    | .moment _ => some (names.map fun _ => .missing)
    | _ => none
  count? limit v :=
    match v with
    | .integer n => if 0 ≤ n ∧ n < limit then some n.toNat else none
    | _ => none
  text? v :=
    match v with
    | .text s => some s
    | _ => none
  bool? v :=
    match v with
    | .bool b => some b
    | _ => none
  choice? v :=
    match v with
    | .text s => some s
    | .table _ [(name, .table _ [])] | .table _ [(name, .list [])] => some name
    | _ => none

end NoiseTimeline.Toml

import NoiseTimeline.Shell.Arithmetic
import NoiseTimeline.Shell.Session

/-!
Conditions that scripts test: of files, texts and numbers. An operator between two operands comes
before one in front of an operand.
-/

namespace NoiseTimeline.Shell

namespace Condition

inductive ConditionFault where
  | illegalNumber (text : List Char)
  | argumentExpected (operator : List Char)
  | unexpectedOperator (text : List Char)
  deriving DecidableEq

def ConditionFault.message : ConditionFault → String
  | .illegalNumber t => s!"Illegal number: {toText t}"
  | .argumentExpected o => s!"{toText o}: argument expected"
  | .unexpectedOperator t => s!"{toText t}: unexpected operator"

def number (s : List Char) : Except ConditionFault Int :=
  let isSpace (c : Char) : Bool := " \t\n\r\x0b\x0c".toList.contains c
  let body := ((s.dropWhile isSpace).reverse.dropWhile isSpace).reverse
  let (negative, digits) := match body with
    | '-' :: r => (true, r)
    | '+' :: r => (false, r)
    | r => (false, r)
  match Arithmetic.valueIn? 10 digits with
  | some n => .ok (if negative then -(n : Int) else n)
  | none => .error (.illegalNumber s)

def textLe (a b : List Char) : Bool := !decide (b.map Char.toNat < a.map Char.toNat)

def binary? (operator : List Char) : Option (List Char → List Char → Except ConditionFault Bool) :=
  let compare (test : Int → Int → Bool) (a b : List Char) : Except ConditionFault Bool :=
    return test (← number a) (← number b)
  match String.ofList operator with
  | "=" | "==" => some fun a b => .ok (a = b)
  | "!=" => some fun a b => .ok (a ≠ b)
  | "<" => some fun a b => .ok (!textLe b a)
  | ">" => some fun a b => .ok (!textLe a b)
  | "-eq" => some (compare fun a b => a = b)
  | "-ne" => some (compare fun a b => a ≠ b)
  | "-lt" => some (compare fun a b => a < b)
  | "-le" => some (compare fun a b => a ≤ b)
  | "-gt" => some (compare fun a b => b < a)
  | "-ge" => some (compare fun a b => b ≤ a)
  | _ => none

def unary? (m : Machine) (operator : List Char) : Option (List Char → Bool) :=
  let node (s : List Char) : Option FileNode := (m.tree.find m.cwd (toText s)).toOption
  match String.ofList operator with
  | "-n" => some fun s => !s.isEmpty
  | "-z" => some List.isEmpty
  | "-e" | "-r" | "-w" => some fun s => (node s).isSome
  | "-d" => some fun s => node s = some .directory
  | "-f" => some fun s => match node s with
    | some (.file _ _) => true
    | _ => false
  | "-s" => some fun s => match node s with
    | some (.file content _) => !content.isEmpty
    | some .directory => true
    | none => false
  | "-x" => some fun s => match node s with
    | some (.file _ executable) => executable
    | some .directory => true
    | none => false
  | "-h" | "-L" | "-p" | "-t" => some fun _ => false
  | _ => none

abbrev Holds := Except ConditionFault (Bool × List (List Char))

mutual

def disjunction (m : Machine) : Nat → List (List Char) → Holds
  | 0, s => .ok (false, s)
  | fuel + 1, s => do
    let (a, rest) ← conjunction m fuel s
    if rest.head? = some "-o".toList then
      let (b, rest) ← disjunction m fuel (rest.drop 1)
      return (a || b, rest)
    else return (a, rest)

def conjunction (m : Machine) : Nat → List (List Char) → Holds
  | 0, s => .ok (false, s)
  | fuel + 1, s => do
    let (a, rest) ← single m fuel s
    if rest.head? = some "-a".toList then
      let (b, rest) ← conjunction m fuel (rest.drop 1)
      return (a && b, rest)
    else return (a, rest)

def single (m : Machine) : Nat → List (List Char) → Holds
  | 0, s => .ok (false, s)
  | fuel + 1, s =>
    match s with
    | [] => .ok (false, [])
    | [a] => .ok (!a.isEmpty, [])
    | a :: o :: rest =>
      match binary? o, rest, unary? m a with
      | some test, b :: rest, _ => return (← test a b, rest)
      | some _, [], none => if a = ['!'] then .ok (false, []) else .error (.argumentExpected o)
      | _, _, unary =>
        if a = ['!'] then do
          let (b, rest) ← single m fuel (o :: rest)
          return (!b, rest)
        else if a = ['('] then do
          let (b, rest) ← disjunction m fuel (o :: rest)
          return (b, rest.drop 1)
        else
          match unary with
          | some test => .ok (test o, rest)
          | none => .ok (!a.isEmpty, o :: rest)

end

/-- Whether the condition holds that the arguments spell; none may be left over. -/
def holds (m : Machine) (arguments : List (List Char)) : Except ConditionFault Bool := do
  let (b, rest) ← disjunction m (4 * arguments.length + 4) arguments
  if rest.isEmpty then return b
  else throw (.unexpectedOperator
    ((arguments.take (arguments.length - rest.length)).getLast?.getD []))

end Condition

end NoiseTimeline.Shell

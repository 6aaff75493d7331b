import NoiseTimeline.Shell.Word

/-!
Arithmetic of a shell: signed words of 64 bits that wrap around. Operators bind as in their table,
from the weakest level to the strongest; a name stands for the number in its variable.
-/

namespace NoiseTimeline.Shell.Arithmetic

inductive Lexeme where
  | number (n : Int)
  | name (n : List Char)
  | sign (s : String)
  deriving DecidableEq

inductive ArithmeticFault where
  | malformed
  | divisionByZero
  | illegalNumber (text : List Char)
  deriving DecidableEq

def signs : List String := [
  "<<=", ">>=", "&&", "||", "==", "!=", "<=", ">=", "<<", ">>", "+=", "-=", "*=", "/=", "%=", "&=",
  "|=", "^=", "=", "<", ">", "+", "-", "*", "/", "%", "&", "|", "^", "!", "~", "?", ":", "(", ")"]

def levels : List (List String) := [
  ["||"], ["&&"], ["|"], ["^"], ["&"], ["==", "!="], ["<", "<=", ">", ">="], ["<<", ">>"],
  ["+", "-"], ["*", "/", "%"]]

def wrap (n : Int) : Int := Int.bmod n 0x10000000000000000

def hexValue? (c : Char) : Option Nat :=
  if c.isDigit then some (c.toNat - '0'.toNat)
  else if 'a' ≤ c ∧ c ≤ 'f' then some (c.toNat - 'a'.toNat + 10)
  else if 'A' ≤ c ∧ c ≤ 'F' then some (c.toNat - 'A'.toNat + 10)
  else none

def valueIn? (base : Nat) (digits : List Char) : Option Nat :=
  if digits.isEmpty then none
  else digits.foldlM (fun n c => (hexValue? c).bind fun d =>
    if d < base then some (base * n + d) else none) 0

/-- A number in base ten, in base eight after a zero, or in base sixteen after `0x`. -/
def number? (s : List Char) : Option Int :=
  let value := match s with
    | '0' :: 'x' :: r => valueIn? 16 r
    | '0' :: 'X' :: r => valueIn? 16 r
    | '0' :: d :: r => valueIn? 8 (d :: r)
    | s => valueIn? 10 s
  value.map Int.ofNat

/-- The number that a variable's text spells, with a sign and blanks around it. -/
def signed? (s : List Char) : Option Int :=
  let isSpace (c : Char) : Bool := " \t\n\r\x0b\x0c".toList.contains c
  match s.dropWhile isSpace with
  | '-' :: r => (number? r).map fun n => -n
  | '+' :: r => number? r
  | r => number? r

def lexemes : Nat → List Char → Except ArithmeticFault (List Lexeme)
  | 0, _ => .error .malformed
  | fuel + 1, s =>
    match s with
    | [] => .ok []
    | c :: r =>
      if c = ' ' ∨ c = '\t' ∨ c = '\n' then lexemes fuel r
      else if c.isDigit then
        match number? (s.takeWhile isNamePart) with
        | none => .error .malformed
        | some n => return .number n :: (← lexemes fuel (s.dropWhile isNamePart))
      else if isNameStart c then
        return .name (s.takeWhile isNamePart) :: (← lexemes fuel (s.dropWhile isNamePart))
      else
        match signs.find? fun o => o.toList.isPrefixOf s with
        | none => .error .malformed
        | some o => return .sign o :: (← lexemes fuel (s.drop o.toList.length))

def ofBool (b : Bool) : Int := if b then 1 else 0

def bits (f : UInt64 → UInt64 → UInt64) (a b : Int) : Int :=
  wrap (f (UInt64.ofNat (a % 0x10000000000000000).toNat)
    (UInt64.ofNat (b % 0x10000000000000000).toNat)).toNat

def apply (operator : String) (a b : Int) : Except ArithmeticFault Int :=
  match operator with
  | "||" => .ok (ofBool (a ≠ 0 ∨ b ≠ 0))
  | "&&" => .ok (ofBool (a ≠ 0 ∧ b ≠ 0))
  | "|" => .ok (bits (· ||| ·) a b)
  | "^" => .ok (bits (· ^^^ ·) a b)
  | "&" => .ok (bits (· &&& ·) a b)
  | "==" => .ok (ofBool (a = b))
  | "!=" => .ok (ofBool (a ≠ b))
  | "<" => .ok (ofBool (a < b))
  | "<=" => .ok (ofBool (a ≤ b))
  | ">" => .ok (ofBool (b < a))
  | ">=" => .ok (ofBool (b ≤ a))
  | "<<" => .ok (wrap (a * Nat.pow 2 (b % 64).toNat))
  | ">>" => .ok (a / Nat.pow 2 (b % 64).toNat)
  | "+" => .ok (wrap (a + b))
  | "-" => .ok (wrap (a - b))
  | "*" => .ok (wrap (a * b))
  | "/" => if b = 0 then .error .divisionByZero else .ok (wrap (Int.tdiv a b))
  | "%" => if b = 0 then .error .divisionByZero else .ok (Int.tmod a b)
  | _ => .error .malformed

structure Context where
  rest : List Lexeme
  bindings : List (List Char × List Char)

abbrev Evaluating := StateT Context (Except ArithmeticFault)

def peek : Evaluating (Option Lexeme) := do return (← get).rest.head?

def skip : Evaluating Unit := modify fun c => { c with rest := c.rest.drop 1 }

def accept (operators : List String) : Evaluating (Option String) := do
  match ← peek with
  | some (.sign o) => if operators.contains o then skip; return some o else return none
  | _ => return none

def expect (sign : String) : Evaluating Unit := do
  if (← accept [sign]).isNone then throw .malformed

def valueOf (n : List Char) : Evaluating Int := do
  match (← get).bindings.lookup n with
  | none | some [] => return 0
  | some t =>
    match signed? t with
    | some v => return wrap v
    | none => throw (.illegalNumber t)

def assign (n : List Char) (v : Int) : Evaluating Unit :=
  modify fun c =>
    { c with bindings := (n, (toString v).toList) :: c.bindings.filter fun e => e.1 ≠ n }

def assignmentOperator? (s : String) : Option (Option String) :=
  if s = "=" then some none
  else if ["+=", "-=", "*=", "/=", "%=", "&=", "|=", "^=", "<<=", ">>="].contains s then
    some (some (String.ofList s.toList.dropLast))
  else none

mutual

def expression : Nat → Evaluating Int
  | 0 => throw .malformed
  | fuel + 1 => do
    match (← get).rest with
    | .name n :: .sign s :: rest =>
      match assignmentOperator? s with
      | some operator =>
        modify fun c => { c with rest }
        let right ← expression fuel
        let v ← match operator with
          | none => pure right
          | some o => apply o (← valueOf n) right
        assign n v
        return v
      | none => choice fuel
    | _ => choice fuel

def choice : Nat → Evaluating Int
  | 0 => throw .malformed
  | fuel + 1 => do
    let test ← level fuel levels
    if (← accept ["?"]).isSome then
      let yes ← expression fuel
      expect ":"
      let no ← expression fuel
      return if test = 0 then no else yes
    else return test

/-- Operators of the first level, between operands of the levels after it. -/
def level : Nat → List (List String) → Evaluating Int
  | 0, _ => throw .malformed
  | fuel + 1, [] => operand fuel
  | fuel + 1, operators :: stronger =>
    do moreOfLevel fuel operators stronger (← level fuel stronger)

def moreOfLevel : Nat → List String → List (List String) → Int → Evaluating Int
  | 0, _, _, acc => return acc
  | fuel + 1, operators, stronger, acc => do
    match ← accept operators with
    | none => return acc
    | some o =>
      let right ← level fuel stronger
      moreOfLevel fuel operators stronger (← apply o acc right)

def operand : Nat → Evaluating Int
  | 0 => throw .malformed
  | fuel + 1 => do
    match ← peek with
    | some (.number n) => skip; return wrap n
    | some (.name n) => skip; valueOf n
    | some (.sign "(") =>
      skip
      let v ← expression fuel
      expect ")"
      return v
    | some (.sign "-") => skip; return wrap (-(← operand fuel))
    | some (.sign "+") => skip; operand fuel
    | some (.sign "!") => skip; return ofBool ((← operand fuel) = 0)
    | some (.sign "~") => skip; return wrap (-(← operand fuel) - 1)
    | _ => throw .malformed

end

def evaluate (bindings : List (List Char × List Char)) (s : List Char) :
    Except ArithmeticFault (Int × List (List Char × List Char)) := do
  let ls ← lexemes (s.length + 1) s
  if ls.isEmpty then return (0, bindings)
  let (v, c) ← (expression (20 * ls.length + 40)).run ⟨ls, bindings⟩
  if c.rest.isEmpty then return (v, c.bindings) else throw .malformed

example : (evaluate [] "1 + 2 * -3 << 1".toList).toOption.map (·.1) = some (-10) := by
  decide +kernel

end NoiseTimeline.Shell.Arithmetic

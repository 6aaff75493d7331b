import NoiseTimeline.Text.Utf8

/-!
Words of a shell script. A word is a list of parts: text as it stands, quoted text, and places where
a value is put. Each character of a script stands for one byte.
-/

namespace NoiseTimeline.Shell

def ofBytes (bytes : ByteArray) : List Char := bytes.toList.map fun b => Char.ofNat b.toNat

def toBytes (s : List Char) : ByteArray := ⟨(s.map fun c => UInt8.ofNat c.toNat).toArray⟩

def ofText (s : String) : List Char := ofBytes s.toUTF8

def toText (s : List Char) : String := Text.decodeLossy (toBytes s)

/-- What is put in the place of a parameter. `colon` treats an empty value like a missing one. -/
inductive Change where
  | value
  | length
  | orElse (colon : Bool) (word : List Char)
  | orAssign (colon : Bool) (word : List Char)
  | orFail (colon : Bool) (word : List Char)
  | instead (colon : Bool) (word : List Char)
  | withoutStart (longest : Bool) (pattern : List Char)
  | withoutEnd (longest : Bool) (pattern : List Char)
  deriving DecidableEq

/-- A part of a word. The values of guarded parts are neither split into fields nor matched with
file names. -/
inductive Part where
  | plain (text : List Char)
  | quoted (text : List Char)
  | parameter (guarded : Bool) (name : List Char) (change : Change)
  | output (guarded : Bool) (script : List Char)
  | arithmetic (expression : List Char)
  deriving DecidableEq

abbrev Word := List Part

def isNameStart (c : Char) : Bool := c.isAlpha || c == '_'

def isNamePart (c : Char) : Bool := c.isAlphanum || c == '_'

def isName (s : List Char) : Bool :=
  match s with
  | [] => false
  | c :: r => isNameStart c && r.all isNamePart

def isSign (c : Char) : Bool := "@*#?-$!".toList.contains c

def endsWord (c : Char) : Bool := " \t\n;&|<>()".toList.contains c

def graveAccent : Char := Char.ofNat 96

inductive Quote where
  | none
  | single
  | double
  deriving DecidableEq

/-- What stands before the sign that closes `depth` open ones, and what follows it. Signs in quotes
do not count. -/
def enclosedFrom (opening closing : Char) (quote : Quote) (depth : Nat) (acc : List Char) :
    List Char → Option (List Char × List Char)
  | [] => none
  | c :: s =>
    match quote with
    | .single =>
      enclosedFrom opening closing (if c = '\'' then .none else .single) depth (c :: acc) s
    | q =>
      if c = '\\' then
        match s with
        | [] => none
        | d :: s => enclosedFrom opening closing q depth (d :: c :: acc) s
      else if c = '"' then
        enclosedFrom opening closing (if q = .double then .none else .double) depth (c :: acc) s
      else if q = .double then enclosedFrom opening closing q depth (c :: acc) s
      else if c = '\'' then enclosedFrom opening closing .single depth (c :: acc) s
      else if c = closing then
        if depth = 0 then some (acc.reverse, s)
        else enclosedFrom opening closing q (depth - 1) (c :: acc) s
      else enclosedFrom opening closing q (if c = opening then depth + 1 else depth) (c :: acc) s

def enclosed (opening closing : Char) (s : List Char) : Option (List Char × List Char) :=
  enclosedFrom opening closing .none 0 [] s

/-- A script between grave accents: a backslash quotes an accent, a dollar sign or itself. -/
def accented (acc : List Char) : List Char → Option (List Char × List Char)
  | [] => none
  | c :: s =>
    if c = graveAccent then some (acc.reverse, s)
    else if c = '\\' then
      match s with
      | [] => none
      | d :: s =>
        if d = graveAccent ∨ d = '\\' ∨ d = '$' then accented (d :: acc) s
        else accented (d :: c :: acc) s
    else accented (c :: acc) s

def Change.read? (s : List Char) : Option Change :=
  match s with
  | [] => some .value
  | ':' :: '-' :: w => some (.orElse true w)
  | '-' :: w => some (.orElse false w)
  | ':' :: '=' :: w => some (.orAssign true w)
  | '=' :: w => some (.orAssign false w)
  | ':' :: '?' :: w => some (.orFail true w)
  | '?' :: w => some (.orFail false w)
  | ':' :: '+' :: w => some (.instead true w)
  | '+' :: w => some (.instead false w)
  | '#' :: '#' :: w => some (.withoutStart true w)
  | '#' :: w => some (.withoutStart false w)
  | '%' :: '%' :: w => some (.withoutEnd true w)
  | '%' :: w => some (.withoutEnd false w)
  | _ => none

/-- The name at the start of a text: letters and digits, digits alone, or one sign. -/
def takeName (s : List Char) : List Char × List Char :=
  match s with
  | [] => ([], [])
  | c :: r =>
    if isNameStart c then (s.takeWhile isNamePart, s.dropWhile isNamePart)
    else if c.isDigit then (s.takeWhile Char.isDigit, s.dropWhile Char.isDigit)
    else if isSign c then ([c], r)
    else ([], s)

def braced? (guarded : Bool) (s : List Char) : Option Part :=
  match s with
  | '#' :: c :: r =>
    match takeName (c :: r) with
    | (name, []) => some (.parameter guarded name .length)
    | _ => (Change.read? (c :: r)).map (.parameter guarded ['#'])
  | _ =>
    match takeName s with
    | ([], _) => none
    | (name, rest) => (Change.read? rest).map (.parameter guarded name)

inductive ReadFault where
  | unterminatedQuote
  | badSubstitution
  | badName
  | unexpected (what : String) (expected : Option String)
  deriving DecidableEq

def ReadFault.message : ReadFault → String
  | .unterminatedQuote => "Syntax error: Unterminated quoted string"
  | .badSubstitution => "Bad substitution"
  | .badName => "Syntax error: Bad for loop variable"
  | .unexpected what none => s!"Syntax error: {what} unexpected"
  | .unexpected what (some e) => s!"Syntax error: {what} unexpected (expecting {e})"

def dollar (guarded : Bool) (s : List Char) : Except ReadFault (Part × List Char) :=
  match s with
  | '(' :: r =>
    match enclosed '(' ')' r with
    | none => .error (.unexpected "end of file" (some "\")\""))
    | some (inner, rest) =>
      match inner, inner.getLast? with
      | '(' :: expression, some ')' => .ok (.arithmetic expression.dropLast, rest)
      | _, _ => .ok (.output guarded inner, rest)
  | '\x7b' :: r =>
    match enclosed '\x7b' '\x7d' r with
    | none => .error (.unexpected "end of file" (some "\"\x7d\""))
    | some (inner, rest) =>
      match braced? guarded inner with
      | some p => .ok (p, rest)
      | none => .error .badSubstitution
  | c :: r =>
    if isNameStart c then .ok
      (.parameter guarded (s.takeWhile isNamePart) .value, s.dropWhile isNamePart)
    else if c.isDigit || isSign c then .ok (.parameter guarded [c] .value, r)
    else .ok (if guarded then .quoted ['$'] else .plain ['$'], s)
  | [] => .ok (if guarded then .quoted ['$'] else .plain ['$'], [])

/-- The parts of a text in double quotes. With `closes` the text must end in a quote, and what
follows is left; without it the text ends where the input does. `fuel` bounds the number of
steps. -/
def readDouble (closes : Bool) : Nat → Word → List Char → Except ReadFault (Word × List Char)
  | 0, _, _ => .error .unterminatedQuote
  | fuel + 1, acc, s =>
    match s with
    | [] => if closes then .error .unterminatedQuote else .ok (acc.reverse, [])
    | c :: r =>
      if c = '"' ∧ closes then .ok (acc.reverse, r)
      else if c = '\\' then
        match r with
        | [] => readDouble closes fuel (.quoted ['\\'] :: acc) []
        | '\n' :: r => readDouble closes fuel acc r
        | d :: r =>
          if d = '$' ∨ d = graveAccent ∨ d = '\\' ∨ (d = '"' ∧ closes) then
            readDouble closes fuel (.quoted [d] :: acc) r
          else readDouble closes fuel (.quoted ['\\', d] :: acc) r
      else if c = '$' then do
        let (p, r) ← dollar true r
        readDouble closes fuel (p :: acc) r
      else if c = graveAccent then
        match accented [] r with
        | none => .error .unterminatedQuote
        | some (script, r) => readDouble closes fuel (.output true script :: acc) r
      else
        let stops (d : Char) : Bool :=
          (d == '"' && closes) || d == '\\' || d == '$' || d == graveAccent
        readDouble closes fuel (.quoted (s.takeWhile fun d => !stops d) :: acc)
          (s.dropWhile fun d => !stops d)

/-- The parts of a word. With `bounded` it ends before a blank or an operator, otherwise at the end
of the text. -/
def readWord (bounded : Bool) : Nat → Word → List Char → Except ReadFault (Word × List Char)
  | 0, _, _ => .error .unterminatedQuote
  | fuel + 1, acc, s =>
    match s with
    | [] => .ok (acc.reverse, [])
    | c :: r =>
      if bounded && endsWord c then .ok (acc.reverse, s)
      else if c = '\'' then
        match r.dropWhile (· != '\'') with
        | [] => .error .unterminatedQuote
        | _ :: after => readWord bounded fuel (.quoted (r.takeWhile (· != '\'')) :: acc) after
      else if c = '"' then do
        let (ps, r) ← readDouble true (r.length + 1) [] r
        let ps := if ps = [.parameter true ['@'] .value] then ps else .quoted [] :: ps
        readWord bounded fuel (ps.reverse ++ acc) r
      else if c = '\\' then
        match r with
        | [] => readWord bounded fuel (.quoted ['\\'] :: acc) []
        | '\n' :: r => readWord bounded fuel acc r
        | d :: r => readWord bounded fuel (.quoted [d] :: acc) r
      else if c = '$' then do
        let (p, r) ← dollar false r
        readWord bounded fuel (p :: acc) r
      else if c = graveAccent then
        match accented [] r with
        | none => .error .unterminatedQuote
        | some (script, r) => readWord bounded fuel (.output false script :: acc) r
      else
        let stops (d : Char) : Bool :=
          (bounded && endsWord d) || "'\"\\$".toList.contains d || d == graveAccent
        readWord bounded fuel (.plain (s.takeWhile fun d => !stops d) :: acc)
          (s.dropWhile fun d => !stops d)

def Word.literal? (w : Word) : Option (List Char) :=
  match w with
  | [.plain t] => some t
  | _ => none

/-- A value as it was written for a script's parts with the whole text in double quotes. -/
def asQuoted (s : List Char) : Except ReadFault Word :=
  (readDouble false (s.length + 1) [] s).map (·.1)

def asWord (s : List Char) : Except ReadFault Word := (readWord false (s.length + 1) [] s).map (·.1)

end NoiseTimeline.Shell

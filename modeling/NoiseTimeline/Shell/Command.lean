import NoiseTimeline.Shell.Word

/-!
Commands of a shell script, as they are run.
-/

namespace NoiseTimeline.Shell

inductive Redirection where
  | input (word : Word)
  | output (word : Word)
  | append (word : Word)
  /-- Leads where another descriptor does; the sign `-` closes it. -/
  | duplicate (word : Word)
  | text (word : Word)

structure Redirect where
  descriptor : Nat
  redirection : Redirection

inductive Command where
  | simple (line : Nat) (assignments : List (List Char × Word)) (words : List Word)
      (redirects : List Redirect)
  | pipeline (negated : Bool) (commands : List Command)
  | both (first second : Command)
  | either (first second : Command)
  | sequence (commands : List Command)
  | subshell (body : Command)
  | group (body : Command)
  | choice (test yes no : Command)
  | loop (stopsOn : Bool) (test body : Command)
  | forEach (name : List Char) (words : Option (List Word)) (body : Command)
  | cases (word : Word) (branches : List (List Word × Command))
  | define (name : List Char) (body : Command)
  | redirected (line : Nat) (body : Command) (redirects : List Redirect)

end NoiseTimeline.Shell

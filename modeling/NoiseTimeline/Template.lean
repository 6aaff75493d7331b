import NoiseTimeline.Config
import NoiseTimeline.SystemError
import NoiseTimeline.Text.Lines
import NoiseTimeline.Text.Search
import NoiseTimeline.Window

/-!
Model templates. The placeholders for the parameters of a window are filled in one after the other;
a template that still has an opening pair of braces afterwards is refused.
-/

namespace NoiseTimeline

structure RenderRequest where
  size : Nat
  property : NoiseProperty
  threshold : Nat
  window : Window
  stride : Nat
  flits : Option String
  deriving DecidableEq

namespace RenderRequest

def ofWindow (c : RunConfig) (w : Window) : RenderRequest :=
  ⟨c.size, c.property, c.threshold, w, c.stride, c.flits⟩

def label (r : RenderRequest) : String :=
  s!"noc_{r.size}x{r.size}_{r.property.token}_{r.window.lower}_{r.window.upper}"

end RenderRequest

inductive RenderError where
  | templateUnreadable (path : String) (cause : IoError)
  | unresolvedPlaceholder (placeholder : String)
  deriving DecidableEq

def RenderError.message : RenderError → String
  | .templateUnreadable path cause => s!"Failed to read model template '{path}': {cause.message}"
  | .unresolvedPlaceholder placeholder =>
    s!"Unresolved placeholder '{placeholder}' in model template"

namespace Template

def opening : List Char := ['{', '{']

def closing : List Char := ['}', '}']

def placeholder (name : String) : List Char := opening ++ name.toList ++ closing

/-- The recognised placeholders with their values, in the order in which they are filled in. -/
def substitutions (r : RenderRequest) : List (List Char × List Char) := [
  (placeholder "SIZE", (toString r.size).toList),
  (placeholder "PROPERTY", r.property.token.toList),
  (placeholder "THRESHOLD", (toString r.threshold).toList),
  (placeholder "CLK_LOW", (toString r.window.lower).toList),
  (placeholder "CLK_HIGH", (toString r.window.upper).toList),
  (placeholder "STRIDE", (toString r.stride).toList),
  (placeholder "FLITS", (r.flits.getD "").toList)]

def fill (r : RenderRequest) (template : List Char) : List Char :=
  (substitutions r).foldl (fun text (name, value) => Text.replaceAll name value text) template

/-- The first placeholder of a text that follows an opening pair of braces: up to the closing pair,
or the rest of the line when there is none. -/
def unresolvedIn (afterOpening : List Char) : List Char :=
  match Text.splitAt? closing afterOpening with
  | some (name, _) => opening ++ name ++ closing
  | none => ((Text.lines (opening ++ afterOpening)).head?).getD (opening ++ afterOpening)

def render (template : String) (r : RenderRequest) : Except RenderError String :=
  let text := fill r template.toList
  match Text.splitAt? opening text with
  | none => .ok (String.ofList text)
  | some (_, rest) => .error (.unresolvedPlaceholder (String.ofList (unresolvedIn rest)))

end Template

end NoiseTimeline

import NoiseTimeline.Settings.File
import NoiseTimeline.Toml.Document

/-!
Settings written in TOML: a table for each section and a line for each setting.
-/

namespace NoiseTimeline

def SettingValue.toToml : SettingValue → String
  | .text s => String.ofList (Toml.quotedText s.toList)
  | .count n => toString n
  | .flag b => if b then "true" else "false"

def Settings.ofToml? (text : String) : Option Settings := do
  let d ← Toml.Document.read? Toml.Document.readRange text
  Settings.read Toml.tomlFormat (.table .header d.fields)

def tomlLanguage : SettingsLanguage Toml.Document where
  document? := Toml.Document.read? Toml.Document.editRange
  keys := Toml.Document.keys
  remove := Toml.Document.remove
  print := Toml.Document.print
  settings? := Settings.ofToml?
  fieldsText fields := String.join (fields.map fun f => s!"{f.1} = {f.2.toToml}\n")
  sectionHeader name := s!"[{name}]"

end NoiseTimeline

import NoiseTimeline.Settings.Basic
import NoiseTimeline.Store.Host
import NoiseTimeline.Text.Lines

/-!
Settings kept in memory and in a file. The file is written beside its place and moved there. Reading
it with the wish to have it in order removes what stands in sections that are none of the settings'.
-/

namespace NoiseTimeline

/-- A language in which settings are written. Its documents can be edited key by key without a
change elsewhere. -/
structure SettingsLanguage (δ : Type) where
  document? : String → Option δ
  /-- The top-level keys of a document, in order. -/
  keys : δ → List String
  remove : String → δ → δ
  print : δ → String
  settings? : String → Option Settings
  /-- The text that sets the given fields, in the section that it stands in. -/
  fieldsText : List (String × SettingValue) → String
  sectionHeader : String → String

inductive SettingsError where
  | notFound (path : String)
  | io (cause : IoError)
  | malformed
  | notEditable
  deriving DecidableEq

/-- The error in words, where they do not depend on what is wrong with a text. -/
def SettingsError.message? : SettingsError → Option String
  | .notFound path => some s!"Config file not found: {path}"
  | .io cause => some s!"Failed to read config file: {cause.message}"
  | .malformed | .notEditable => none

structure SettingsFile where
  path : String
  settings : Settings := {}
  deriving DecidableEq

namespace SettingsFile

variable {σ δ : Type}

def text (language : SettingsLanguage δ) (s : Settings) : String :=
  "# PSN verification driver configuration\n" ++
    "# This file is auto-generated. Comments are kept when unknown sections are removed.\n" ++
    String.join (SettingsSection.all.map fun section_ =>
      s!"\n# {section_.description}\n{language.sectionHeader section_.tableName}\n" ++
        String.join ((Text.linesOf (language.fieldsText (s.ofSection section_))).map (· ++ "\n")))

def onDisk {α : Type} (step : Except IoError α × σ) (f : SettingsFile) :
    Except SettingsError α × SettingsFile × σ :=
  (step.1.mapError .io, f, step.2)

def write (host : Host σ) (f : SettingsFile) (text : String) (s : σ) :
    Except SettingsError Unit × SettingsFile × σ :=
  let replace (s : σ) : Except IoError Unit × σ :=
    host.replaceFile (Path.withExtension f.path "toml.tmp") f.path text s
  onDisk (match Path.parent? f.path with
    | some dir => Disk.andThen (host.makeDirectories dir s) replace
    | none => replace s) f

def save (language : SettingsLanguage δ) (host : Host σ) (f : SettingsFile) (s : σ) :
    Except SettingsError Unit × SettingsFile × σ :=
  f.write host (text language f.settings) s

def load (language : SettingsLanguage δ) (host : Host σ) (f : SettingsFile) (s : σ) :
    Except SettingsError Unit × SettingsFile × σ :=
  if !host.fileExists f.path s then (.error (.notFound f.path), f, s)
  else
    match host.readText f.path s with
    | .error e => (.error (.io e), f, s)
    | .ok text =>
      match language.settings? text with
      | none => (.error .malformed, f, s)
      | some settings => (.ok (), { f with settings }, s)

def isKnown (key : String) : Bool :=
  SettingsSection.all.any fun section_ => section_.tableName == key

def unknownKeys (language : SettingsLanguage δ) (d : δ) : List String :=
  (language.keys d).filter fun key => !isKnown key

def cleaned (language : SettingsLanguage δ) (d : δ) : δ :=
  (unknownKeys language d).foldl (fun d key => language.remove key d) d

/-- Reads the settings from the file and removes from it what is not known; a missing file is
made. -/
def loadOrCreate (language : SettingsLanguage δ) (host : Host σ) (f : SettingsFile) (s : σ) :
    Except SettingsError Unit × SettingsFile × σ :=
  if !host.fileExists f.path s then
    let s := host.event .info s!"Creating default config at {f.path}" s
    save language host { f with settings := {} } s
  else
    match host.readText f.path s with
    | .error e => (.error (.io e), f, s)
    | .ok text =>
      match language.document? text with
      | none => (.error .notEditable, f, s)
      | some d =>
        match language.settings? text with
        | none => (.error .malformed, f, s)
        | some settings =>
          let f := { f with settings }
          let unknown := unknownKeys language d
          if unknown.isEmpty then (.ok (), f, s)
          else
            let s := unknown.foldl
              (fun s key => host.event .warn s!"Ignoring unknown config section '{key}'" s) s
            let s := host.event .info s!"Removed unknown sections from {f.path}" s
            f.write host (language.print (cleaned language d)) s

/-- Makes the directories that the settings name, up to the first that cannot be made. -/
def makeDirectories (host : Host σ) (f : SettingsFile) (s : σ) :
    Except SettingsError Unit × SettingsFile × σ :=
  let paths := f.settings.paths
  onDisk (Disk.andThen (host.makeDirectories paths.results s) fun s =>
    Disk.andThen (host.makeDirectories paths.plots s) fun s => host.makeDirectories paths.work s) f

end SettingsFile

end NoiseTimeline

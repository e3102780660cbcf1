import DayJournal.Settings.Basic
import DayJournal.Settings.Json
import DayJournal.Settings.PathName
import DayJournal.Settings.Toml
import DayJournal.Text.Case

/-!
# Loading settings

Settings come from a file in the directory of the project.  What a file leaves out keeps its usual
value.  The format of a file follows from the ending of its name.
-/

namespace DayJournal.Settings

/-! ## Settings from values -/

/-- What a value holds under a name, if it holds anything there.  Only tables have fields; a list
or a text that holds the name as a member is no table. -/
def field? (name : Text) : Value → Except Fault (Option Value)
  | .table fields => .ok (fields.lookup name)
  | .list items =>
    if items.any fun | .text s => s == name | _ => false then .error .badSetting else .ok none
  | .text s => if Text.includes name s then .error .badSetting else .ok none
  | _ => .error .badSetting

def asText : Value → Except Fault Text
  | .text s => .ok s
  | _ => .error .badSetting

def textFields : Value → Except Fault (List (Text × Text))
  | .table fields => fields.mapM fun (name, v) => do pure (name, ← asText v)
  | _ => .error .badSetting

/-- The settings with what a table says about one thing, if there is such a table. -/
def update (name : Text) (change : Value → Settings → Except Fault Settings) (data : Value)
    (s : Settings) : Except Fault Settings := do
  match ← field? name data with
  | some v => change v s
  | none => pure s

def setJournal : Value → Settings → Except Fault Settings :=
  update "file".toList fun v s => do pure { s with journalFile := ← asText v }

/-- Favourite tags may be written with their `#`. -/
def setFavorites : Value → Settings → Except Fault Settings
  | .table fields, s => do
    let favorites ← textFields ((fields.lookup "favorites".toList).getD (.table []))
    pure { s with
      favorites := favorites.map fun (digit, tag) => (digit, tag.dropWhile (· = '#')) }
  | _, _ => .error .badSetting

def setFilters (v : Value) (s : Settings) : Except Fault Settings := do
  let s ← update "default".toList (fun v s => do pure { s with defaultQuery := ← asText v }) v s
  update "saved".toList (fun v s => do pure { s with saved := ← textFields v }) v s

def setDisplay : Value → Settings → Except Fault Settings :=
  update "hide_completed".toList fun v s => pure { s with hideCompleted := v.isTrue }

/-- The settings that a value holds. -/
def ofValue (data : Value) : Except Fault Settings := do
  let s ← update "journal".toList setJournal data {}
  let s ← update "tags".toList setFavorites data s
  let s ← update "filters".toList setFilters data s
  update "display".toList setDisplay data s

/-! ## Settings from files -/

def fileNames : List Text := [
  "daybook_config.py".toList, "daybook_config.toml".toList, "daybook_config.json".toList,
  ".daybook.toml".toList, ".daybook.json".toList]

/-- The settings file among the files of a project. -/
def find? (files : List (Text × Text)) : Option Text :=
  fileNames.find? fun name => (files.lookup name).isSome

/-- The text of a file, however its path is spelled. -/
def open? (files : List (Text × Text)) (path : PathName) : Except Fault Text :=
  match files.find? fun file => PathName.ofText file.1 == path with
  | some (_, text) => .ok text
  | none => .error .missingSettingsFile

def ofFile (files : List (Text × Text)) (name : Text) : Except Fault Settings := do
  let path := PathName.ofText name
  let suffix := Text.lower path.suffix
  if suffix = ".toml".toList then ofValue (← Toml.read (← open? files path))
  else if suffix = ".json".toList then ofValue (← Json.read (← open? files path))
  else throw (.unknownSettingsFormat suffix)

def load (files : List (Text × Text)) (name : Option Text) : Except Fault Settings :=
  match name.or (find? files) with
  | some name => ofFile files name
  | none => .ok {}

def journalPath (s : Settings) (project home : PathName) : Except Fault PathName :=
  match PathName.expandHome? home (PathName.ofText s.journalFile) with
  | some path => .ok (project.within path)
  | none => .error .unknownHome

end DayJournal.Settings

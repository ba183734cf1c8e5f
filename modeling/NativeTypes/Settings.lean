import NativeTypes.Printer
import NativeTypes.Json.Skip
import NativeTypes.Json.Writer
import NativeTypes.Toml.Document
import NativeTypes.Wire.Read

/-! # Settings of a printer

A printer has one setting: whether it looks for errors of shape first. It is read from a JSON
document (`Printer.decode`) or from the table `printer` of a TOML document (`Printer.ofToml`); a
setting that is missing has its default, and unknown keys are ignored. In place of a table either
document may have a list of the values of the settings. -/

namespace NativeTypes

open Json (Reader Mismatch)

namespace Printer

/-- The key of the setting. -/
def checksShapeKey : String := "validate-before-print"

/-! ### JSON -/

/-- How the fields of the settings are read. -/
def settingsField (b : Option Bool) (key : String) : Except Mismatch (Reader (Option Bool)) :=
  if key = checksShapeKey then
    if b.isSome then .error (.duplicateField checksShapeKey) else .ok (Reader.boolean.map some)
  else .ok (Reader.skip.map fun _ => b)

/-- The printer of an optional setting. -/
def ofSetting (b : Option Bool) : Printer :=
  ⟨b.getD true⟩

/-- Reads the settings of a printer. -/
def reader : Reader Printer :=
  Wire.structReader "struct PrinterConfig" settingsField [fun _ => Reader.boolean.map some] none
    (fun b => .ok (ofSetting b)) (fun b => .ok (ofSetting b))

/-- **The printer of a JSON document.** -/
def decode (text : String) : Except Json.DecodeError Printer :=
  reader.decode text

/-- The JSON value of the settings. -/
def toJson (p : Printer) : Json :=
  .object [(checksShapeKey, .boolean p.checksShape)]

/-! ### TOML -/

/-- Why settings were refused. -/
inductive SettingsError where
  | document (f : Toml.Fault)
  | wrongKind (key : String)
deriving DecidableEq

/-- What is said of refused settings, whatever the reason. -/
def SettingsError.summary : String := "Failed to parse config"

/-- The reason why settings were refused. -/
def SettingsError.message : SettingsError → String
  | document f => f.message
  | wrongKind k => "the value of `" ++ k ++ "` is of the wrong kind"

/-- The setting of an item. -/
def settingOf : Option Toml.Item → Except SettingsError Printer
  | none => .ok {}
  | some (.boolean b) => .ok ⟨b⟩
  | some _ => .error (.wrongKind checksShapeKey)

/-- The key of the table of settings. -/
def tableKey : String := "printer"

/-- The settings of an item: a table, a list of which only the first item counts, or a moment, which
has no settings. -/
def settingsOf : Option Toml.Item → Except SettingsError Printer
  | none => .ok {}
  | some (.table _ es) => settingOf (es.lookup checksShapeKey)
  | some (.array items) => settingOf items.head?
  | some (.moment _) => .ok {}
  | some _ => .error (.wrongKind tableKey)

/-- **The printer of a TOML document.** -/
def ofToml (text : String) : Except SettingsError Printer :=
  match Toml.parse text with
  | .error f => .error (.document f)
  | .ok es => settingsOf (es.lookup tableKey)

end Printer

end NativeTypes

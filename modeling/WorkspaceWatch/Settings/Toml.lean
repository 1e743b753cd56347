import WorkspaceWatch.Settings.Format
import WorkspaceWatch.Toml.Document

/-!
# Settings as TOML

`Settings.ofTomlText` reads settings from a TOML document, where every value must have exactly its
type. `Settings.toTomlText` writes them as one section for each of the two records. TOML integers
end at `2 ^ 63 - 1`, so a longer window cannot be written.
-/

namespace WorkspaceWatch

namespace Toml

/-- What TOML values are taken for. A record may also be written as the array of its fields in
order, and a date or time is a record that gives nothing. -/
def format : Format Toml where
  record? fields
    | .table members => some fun name => members.lookup name
    | .array items => some fun name => (fields.zip items).lookup name
    | .datetime _ => some fun _ => none
    | _ => none
  number?
    | .integer i => if 0 ≤ i then some i.toNat.toUInt64 else none
    | _ => none
  flag?
    | .boolean b => some b
    | _ => none
  texts?
    | .array items => items.mapM fun
      | .text s => some s
      | _ => none
    | _ => none

/-- What is said about a text that is not a document. -/
def Fault.message : Fault → String
  | malformed => "not a TOML document"
  | duplicate key => "duplicate key " ++ key
  | notTable key => key ++ " is not a table"
  | tooDeep => "nested too deeply"

end Toml

namespace Settings

/-- The settings that a TOML document gives. -/
def ofTomlText (text : String) : Except Failure Settings :=
  match Toml.parse text with
  | .error e => .error (.config ("Failed to parse TOML: " ++ e.message))
  | .ok v =>
    match Toml.format.settings? v with
    | none => .error (.config "Failed to parse TOML: a setting has the wrong type")
    | some s => .ok s

/-- A flag as a TOML value. -/
def tomlFlag (b : Bool) : List Char :=
  if b then ['t', 'r', 'u', 'e'] else ['f', 'a', 'l', 's', 'e']

/-- Some texts as a TOML array: if there are several, each on a line of its own. -/
def tomlTexts : List String → List Char
  | [] => ['[', ']']
  | [s] => '[' :: Toml.Quoted.write s.toList ++ [']']
  | ss =>
    '[' :: '\n' ::
      ss.flatMap (fun s => [' ', ' ', ' ', ' '] ++ Toml.Quoted.write s.toList ++ [',', '\n']) ++
      [']']

/-- A line that gives a setting its value. -/
def tomlLine (name : String) (value : List Char) : List Char :=
  name.toList ++ [' ', '=', ' '] ++ value ++ ['\n']

/-- The settings as a TOML document, if their numbers are in range. -/
def tomlText? (s : Settings) : Option String :=
  if s.watcher.debounceMs.toNat < twoTo 63 then
    some (String.ofList
      ("[watcher]\n".toList ++
        tomlLine "debounce_ms" (Nat.toDigits 10 s.watcher.debounceMs.toNat) ++
        tomlLine "ignore_patterns" (tomlTexts s.watcher.ignorePatterns) ++
        tomlLine "follow_symlinks" (tomlFlag s.watcher.followSymlinks) ++
        tomlLine "resync_on_notify_failure" (tomlFlag s.watcher.resyncOnNotifyFailure) ++
        "\n[aggregator]\n".toList ++
        tomlLine "concurrent_acquisition" (tomlFlag s.aggregator.concurrentAcquisition)))
  else none

/-- What is said of a number that is out of range. -/
def outOfRange : String := "out-of-range value for u64 type"

/-- The settings as a TOML document. -/
def toTomlText (s : Settings) : Except Failure String :=
  match s.tomlText? with
  | some text => .ok text
  | none => .error (.config ("Failed to serialize config: " ++ outOfRange))

end Settings

end WorkspaceWatch

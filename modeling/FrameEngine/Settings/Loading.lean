import FrameEngine.Files.Tree
import FrameEngine.Settings.Document
import FrameEngine.Settings.Validation

/-!
# FrameEngine.Settings.Loading

Settings in files, and the journal that settings ask for.
-/

namespace FrameEngine
namespace Settings

def textOf (content : Octets) : Except IoFailure String :=
  match Utf8.string? content with
  | some text => .ok text
  | none => .error ⟨.invalidData, some "stream did not contain valid UTF-8"⟩

def load (files : FileTree) (path : String) : Except EngineError Settings :=
  match files.find path with
  | .error failure => .error (.config ("Failed to open config file: " ++ failure.text))
  | .ok node =>
    match FileTree.contentOf node >>= textOf with
    | .error failure => .error (.config ("Failed to read config file: " ++ failure.text))
    | .ok text => Document.read text

def save (files : FileTree) (path : String) (s : Settings) : Except EngineError FileTree :=
  match Document.write s with
  | .error e => .error e
  | .ok text =>
    match files.write path (Utf8.ofString text) with
    | .ok files => .ok files
    | .error failure => .error (.config ("Failed to write config file: " ++ failure.text))

end Settings

namespace LoggingSettings

/-- Starts the journal that settings ask for, and the files after that. There can be only one:
`started` says that there is one already. -/
def start (files : FileTree) (started : Bool) (s : LoggingSettings) :
    Except EngineError Unit × FileTree :=
  match Settings.refuse (s.problems files) with
  | .error e => (.error e, files)
  | .ok () =>
    match if s.toFile then s.filePath.elim (.ok files) files.openAppend else .ok files with
    | .error failure => (.error (.config ("Failed to open log file: " ++ failure.text)), files)
    | .ok files =>
      (if started then
        .error (.config
          "Failed to install subscriber: a global default trace dispatcher has already been set")
       else .ok (), files)

end LoggingSettings
end FrameEngine

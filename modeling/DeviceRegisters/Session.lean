import DeviceRegisters.Definition.Expansion
import DeviceRegisters.Log

/-!
# DeviceRegisters.Session

Loading descriptions source by source.  A source that fails changes nothing but
the log and, if its outline could be read, the list of warnings.
-/

namespace DeviceRegisters

open Definition (Catalog FlatCatalog)

/-- What has been loaded.  `warnings` holds those of the sources whose outline
could be read, `log` those of all sources. -/
structure Session where
  warn : Bool
  catalog : Catalog
  warnings : List String
  log : List LogLine
  deriving Repr

namespace Session

/-- A session in which nothing was loaded; `warn` says whether dropped
documentation is reported. -/
def start (warn : Bool) : Session := ⟨warn, .empty, [], []⟩

/-- The outline of a source, with the warnings that are reported. -/
def outline (s : Session) (source : String) :
    List String × Except Error (List Outline.Node) :=
  let parsed := Outline.parse source
  let warnings := if s.warn then parsed.warnings.map Outline.Warning.message else []
  (warnings, match parsed.result with
    | .ok nodes => .ok nodes
    | .error (problem, line) => .error (.refused (.outline problem) line))

/-- Loads a source. -/
def load (s : Session) (source : String) : Except Error Unit × Session :=
  let (warnings, outline) := s.outline source
  let s := { s with log := s.log ++ warnings.map (LogLine.mk .warn) }
  match outline with
  | .error e => (.error e, s)
  | .ok nodes =>
    let s := { s with warnings := s.warnings ++ warnings }
    match s.catalog.addSource nodes with
    | .error e => (.error e, s)
    | .ok catalog => (.ok (), { s with catalog })

/-- What is said when there is no file. -/
def absentText : String := "No such file or directory (os error 2)"

/-- What is said when a file's bytes are not UTF-8. -/
def undecodableText : String := "stream did not contain valid UTF-8"

/-- Loads the source that a file holds; without bytes there is no file. -/
def loadFile (s : Session) (bytes : Option ByteArray) : Except Error Unit × Session :=
  match bytes with
  | none => (.error (.io absentText), s)
  | some bytes =>
    match String.fromUTF8? bytes with
    | none => (.error (.io undecodableText), s)
    | some source => s.load source

/-! ## several sources -/

/-- A description as text, or as the bytes of a file, if there is one. -/
inductive Source where
  | text (source : String)
  | file (bytes : Option ByteArray)

/-- Loads a source, text or file. -/
def loadSource (s : Session) : Source → Except Error Unit × Session
  | .text source => s.load source
  | .file bytes => s.loadFile bytes

/-- Loads sources in order, going on after failures. -/
def loadEach (s : Session) : List Source → List (Except Error Unit) × Session
  | [] => ([], s)
  | source :: sources =>
    let (answer, s) := s.loadSource source
    let (answers, s) := loadEach s sources
    (answer :: answers, s)

/-- The first failure among answers, if there is one. -/
def firstFailure : List (Except Error Unit) → Except Error Unit
  | [] => .ok ()
  | .error e :: _ => .error e
  | .ok () :: answers => firstFailure answers

/-- Loads all sources in order, going on after failures, and answers with the
first failure. -/
def loadAll (s : Session) (sources : List Source) : Except Error Unit × Session :=
  let (answers, s) := s.loadEach sources
  (firstFailure answers, s)

/-- What has been loaded, expanded. -/
def flatten (s : Session) : Except Error FlatCatalog := s.catalog.flatten

end Session
end DeviceRegisters

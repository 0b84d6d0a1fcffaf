import Backtest.Json.Reader
import Backtest.Report.Table

/-!
# Artifacts

A result as the files of a directory, and a result read back from its text. The directory is named
for the symbol, with every character that is no letter, digit, dash or underscore replaced, and the
front of the fingerprint.
-/
namespace Backtest.Report

/-- The text of a result. -/
def jsonText (r : RunResult) : String := Json.pretty r.toDocument

/-- Why files or a text are no result. -/
inductive ImportError where
  | missing (path : String)
  | malformed
  | unsupportedVersion (version : Nat)
deriving Repr, DecidableEq

/-- The wording of a failure. -/
def ImportError.message : ImportError → String
  | missing path => "failed to read " ++ path
  | malformed => "failed to deserialize WalkForwardResult from JSON"
  | unsupportedVersion version =>
    s!"unsupported schema version {version} (max supported: {schemaVersion})"

/-- The result that a text holds. Texts of later versions are refused. -/
def ofJsonText (text : String) (numbers : Json.NumberReader := .scaling) :
    Except ImportError RunResult :=
  match (Json.read? text numbers).bind RunResult.ofDocument? with
  | none => .error .malformed
  | some r =>
    if schemaVersion < r.schemaVersion then .error (.unsupportedVersion r.schemaVersion) else .ok r

/-- A character that may stand in the name of a directory. -/
def safeChar (c : Char) : Char := if c.isAlphanum || c == '-' || c == '_' then c else '_'

/-- The name of the directory of a result. -/
def directoryName (r : RunResult) : String :=
  String.ofList (r.symbol.toList.map safeChar) ++ "_" ++
    String.ofList (r.configFingerprint.toList.take 12)

/-- A path below a directory. -/
def below (directory name : String) : String :=
  match directory.toList.getLast? with
  | none => name
  | some '/' => directory ++ name
  | some _ => directory ++ "/" ++ name

/-- The names on a path. -/
def pathNames (path : String) : List (List Char) :=
  path.toList.splitBy fun a b => a != '/' && b != '/'

/-- Whether a file system takes a path: no name is longer than 255 bytes or holds a zero. -/
def isPath (path : String) : Bool :=
  (pathNames path).all fun name => (String.ofList name).utf8ByteSize ≤ 255 && !name.contains '\x00'

/-- Files below a directory. -/
structure Artifacts where
  directory : String
  files : List (String × String)

/-- Why files cannot be written. -/
inductive SaveError where
  | directory (path : String)
deriving Repr, DecidableEq

/-- The wording of a failure. -/
def SaveError.message : SaveError → String
  | directory path => "failed to create artifact dir: " ++ path

namespace Artifacts

/-- The name of the file with the text of a result. -/
def resultFile : String := "result.json"

/-- The files of a result, in a directory of its own below `root`. -/
def ofResult (root : String) (r : RunResult) : Except SaveError Artifacts :=
  let directory := below root (directoryName r)
  if isPath directory then
    .ok ⟨directory, [(resultFile, jsonText r), ("windows.csv", windowsTable r),
      ("trades.csv", tradesTable r), ("equity.csv", equityTable r.summary.equity)]⟩
  else .error (.directory directory)

/-- The result that files hold. -/
def toResult (a : Artifacts) : Except ImportError RunResult :=
  match a.files.find? (·.1 == resultFile) with
  | some (_, text) => ofJsonText text
  | none => .error (.missing (below a.directory resultFile))

end Artifacts
end Backtest.Report

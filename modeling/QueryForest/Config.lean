import QueryForest.Error
import QueryForest.Json.Document
import QueryForest.Json.Printer
import QueryForest.Sql.Dialect
import QueryForest.Sql.Words
import QueryForest.Text.Blank

set_option autoImplicit false

/-!
# Configuration

Which dialect statements are written in, how the plain dialect marks its parameters, and whether
new queries name their results by properties. A configuration is read from JSON text or from the
settings of an environment. What is not said keeps its default.
-/

namespace QueryForest

namespace Sql

namespace PlaceholderStyle

def all : List PlaceholderStyle := [positional, named]

def word : PlaceholderStyle → String
  | positional => "positional"
  | named => "named"

def ofWord? (word : String) : Option PlaceholderStyle := all.find? (·.word == word)

end PlaceholderStyle

/-- The name of a dialect in a configuration. -/
inductive DialectKind where
  | ansi
  | postgres
  | mysql
  deriving DecidableEq

namespace DialectKind

def all : List DialectKind := [ansi, postgres, mysql]

def word : DialectKind → String
  | ansi => "ansi"
  | postgres => "postgres"
  | mysql => "mysql"

def ofWord? (word : String) : Option DialectKind := all.find? (·.word == word)

end DialectKind

end Sql

/-- A configuration. -/
structure Config where
  dialectKind : Sql.DialectKind := .ansi
  /-- How the plain dialect marks parameters. The other dialects have one way each. -/
  placeholders : Sql.PlaceholderStyle := .positional
  /-- Whether new queries name their results by properties. -/
  propertyAsAlias : Bool := false
  deriving DecidableEq

namespace Config

/-- The dialect that statements are written in. -/
def dialect (c : Config) : Sql.Dialect :=
  match c.dialectKind with
  | .ansi => .ansi c.placeholders
  | .postgres => .postgres
  | .mysql => .mysql

/-! ## JSON -/

/-- The JSON text of a configuration. -/
def jsonText (c : Config) : String :=
  Json.objectText [("dialect", Json.quote c.dialectKind.word),
    ("placeholder", Json.quote c.placeholders.word),
    ("property_as_alias", toString c.propertyAsAlias)]

/-- The configuration of its three settings, each of which may be missing. -/
def ofSettings? (dialect placeholders propertyAsAlias : Option Document) : Option Config := do
  let dialectKind ← match dialect with
    | some d => d.keyword?.bind Sql.DialectKind.ofWord?
    | none => some .ansi
  let placeholders ← match placeholders with
    | some d => d.keyword?.bind Sql.PlaceholderStyle.ofWord?
    | none => some .positional
  let propertyAsAlias ← match propertyAsAlias with
    | some d => d.bool?
    | none => some false
  return { dialectKind, placeholders, propertyAsAlias }

/-- The value of a member that may be missing but does not come twice. -/
def member? (members : List (Option String × Document)) (key : String) : Option (Option Document) :=
  match members.filter (·.1 = some key) with
  | [] => some none
  | [(_, d)] => some (some d)
  | _ => none

/-- The configuration of a document: an object, whose other members mean nothing, or an array of
the settings in their order. -/
def ofDocument? : Document → Option Config
  | .object members => do
    guard (members.all (·.1.isSome))
    ofSettings? (← member? members "dialect") (← member? members "placeholder")
      (← member? members "property_as_alias")
  | .array items => do
    guard (items.length ≤ 3)
    ofSettings? items[0]? items[1]? items[2]?
  | _ => none

/-- The configuration that a JSON text writes. -/
def ofText (s : String) : Except QueryError Config :=
  match (Document.ofText? s).bind ofDocument? with
  | some c => .ok c
  | none => .error (.config .malformed)

/-! ## Environment -/

/-- The settings of an environment. -/
inductive Setting where
  | dialect
  | placeholder
  | propertyAsAlias
  deriving DecidableEq

/-- The variable that holds a setting. -/
def Setting.variable : Setting → String
  | dialect => "CRITERIA_DIALECT"
  | placeholder => "CRITERIA_PLACEHOLDER"
  | propertyAsAlias => "CRITERIA_PROPERTY_AS_ALIAS"

/-- Reads a value that is one of some keywords, in letters of either case and between blanks. The
keywords are words of ASCII letters, so no other letters need to be folded. -/
def readKeyword {α : Type} (ofWord? : String → Option α) (setting : Setting) (value : String) :
    Except QueryError α :=
  match ofWord? (Text.trim value).toLower with
  | some a => .ok a
  | none => .error (.config (.unsupported value setting.variable))

/-- Reads a value that is `true` or `false`, between blanks. -/
def readFlag (setting : Setting) (value : String) : Except QueryError Bool :=
  match Text.trim value with
  | "true" => .ok true
  | "false" => .ok false
  | _ => .error (.config (.notAFlag value setting.variable))

/-- Reads a setting if the environment has a value for it. -/
def readSetting {α : Type} (value? : Option String) (default : α)
    (read : String → Except QueryError α) : Except QueryError α :=
  match value? with
  | some value => read value
  | none => .ok default

/-- The configuration of an environment that gives some of the settings a value. -/
def ofEnvironment (value? : Setting → Option String) : Except QueryError Config := do
  let dialectKind ← readSetting (value? .dialect) .ansi
    (readKeyword Sql.DialectKind.ofWord? .dialect)
  let placeholders ← readSetting (value? .placeholder) .positional
    (readKeyword Sql.PlaceholderStyle.ofWord? .placeholder)
  let propertyAsAlias ← readSetting (value? .propertyAsAlias) false (readFlag .propertyAsAlias)
  return { dialectKind, placeholders, propertyAsAlias }

end Config

end QueryForest

import QueryForest.Json.Document

set_option autoImplicit false

/-!
# The choices inside a query

Kinds of joins, comparisons, aggregate functions and sort directions: what they are called in JSON
and what they are written as in SQL.
-/

namespace QueryForest

/-- The choice that a JSON text makes by a keyword. -/
def Document.keywordOfText? (s : String) : Option String := (Document.ofText? s).bind keyword?

namespace Sql

/-! ## Joins -/

inductive JoinKind where
  | inner
  | left
  | right
  | full
  deriving DecidableEq

namespace JoinKind

def all : List JoinKind := [inner, left, right, full]

def word : JoinKind → String
  | inner => "Inner"
  | left => "Left"
  | right => "Right"
  | full => "Full"

def ofWord? (word : String) : Option JoinKind := all.find? (·.word == word)

def sql : JoinKind → String
  | inner => "INNER JOIN"
  | left => "LEFT JOIN"
  | right => "RIGHT JOIN"
  | full => "FULL OUTER JOIN"

end JoinKind

/-! ## Operators -/

/-- The operators between two expressions. -/
inductive Operator where
  | eq
  | notEq
  | lt
  | ltEq
  | gt
  | gtEq
  | like
  | and
  | or
  deriving DecidableEq

namespace Operator

def all : List Operator := [eq, notEq, lt, ltEq, gt, gtEq, like, and, or]

def word : Operator → String
  | eq => "Eq"
  | notEq => "NotEq"
  | lt => "Lt"
  | ltEq => "LtEq"
  | gt => "Gt"
  | gtEq => "GtEq"
  | like => "Like"
  | and => "And"
  | or => "Or"

def ofWord? (word : String) : Option Operator := all.find? (·.word == word)

def sql : Operator → String
  | eq => "="
  | notEq => "<>"
  | lt => "<"
  | ltEq => "<="
  | gt => ">"
  | gtEq => ">="
  | like => "LIKE"
  | and => "AND"
  | or => "OR"

end Operator

/-- The operators that compare, which are the ones a filter can have. -/
inductive Comparison where
  | eq
  | notEq
  | lt
  | ltEq
  | gt
  | gtEq
  | like
  deriving DecidableEq

namespace Comparison

def all : List Comparison := [eq, notEq, lt, ltEq, gt, gtEq, like]

def operator : Comparison → Operator
  | eq => .eq
  | notEq => .notEq
  | lt => .lt
  | ltEq => .ltEq
  | gt => .gt
  | gtEq => .gtEq
  | like => .like

def word (c : Comparison) : String := c.operator.word

def ofWord? (word : String) : Option Comparison := all.find? (·.word == word)

end Comparison

/-! ## Aggregates -/

inductive AggregateFunction where
  | count
  | sum
  | avg
  | min
  | max
  deriving DecidableEq

namespace AggregateFunction

def all : List AggregateFunction := [count, sum, avg, min, max]

def word : AggregateFunction → String
  | count => "Count"
  | sum => "Sum"
  | avg => "Avg"
  | min => "Min"
  | max => "Max"

def ofWord? (word : String) : Option AggregateFunction := all.find? (·.word == word)

def sql : AggregateFunction → String
  | count => "COUNT"
  | sum => "SUM"
  | avg => "AVG"
  | min => "MIN"
  | max => "MAX"

/-- Whether it matters that the function sees each value once. The least and the greatest of some
values are those of the distinct ones. -/
def takesDistinct : AggregateFunction → Bool
  | count | sum | avg => true
  | min | max => false

/-- Whether the result can be rounded to a number of places. -/
def takesScale : AggregateFunction → Bool
  | sum | avg => true
  | count | min | max => false

end AggregateFunction

/-! ## Sorting -/

inductive Direction where
  | asc
  | desc
  deriving DecidableEq

namespace Direction

def all : List Direction := [asc, desc]

def word : Direction → String
  | asc => "Asc"
  | desc => "Desc"

def ofWord? (word : String) : Option Direction := all.find? (·.word == word)

def sql : Direction → String
  | asc => "ASC"
  | desc => "DESC"

end Direction

/-- Where the rows without a value go. -/
inductive NullsPlace where
  /-- Where the database puts them. -/
  | unspecified
  | first
  | last
  deriving DecidableEq

namespace NullsPlace

instance : Inhabited NullsPlace := ⟨unspecified⟩

def all : List NullsPlace := [unspecified, first, last]

def word : NullsPlace → String
  | unspecified => "None"
  | first => "First"
  | last => "Last"

def ofWord? (word : String) : Option NullsPlace := all.find? (·.word == word)

end NullsPlace

end Sql

end QueryForest

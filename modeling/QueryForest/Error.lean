set_option autoImplicit false

/-!
# Errors

What can be wrong with the way a query is put together, and the message of each cause.
-/

namespace QueryForest

/-- What a node would have to refer to and does not. -/
inductive MissingReference where
  /-- Only a join can be attached. -/
  | notAJoin
  /-- Correlation needs a query around the one at hand. -/
  | noEnclosingQuery
  /-- A join in a statement hangs under a parent. -/
  | noParent
  deriving DecidableEq

def MissingReference.context : MissingReference → String
  | notAJoin => "only join criteria can be attached"
  | noEnclosingQuery => "correlated filter needs an enclosing query"
  | noParent => "join has no parent"

/-- What a join still lacks when it is written. -/
inductive JoinGap where
  | neverAttached
  | noCondition
  | notAJoin
  deriving DecidableEq

def JoinGap.reason : JoinGap → String
  | neverAttached => "never attached"
  | noCondition => "no on-condition"
  | notAJoin => "not a join"

/-- What is wrong with a configuration. -/
inductive ConfigFault where
  /-- The text is not a configuration. -/
  | malformed
  /-- A setting has a value that is none of its keywords. -/
  | unsupported (value setting : String)
  /-- A setting that is a flag has some other value. -/
  | notAFlag (value setting : String)
  /-- A fault found by whoever supplies the columns of a cache. -/
  | reported (text : String)
  deriving DecidableEq

def ConfigFault.text : ConfigFault → String
  | malformed => "invalid criteria config"
  | unsupported value setting => "unsupported value `" ++ value ++ "` for " ++ setting
  | notAFlag value setting => setting ++ " must be `true` or `false`, got `" ++ value ++ "`"
  | reported text => text

/-- Why a call on a query fails. Nodes are named by their aliases. -/
inductive QueryError where
  | missingReference (aliasName : String) (missing : MissingReference)
  | unresolvedProperty (entity property : String)
  | duplicateAlias (aliasName : String)
  | incompleteJoin (aliasName : String) (gap : JoinGap)
  | joinAlreadyAttached (aliasName parent : String)
  /-- A node of another tree stands where one of this tree is needed. -/
  | foreignNode (aliasName : String)
  /-- A node or a query would contain itself. -/
  | cycle (aliasName : String)
  | emptyProjection (aliasName : String)
  | config (fault : ConfigFault)
  deriving DecidableEq

def QueryError.message : QueryError → String
  | missingReference aliasName missing =>
    "criteria `" ++ aliasName ++ "` has no reference query: " ++ missing.context
  | unresolvedProperty entity property =>
    "no column mapping for property `" ++ property ++ "` of entity `" ++ entity ++ "`"
  | duplicateAlias aliasName => "alias `" ++ aliasName ++ "` is already in use in this query"
  | incompleteJoin aliasName gap => "join `" ++ aliasName ++ "` is incomplete: " ++ gap.reason
  | joinAlreadyAttached aliasName parent =>
    "join `" ++ aliasName ++ "` is already attached to `" ++ parent ++ "`"
  | foreignNode aliasName => "criteria `" ++ aliasName ++ "` belongs to a different query tree"
  | cycle aliasName => "criteria `" ++ aliasName ++ "` would contain itself"
  | emptyProjection aliasName => "criteria `" ++ aliasName ++ "` has no columns left to select"
  | config fault => "configuration error: " ++ fault.text

end QueryForest

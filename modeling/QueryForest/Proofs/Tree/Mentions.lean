import QueryForest.Proofs.Sql.References
import QueryForest.Proofs.Tree.Clauses
import QueryForest.Proofs.Tree.Columns

set_option autoImplicit false

/-!
# Columns by the calls that name them

A call names columns by targets, each of which is meant for an entity: for that of its own node, for that
of the node from which a join was created, or for any entity around a query. Which column it is is told by
the mapping of this entity. The table before the column is another matter (`Stands`): an own column stands
behind the alias of its node, the left side of a condition behind that of the parent that the join was
attached to, and a column of the query around behind that of the node from which the query was begun.
-/

namespace QueryForest

open Sql (Expr Select Reference)

/-! ## What calls mention -/

/-- What a column is for the node whose call names it. -/
inductive Role where
  | own
  /-- A column of the node that the join was created from, on the left of its condition. -/
  | left
  /-- The column of the parent that has the name of an own column. -/
  | shared
  /-- A column of an entity in the query around. -/
  | outer (entity : Entity)
  deriving DecidableEq

/-- A column that a call on a node names. -/
structure Mention where
  node : NodeId
  role : Role
  target : Target
  deriving DecidableEq

/-- The columns that a change names and its clause is written with, from left to right. A comparison with
no values at all is written without its column. -/
def Change.mentions (v : NodeId) : Change → List Mention
  | group target | sort target _ | compare target _ _ | isNull target _ | inQuery target _ _ =>
    [⟨v, .own, target⟩]
  | inList target values _ => if values.isEmpty then [] else [⟨v, .own, target⟩]
  | having _ target _ _ => target.toList.map (⟨v, .own, ·⟩)
  | correlate target _ outerEntity outerTarget => [⟨v, .own, target⟩, ⟨v, .outer outerEntity, outerTarget⟩]
  | on property => [⟨v, .shared, .property property⟩, ⟨v, .own, .property property⟩]
  | onWith left right => [⟨v, .left, left⟩, ⟨v, .own, right⟩]
  | _ => []

/-- The columns that a call for a result names. -/
def Asked.mentions (v : NodeId) : Asked → List Mention
  | column target _ => [⟨v, .own, target⟩]
  | aggregate _ target _ => target.toList.map (⟨v, .own, ·⟩)

theorem Change.node_of_mem_mentions {c : Change} {v : NodeId} {m : Mention} (h : m ∈ c.mentions v) :
    m.node = v := by
  cases c with
  | inList target values negated =>
      obtain ⟨-, mem⟩ := List.mem_ite_nil_left.mp h
      exact congrArg Mention.node (List.mem_singleton.mp mem)
  | having function target comparison value =>
      obtain ⟨target, -, rfl⟩ := List.mem_map.mp h
      rfl
  | correlate | on | onWith =>
      rcases List.mem_pair.mp h with rfl | rfl <;> rfl
  | group | sort | compare | isNull | inQuery => exact congrArg Mention.node (List.mem_singleton.mp h)
  | _ => exact absurd h List.not_mem_nil

theorem Asked.node_of_mem_mentions {a : Asked} {v : NodeId} {m : Mention} (h : m ∈ a.mentions v) :
    m.node = v := by
  cases a with
  | column target aliasName => exact congrArg Mention.node (List.mem_singleton.mp h)
  | aggregate function target options =>
      obtain ⟨target, -, rfl⟩ := List.mem_map.mp h
      rfl

theorem Node.references_columnExprs (n : Node) (columns : List Column) :
    (n.columnExprs columns).flatMap Expr.references
      = (columns.filter fun c => !(c.name ∈ n.excluded)).map fun c => (some n.aliasName, c.name) := by
  rw [columnExprs, List.flatMap_map, List.map_eq_flatMap]
  simp only [Sql.references_underAlias]
  rfl

namespace Tree

/-- Which column is written for a mention, and behind which alias. -/
inductive Stands (f : Forest) (t : Tree) : Mention → Reference → Prop
  /-- An own column is one of the entity of the node, behind the alias of the node. -/
  | own {v : NodeId} {target : Target} {c : ColumnRef}
      (found : t.resolve (t.node v).entity target = .ok c) :
      Stands f t ⟨v, .own, target⟩ (some (t.aliasOf v), c.column)
  /-- The left side of a condition is a column of the entity of the node that the join was created from,
  behind the alias of the parent of the join. -/
  | left {v parent : NodeId} {edge : JoinEdge} {target : Target} {c : ColumnRef}
      (join : (t.node v).join = some edge) (attached : edge.parent = some parent)
      (found : t.resolve (t.node edge.reference).entity target = .ok c) :
      Stands f t ⟨v, .left, target⟩ (some (t.aliasOf parent), c.column)
  | shared {v parent : NodeId} {target : Target} {c : ColumnRef}
      (attached : t.parent? v = some parent) (found : t.resolve (t.node v).entity target = .ok c) :
      Stands f t ⟨v, .shared, target⟩ (some (t.aliasOf parent), c.column)
  /-- A column of the query around is one of any entity, behind the alias of the node from which the query
  was begun. -/
  | outer {v : NodeId} {o : NodeRef} {entity : Entity} {target : Target} {c : ColumnRef}
      (around : (t.node v).outer = some o) (found : t.resolve entity target = .ok c) :
      Stands f t ⟨v, .outer entity, target⟩ (some (f.node o).aliasName, c.column)

variable {f : Forest} {t : Tree} {v root : NodeId} {changes : NodeId → List Change}

/-! ## Calls for clauses -/

theorem stands_own {target : Target} {c : ColumnRef}
    (found : ((t.surroundings f v).column target).toOption = some c) :
    t.Stands f ⟨v, .own, target⟩ (some (t.aliasOf v), c.column) :=
  .own (Outcome.toOption_eq_some.mp found)

/-- An aggregate has the column that its call names, if the call names one. -/
theorem stands_aggregate {target : Option Target} {c : Option ColumnRef}
    (found : lookOption (t.column v) target = .ok c) (a : Aggregate) (same : a.column = c) :
    List.Forall₂ (t.Stands f) (target.toList.map (⟨v, .own, ·⟩))
      ((t.node v).aggregateExpr a).references := by
  have columns : ((t.node v).aggregateExpr a).references
      = a.column.toList.map fun c => (some (t.aliasOf v), c.column) := by
    unfold Node.aggregateExpr
    cases a.column <;> cases a.scale <;> rfl
  rw [columns, same]
  cases target with
  | none =>
      obtain rfl := Except.ok.inj found
      exact .nil
  | some target =>
      cases look : t.column v target with
      | error e =>
          rw [lookOption, look] at found
          exact absurd found nofun
      | ok col =>
          rw [lookOption, look] at found
          obtain rfl := Except.ok.inj found
          exact .cons (.own look) .nil

/-- The predicate of a call has the columns that the call names. -/
theorem stands_predicate {c : Change} (isFor : c.clause? = some .filter) {e : Expr}
    (written : (c.added? (t.surroundings f v)).bind ((t.node v).predicate? f.select) = some e) :
    List.Forall₂ (t.Stands f) (c.mentions v) e.references := by
  obtain ⟨entry, added, written⟩ := Option.bind_eq_some_iff.mp written
  cases c with
  | compare target comparison value =>
      obtain ⟨col, found, rfl⟩ := Option.map_eq_some_iff.mp added
      obtain rfl := Option.some.inj written
      exact .cons (stands_own found) .nil
  | inList target values negated =>
      obtain ⟨col, found, rfl⟩ := Option.map_eq_some_iff.mp added
      cases values with
      | nil =>
          obtain rfl := Option.some.inj written
          exact .nil
      | cons value values =>
          obtain rfl := Option.some.inj written
          rw [Expr.references, Sql.references_values]
          exact .cons (stands_own found) .nil
  | isNull target negated =>
      obtain ⟨col, found, rfl⟩ := Option.map_eq_some_iff.mp added
      obtain rfl := Option.some.inj written
      exact .cons (stands_own found) .nil
  | inQuery target query negated =>
      obtain ⟨col, found, rfl⟩ := Option.map_eq_some_iff.mp added
      obtain ⟨s, -, made⟩ := Outcome.bind_ok (Outcome.toOption_eq_some.mp written)
      obtain rfl := Except.ok.inj made
      exact .cons (stands_own found) .nil
  | existsQuery query negated =>
      obtain rfl := Option.some.inj added
      obtain ⟨s, -, made⟩ := Outcome.bind_ok (Outcome.toOption_eq_some.mp written)
      obtain rfl := Except.ok.inj made
      exact .nil
  | correlate target comparison outerEntity outerTarget =>
      obtain ⟨col, found, added⟩ := Option.bind_eq_some_iff.mp added
      obtain ⟨outerAlias, outer, added⟩ := Option.bind_eq_some_iff.mp added
      obtain ⟨outerColumn, foundOuter, added⟩ := Option.bind_eq_some_iff.mp added
      obtain rfl := Option.some.inj added
      obtain rfl := Option.some.inj written
      obtain ⟨o, around, rfl⟩ := Option.map_eq_some_iff.mp outer
      exact .cons (stands_own found) (.cons (.outer around (Outcome.toOption_eq_some.mp foundOuter)) .nil)
  | _ => cases isFor

/-- The equation of a call has the columns that the call names. -/
theorem stands_equation {parent : NodeId} (attached : t.parent? v = some parent) {c : Change}
    (isFor : c.clause? = some .on) {e : Expr}
    (written : (c.added? (t.surroundings f v)).bind ((t.node v).equation? (t.aliasOf parent)) = some e) :
    List.Forall₂ (t.Stands f) (c.mentions v) e.references := by
  obtain ⟨entry, added, written⟩ := Option.bind_eq_some_iff.mp written
  obtain ⟨edge, hedge, hparent⟩ := Option.bind_eq_some_iff.mp attached
  cases c with
  | on property =>
      obtain ⟨col, found, rfl⟩ := Option.map_eq_some_iff.mp added
      obtain rfl := Option.some.inj written
      have found := Outcome.toOption_eq_some.mp found
      exact .cons (.shared attached found) (.cons (.own found) .nil)
  | onWith left right =>
      obtain ⟨a, foundLeft, added⟩ := Option.bind_eq_some_iff.mp added
      obtain ⟨b, foundRight, added⟩ := Option.bind_eq_some_iff.mp added
      obtain rfl := Option.some.inj added
      obtain rfl := Option.some.inj written
      have created : (t.surroundings f v).left = t.column edge.reference := by
        rw [surroundings, hedge]
        rfl
      rw [created] at foundLeft
      exact .cons (.left hedge hparent (Outcome.toOption_eq_some.mp foundLeft))
        (.cons (stands_own foundRight) .nil)
  | _ => cases isFor

theorem stands_group {c : Change} (isFor : c.clause? = some .group) {e : Expr}
    (written : (c.added? (t.surroundings f v)).bind (t.node v).groupExpr? = some e) :
    List.Forall₂ (t.Stands f) (c.mentions v) e.references := by
  obtain ⟨entry, added, written⟩ := Option.bind_eq_some_iff.mp written
  cases c with
  | group target =>
      obtain ⟨col, found, rfl⟩ := Option.map_eq_some_iff.mp added
      obtain rfl := Option.some.inj written
      exact .cons (stands_own found) .nil
  | groupAll => cases added
  | _ => cases isFor

theorem stands_having {c : Change} (isFor : c.clause? = some .having) {e : Expr}
    (written : (c.added? (t.surroundings f v)).bind (t.node v).havingExpr? = some e) :
    List.Forall₂ (t.Stands f) (c.mentions v) e.references := by
  obtain ⟨entry, added, written⟩ := Option.bind_eq_some_iff.mp written
  cases c with
  | having function target comparison value =>
      obtain ⟨col, found, rfl⟩ := Option.map_eq_some_iff.mp added
      obtain rfl := Option.some.inj written
      rw [Expr.references, Expr.references, List.append_nil]
      exact stands_aggregate (Outcome.toOption_eq_some.mp found) _ rfl
  | _ => cases isFor

theorem stands_order {c : Change} (isFor : c.clause? = some .order) {item : Sql.OrderItem}
    (written : (c.added? (t.surroundings f v)).bind (t.node v).orderItem? = some item) :
    List.Forall₂ (t.Stands f) (c.mentions v) item.expr.references := by
  obtain ⟨entry, added, written⟩ := Option.bind_eq_some_iff.mp written
  cases c with
  | sort target options =>
      obtain ⟨col, found, rfl⟩ := Option.map_eq_some_iff.mp added
      obtain rfl := Option.some.inj written
      exact .cons (stands_own found) .nil
  | sortAll => cases added
  | _ => cases isFor

/-- What the calls for a clause on a node name. -/
def callMentions (clause : Clause) (v : NodeId) (changes : List Change) : List Mention :=
  (callsFor clause changes).flatMap (·.mentions v)

/-- The columns of a clause are those that its calls name, when this is so for each call. -/
theorem stands_clause {α : Type} {nodes : List NodeId} {clause : Clause}
    {write : NodeId → Entry → Option α} {items : List α} {columns : α → List Reference}
    (whole : items.map some = nodes.flatMap fun v => t.contributions f v clause (write v) (changes v))
    (each : ∀ v ∈ nodes, ∀ c : Change, c.clause? = some clause → ∀ item,
      (c.added? (t.surroundings f v)).bind (write v) = some item →
        List.Forall₂ (t.Stands f) (c.mentions v) (columns item)) :
    List.Forall₂ (t.Stands f) (nodes.flatMap fun v => callMentions clause v (changes v))
      (items.flatMap columns) := by
  -- The calls, each with its node.
  let calls : List (NodeId × Change) :=
    nodes.flatMap fun v => (callsFor clause (changes v)).map (v, ·)
  have written : calls.map (fun call => (call.2.added? (t.surroundings f call.1)).bind (write call.1))
      = items.map some := by
    rw [whole, List.map_flatMap]
    simp only [List.map_map]
    rfl
  have mentioned : calls.flatMap (fun call => call.2.mentions call.1)
      = nodes.flatMap fun v => callMentions clause v (changes v) := by
    rw [List.flatMap_assoc]
    simp only [List.flatMap_map]
    rfl
  have asked : ∀ call ∈ calls, call.1 ∈ nodes ∧ call.2.clause? = some clause := by
    intro call mem
    obtain ⟨v, hv, mem⟩ := List.mem_flatMap.mp mem
    obtain ⟨c, hc, rfl⟩ := List.mem_map.mp mem
    exact ⟨hv, (mem_callsFor.mp hc).2⟩
  have paired := (List.forall₂_and_left _ _).mpr ⟨asked, Outcome.forall₂_of_map_some written⟩
  rw [← mentioned]
  refine List.rel_flatMap paired ?_
  rintro ⟨v, c⟩ item ⟨⟨hv, isFor⟩, made⟩
  exact each v hv c isFor item made

/-- The condition of a join has the columns that its calls name. -/
theorem stands_join {item : Sql.JoinItem} (joined : t.JoinedAs f changes v item) :
    List.Forall₂ (t.Stands f) (callMentions .on v (changes v)) item.on.references := by
  obtain ⟨parent, attached, -, whole⟩ := joined
  have stands := @stands_clause f t changes Expr [v] .on
    (fun v => (t.node v).equation? (t.aliasOf parent)) item.on.conjuncts Expr.references
    (by simpa using whole) (fun w hw c isFor item made => by
      obtain rfl := List.mem_singleton.mp hw
      exact stands_equation attached isFor made)
  rwa [List.flatMap_singleton, Sql.references_conjuncts] at stands

/-! ## Results -/

/-- The columns that a node stands for without a call, if it falls back on them. -/
def fallbackTargets (t : Tree) (n : Node) (isRoot : Bool) : List Target :=
  if n.isImplicit isRoot then
    match n.source with
    | .entity e =>
      (((t.mappings.columns? e).getD []).filter fun c => !(c.name ∈ n.excluded)).map (.column ·.name)
    | .query _ _ => []
  else []

/-- What is named for the results of a node: by its calls, as far as it is not excluded, and then by its
entity, if the node falls back on the columns of this. -/
def resultMentions (t : Tree) (v : NodeId) (isRoot : Bool) (changes : List Change) : List Mention :=
  let asked := (firsts [] (askedIn changes)).filter fun a =>
    ((t.node v).askedExpr? (t.column v) (exclusions (t.column v) changes) a).isSome
  asked.flatMap (·.mentions v) ++ (t.fallbackTargets (t.node v) isRoot).map (⟨v, .own, ·⟩)

theorem stands_asked {excluded : List String} {a : Asked} {e : Expr}
    (written : (t.node v).askedExpr? (t.column v) excluded a = some e) :
    List.Forall₂ (t.Stands f) (a.mentions v) e.references := by
  cases a with
  | column target aliasName =>
      obtain ⟨c, found, written⟩ := Option.bind_eq_some_iff.mp written
      obtain ⟨-, written⟩ := Option.ite_none_left_eq_some.mp written
      obtain rfl := Option.some.inj written
      rw [Sql.references_underAlias]
      exact .cons (stands_own found) .nil
  | aggregate function target options =>
      obtain ⟨c, found, rfl⟩ := Option.map_eq_some_iff.mp written
      rw [Sql.references_underAlias]
      exact stands_aggregate (Outcome.toOption_eq_some.mp found) _ rfl

theorem stands_fallback (isRoot : Bool) :
    List.Forall₂ (t.Stands f) ((t.fallbackTargets (t.node v) isRoot).map (⟨v, .own, ·⟩))
      ((t.fallback (t.node v) isRoot).flatMap Expr.references) := by
  unfold fallbackTargets fallback
  split
  · cases (t.node v).source with
    | query q e =>
        show List.Forall₂ _ [] (List.flatMap _ (if _ then _ else _))
        split <;> exact .nil
    | entity e =>
        dsimp only
        cases t.mappings.columns? e with
        | none => exact .nil
        | some columns =>
            show List.Forall₂ _ ((List.map _ (columns.filter _)).map _)
              (((t.node v).columnExprs columns).flatMap _)
            rw [Node.references_columnExprs, List.map_map, List.forall₂_map_left_iff,
              List.forall₂_map_right_iff, List.forall₂_same]
            exact fun c _ => @Stands.own f t v (.column c.name) ⟨c.name, none⟩ rfl
  · exact .nil

/-- The results of a node have the columns that are named for them. -/
theorem stands_results (isRoot : Bool) (changes : List Change) :
    List.Forall₂ (t.Stands f) (t.resultMentions v isRoot changes)
      ((t.wanted v changes ++ t.fallback (t.node v) isRoot).flatMap Expr.references) := by
  rw [List.flatMap_append]
  refine List.rel_append ?_ (stands_fallback isRoot)
  exact List.rel_flatMap (Outcome.forall₂_filter_isSome _ _) fun a e written => stands_asked written

/-! ## Queries -/

/-- The columns that are named for a query, in the order in which they are written: for its results, for
the conditions of its joins, and for the other clauses. -/
def mentions (t : Tree) (root : NodeId) (changes : NodeId → List Change) : List Mention :=
  (t.shown root).flatMap (fun v => t.resultMentions v (v = root) (changes v)) ++
  (t.walk root).tail.flatMap (fun v => callMentions .on v (changes v)) ++
  (t.walk root).flatMap (fun v => callMentions .filter v (changes v)) ++
  (t.shown root).flatMap (fun v => callMentions .group v (changes v)) ++
  (t.shown root).flatMap (fun v => callMentions .having v (changes v)) ++
  (t.shown root).flatMap (fun v => callMentions .order v (changes v))

theorem node_of_mem_callMentions {clause : Clause} {cs : List Change} {m : Mention}
    (h : m ∈ callMentions clause v cs) : m.node = v := by
  obtain ⟨c, -, mem⟩ := List.mem_flatMap.mp h
  exact Change.node_of_mem_mentions mem

theorem node_of_mem_resultMentions {isRoot : Bool} {cs : List Change} {m : Mention}
    (h : m ∈ t.resultMentions v isRoot cs) : m.node = v := by
  rcases List.mem_append.mp h with asked | fallback
  · obtain ⟨a, -, mem⟩ := List.mem_flatMap.mp asked
    exact Asked.node_of_mem_mentions mem
  · obtain ⟨target, -, rfl⟩ := List.mem_map.mp fallback
    rfl

/-- Nothing is named for a query on nodes that are not walked. -/
theorem node_mem_walk {m : Mention} (h : m ∈ t.mentions root changes) : m.node ∈ t.walk root := by
  have called {clause : Clause} {nodes : List NodeId} (walked : ∀ v ∈ nodes, v ∈ t.walk root)
      (h : m ∈ nodes.flatMap fun v => callMentions clause v (changes v)) : m.node ∈ t.walk root := by
    obtain ⟨v, hv, mem⟩ := List.mem_flatMap.mp h
    exact node_of_mem_callMentions mem ▸ walked v hv
  have shown : ∀ v ∈ t.shown root, v ∈ t.walk root := fun v hv => (List.mem_filter.mp hv).1
  unfold mentions at h
  simp only [List.mem_append] at h
  rcases h with ((((result | on) | filter) | group) | having) | order
  · obtain ⟨v, hv, mem⟩ := List.mem_flatMap.mp result
    exact node_of_mem_resultMentions mem ▸ shown v hv
  · exact called (fun v hv => List.mem_of_mem_tail hv) on
  · exact called (fun v hv => hv) filter
  · exact called shown group
  · exact called shown having
  · exact called shown order

/-- **The columns that are written in a query are those that are named for it, one for one.** -/
theorem Sound.select_stands (sound : t.Sound) (hroot : root < t.nodes.length)
    (lists : ∀ v < t.nodes.length, (t.node v).Lists (t.surroundings f v) (changes v))
    (collects : ∀ v < t.nodes.length, (t.node v).Collects (t.column v) (changes v)) {s : Select}
    (h : t.select f.select root = .ok s) :
    List.Forall₂ (t.Stands f) (t.mentions root changes) s.references := by
  have clauses := sound.select_clauses hroot lists h
  have columns := (sound.select_projected hroot collects h).columns_eq
  have parts (clause : Option Expr) :
      clause.toList.flatMap Expr.references = (Sql.conjuncts clause).flatMap Expr.references := by
    cases clause with
    | none => rfl
    | some e => exact (List.flatMap_singleton _ _).trans (Sql.references_conjuncts e).symm
  have results : List.Forall₂ (t.Stands f)
      ((t.shown root).flatMap fun v => t.resultMentions v (v = root) (changes v))
      (s.columns.flatMap Expr.references) := by
    rw [columns, Tree.results, ← flatMap_shown, List.flatMap_assoc]
    refine List.rel_flatMap (@List.forall₂_refl _ Eq _ (t.shown root)) ?_
    rintro v _ rfl
    exact stands_results _ _
  have joins : List.Forall₂ (t.Stands f)
      ((t.walk root).tail.flatMap fun v => callMentions .on v (changes v))
      ((s.joins.map (·.on)).flatMap Expr.references) := by
    rw [List.flatMap_map]
    exact List.rel_flatMap clauses.joins fun v item joined => stands_join joined
  have condition := stands_clause clauses.condition fun v _ c isFor e written =>
    stands_predicate isFor written
  have groups := stands_clause clauses.groups fun v _ c isFor e written => stands_group isFor written
  have having := stands_clause clauses.having fun v _ c isFor e written => stands_having isFor written
  have order := stands_clause clauses.order fun v _ c isFor item written => stands_order isFor written
  -- The number of rows and of those before them are values.
  obtain ⟨-, rootPart, joined, -, rfl, -⟩ := sound.select_ok hroot h
  have limit : (assemble (t.node root) rootPart joined).limit.toList.flatMap Expr.references = [] := by
    show ((t.node root).limit.map _).toList.flatMap _ = []
    cases (t.node root).limit <;> rfl
  have offset : (assemble (t.node root) rootPart joined).offset.toList.flatMap Expr.references = [] := by
    show ((t.node root).offset.map _).toList.flatMap _ = []
    cases (t.node root).offset <;> rfl
  rw [Select.references, Select.expressions]
  simp only [List.flatMap_append, parts (assemble _ _ _).condition, parts (assemble _ _ _).having, limit,
    offset, List.append_nil, List.flatMap_map]
  rw [List.flatMap_map] at joins
  have rows := List.rel_append (List.rel_append results joins) condition
  exact List.rel_append (List.rel_append (List.rel_append rows groups) having) order

end Tree

end QueryForest

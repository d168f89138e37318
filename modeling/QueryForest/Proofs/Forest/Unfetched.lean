import QueryForest.Proofs.Forest.Frame

set_option autoImplicit false

/-!
# What a join brings without being fetched

A join that is not fetched brings its table, its condition and its filters into a query, and a fetched
one also what was asked for on it, but no limit, no offset and no settings for whole rows. What is
left of a node when the rest is hidden is `Node.bare` or `Node.unpaged`. Hiding it has no effect on the
queries of other roots (`Tree.select_hide`), so that two forests that differ in hidden things only have
the same statements there (`render_differAt`).
-/

namespace QueryForest

open Sql (Select)

/-! ## Hidden things -/

/-- A node without its results, groups and order, and without what only counts at the root of a query.
-/
def Node.bare (n : Node) : Node :=
  { source := n.source, aliasName := n.aliasName, filters := n.filters, fetch := n.fetch
    join := n.join, origin := n.origin, outer := n.outer }

/-- A node without what only counts at the root of a query: its limit, its offset, and what is said of
whole rows. -/
def Node.unpaged (n : Node) : Node :=
  { n with limit := none, offset := none, result := { propertyAsAlias := n.result.propertyAsAlias } }

/-- Whether hiding something about nodes leaves their aliases and links alone. -/
structure Node.Hides (hide : Node → Node) : Prop where
  aliasName : ∀ n, (hide n).aliasName = n.aliasName
  origin : ∀ n, (hide n).origin = n.origin
  join : ∀ n, (hide n).join = n.join

theorem Node.hides_bare : Node.Hides Node.bare := ⟨fun _ => rfl, fun _ => rfl, fun _ => rfl⟩

theorem Node.hides_unpaged : Node.Hides Node.unpaged := ⟨fun _ => rfl, fun _ => rfl, fun _ => rfl⟩

namespace Tree

variable {nested : NodeRef → Except QueryError Select} {t : Tree} {n : Node} {hide : Node → Node}
  {id root : NodeId}

/-- A join that is not fetched brings its filters and its table. -/
theorem part_unfetched (unfetched : n.fetch = false) : t.part nested n false = do
    let predicates ← n.filters.mapM (n.filterExpr nested)
    let source ← n.tableSource nested
    return { columns := [], groups := [], having := [], order := [], predicates, source } := by
  rw [part_eq, shownColumns, unfetched]
  rfl

theorem part_bare (unfetched : n.fetch = false) :
    t.part nested n.bare false = t.part nested n false := by
  have unfetchedBare : n.bare.fetch = false := unfetched
  rw [part_unfetched unfetched, part_unfetched unfetchedBare]
  rfl

theorem part_unpaged (isRoot : Bool) :
    t.part nested n.unpaged isRoot = t.part nested n isRoot := rfl

theorem joinItem_hide (hides : Node.Hides hide) (n : Node) (source : Sql.TableSource) :
    t.joinItem (hide n) source = t.joinItem n source := by
  unfold joinItem Node.onExpr Node.columnExpr
  simp only [hides.join, hides.aliasName]

/-- Whether the query that begins at a node is the same when something about the node is hidden. -/
structure BeginsAlike (nested : NodeRef → Except QueryError Select) (t : Tree) (hide : Node → Node)
    (n : Node) : Prop where
  part : t.part nested (hide n) true = t.part nested n true
  limit : (hide n).limit = n.limit
  offset : (hide n).offset = n.offset

/-- **Hiding something about a node has no effect on the queries of other roots**, when the node
brings the same without it, and none on the query that begins at the node when that does so as well. -/
theorem select_hide (hides : Node.Hides hide)
    (begins : root = id → t.BeginsAlike nested hide (t.node id))
    (brings : t.part nested (hide (t.node id)) false = t.part nested (t.node id) false) :
    (t.modify id hide).select nested root = t.select nested root := by
  have aliasOf : (t.modify id hide).aliasOf = t.aliasOf :=
    funext (t.node_modify_same Node.aliasName hides.aliasName id)
  have alike (n : Node) (isRoot : Bool) :
      (t.modify id hide).part nested n isRoot = t.part nested n isRoot :=
    part_alike rfl rfl (fun _ _ => rfl) isRoot
  have part (v : NodeId) : (t.modify id hide).part nested ((t.modify id hide).node v) false
      = t.part nested (t.node v) false := by
    rw [alike, node_modify]
    split
    · next here => rw [here.1, brings]
    · rfl
  have first : (t.modify id hide).part nested ((t.modify id hide).node root) true
        = t.part nested (t.node root) true ∧
      assemble ((t.modify id hide).node root) = assemble (t.node root) := by
    rw [alike, node_modify]
    split
    · next here =>
      obtain ⟨whole, limit, offset⟩ := begins here.1
      rw [here.1]
      refine ⟨whole, ?_⟩
      funext rootPart joined
      simp only [assemble, hides.aliasName, limit, offset]
    · exact ⟨rfl, rfl⟩
  have aliasName : ((t.modify id hide).node root).aliasName = (t.node root).aliasName :=
    congrFun aliasOf root
  have item (v : NodeId) (source : Sql.TableSource) :
      (t.modify id hide).joinItem ((t.modify id hide).node v) source
        = t.joinItem (t.node v) source := by
    rw [joinItem_alike (congrFun aliasOf)]
    exact t.node_modify_same (t.joinItem · source) (fun n => joinItem_hide hides n source) id v
  have joined : (t.modify id hide).joinedPart nested = t.joinedPart nested := by
    funext v
    unfold joinedPart
    simp only [part, item]
  unfold select
  simp only [incompleteJoin?_modify hides.join hides.aliasName, walk_modify hides.origin, aliasOf,
    first.1, first.2, aliasName, joined]

end Tree

namespace Forest

variable {f g : Forest} {j r : NodeRef} {hide : Node → Node}

/-! ## Forests that differ in hidden things -/

/-- Whether two forests differ at most in what is hidden about one node. -/
structure DifferAt (hide : Node → Node) (j : NodeRef) (f g : Forest) : Prop where
  others : ∀ i, i ≠ j.tree → g.tree? i = f.tree? i
  here : (g.tree? j.tree).map (·.modify j.node hide) = (f.tree? j.tree).map (·.modify j.node hide)

/-- Whether the query of a node can stand inside the query of another one. -/
def Embeds (f : Forest) (r j : NodeRef) : Prop :=
  ∃ i, Graph.Reaches f.nestedIn r.tree i ∧ j ∈ f.queriesOf i

/-- A tree is never nested in itself, so that no query of it stands in another one. -/
theorem Sound.not_embeds (h : f.Sound) (here : r.tree = j.tree) : ¬ f.Embeds r j := by
  rintro ⟨i, below, nested⟩
  have edge : Graph.Edge f.nestedIn i j.tree := edge_iff.mpr ⟨j, nested, rfl⟩
  rw [here] at below
  exact h.acyclic.not_reaches edge below

namespace DifferAt

theorem tree (differ : f.DifferAt hide j g) {t : Tree} (ht : f.tree? j.tree = some t) :
    ∃ t', g.tree? j.tree = some t' ∧ t'.modify j.node hide = t.modify j.node hide := by
  have here := differ.here
  rw [ht] at here
  exact Option.map_eq_some_iff.mp here

/-- All other nodes are the same. -/
theorem node_eq (differ : f.DifferAt hide j g) (hr : f.hasNode r) (other : r ≠ j) :
    g.node r = f.node r := by
  obtain ⟨t, ht⟩ := tree?_of_hasNode hr
  by_cases here : r.tree = j.tree
  · obtain ⟨t', ht', same⟩ := differ.tree (here ▸ ht)
    have apart : r.node ≠ j.node := mt (NodeRef.eq_of_node here) other
    calc g.node r
        = t'.node r.node := Forest.node_eq (here ▸ ht')
      _ = (t'.modify j.node hide).node r.node := (t'.node_modify_of_ne apart hide).symm
      _ = (t.modify j.node hide).node r.node := by rw [same]
      _ = t.node r.node := t.node_modify_of_ne apart hide
      _ = f.node r := (Forest.node_eq ht).symm
  · unfold node
    rw [differ.others r.tree here]

end DifferAt

/-- **Nodes have the same query when what is hidden brings nothing into it**, and nothing either into
the query of the node where it is hidden, if that is their query or stands in it. -/
theorem Sound.select_hidden (hf : f.Sound) (hg : g.Sound) (differ : f.DifferAt hide j g)
    (hides : Node.Hides hide)
    (brings : ∀ nested t, f.tree? j.tree = some t ∨ g.tree? j.tree = some t →
      t.part nested (hide (t.node j.node)) false = t.part nested (t.node j.node) false)
    (hr : f.hasNode r)
    (begins : r = j ∨ f.Embeds r j → ∀ nested t, f.tree? j.tree = some t ∨ g.tree? j.tree = some t →
      t.BeginsAlike nested hide (t.node j.node)) : g.select r = f.select r := by
  -- By induction on the nesting: the queries below begin alike as well.
  revert begins
  refine hf.nested_induction ?_ hr
  intro r t ht _ ih begins
  have inside : t.select g.select r.node = t.select f.select r.node := by
    refine Tree.select_congr (fun v q hq => ?_) r.node
    have nested : q ∈ t.queries := Tree.mem_queries_of_node hq
    have listed : q ∈ f.queriesOf r.tree := queriesOf_eq ht ▸ nested
    refine ih q nested fun stands => begins (Or.inr ?_)
    rcases stands with rfl | ⟨i, below, there⟩
    · exact ⟨r.tree, .refl _, listed⟩
    · exact ⟨i, below.head (edge_iff.mpr ⟨q, listed, rfl⟩), there⟩
  by_cases here : r.tree = j.tree
  · have before : f.tree? j.tree = some t := here ▸ ht
    obtain ⟨t', ht', same⟩ := differ.tree before
    have first (nested : NodeRef → Except QueryError Select) (u : Tree)
        (hu : f.tree? j.tree = some u ∨ g.tree? j.tree = some u) (heads : r.node = j.node) :
        u.BeginsAlike nested hide (u.node j.node) :=
      begins (Or.inl (NodeRef.eq_of_node here heads)) nested u hu
    calc g.select r
        = t'.select g.select r.node := hg.select_eq (here ▸ ht')
      _ = (t'.modify j.node hide).select g.select r.node :=
          (Tree.select_hide hides (first _ t' (Or.inr ht')) (brings _ t' (Or.inr ht'))).symm
      _ = (t.modify j.node hide).select g.select r.node := by rw [same]
      _ = t.select g.select r.node :=
          Tree.select_hide hides (first _ t (Or.inl before)) (brings _ t (Or.inl before))
      _ = t.select f.select r.node := inside
      _ = f.select r := (hf.select_eq ht).symm
  · have after : g.tree? r.tree = some t := by rw [differ.others r.tree here, ht]
    rw [hg.select_eq after, hf.select_eq ht, inside]

/-- **Other nodes have the same query when what is hidden brings nothing into it.** -/
theorem Sound.select_differAt (hf : f.Sound) (hg : g.Sound) (differ : f.DifferAt hide j g)
    (hides : Node.Hides hide)
    (brings : ∀ nested t, f.tree? j.tree = some t ∨ g.tree? j.tree = some t →
      t.part nested (hide (t.node j.node)) false = t.part nested (t.node j.node) false)
    (hr : f.hasNode r) (other : r ≠ j) (apart : ¬ f.Embeds r j) : g.select r = f.select r :=
  -- The query of the node where something is hidden does not matter here.
  hf.select_hidden hg differ hides brings hr fun stands => (stands.elim other apart).elim

/-- Whether a node is fetched is not hidden. -/
theorem DifferAt.fetch (differ : f.DifferAt Node.bare j g) {t : Tree}
    (ht : f.tree? j.tree = some t ∨ g.tree? j.tree = some t)
    (unfetched : (f.node j).fetch = false) : (t.node j.node).fetch = false := by
  have kept (u : Tree) : ((u.modify j.node Node.bare).node j.node).fetch = (u.node j.node).fetch :=
    @Tree.node_modify_same u Bool Node.fetch Node.bare (fun _ => rfl) j.node j.node
  have before {u : Tree} (hu : f.tree? j.tree = some u) : (u.node j.node).fetch = false := by
    rw [← Forest.node_eq hu, unfetched]
  rcases ht with ht | ht
  · exact before ht
  · have here := differ.here
    rw [ht] at here
    obtain ⟨u, hu, same⟩ := Option.map_eq_some_iff.mp here.symm
    calc (t.node j.node).fetch
        = ((t.modify j.node Node.bare).node j.node).fetch := (kept t).symm
      _ = ((u.modify j.node Node.bare).node j.node).fetch := by rw [same]
      _ = (u.node j.node).fetch := kept u
      _ = false := before hu

/-- **A join that is not fetched brings nothing but its table, its condition and its filters into the
statements of other nodes, and a fetched one no limit, no offset and nothing that is said of whole
rows.** Forests that callers can make, and that differ at one node in such things only, have the same
statements at all other nodes of its tree, or fail there with the same errors. The same holds of other
trees, as long as the query of the node itself is not nested there. -/
theorem render_differAt (hf : f.Reachable) (hg : g.Reachable)
    (differ : f.DifferAt Node.bare j g ∧ (f.node j).fetch = false ∨ f.DifferAt Node.unpaged j g)
    (hr : f.hasNode r) (other : r ≠ j) (apart : r.tree = j.tree ∨ ¬ f.Embeds r j)
    (d : Sql.Dialect) : g.render d r = f.render d r := by
  have notInside : ¬ f.Embeds r j := apart.elim hf.sound.not_embeds id
  have same : g.select r = f.select r ∧ g.node r = f.node r := by
    rcases differ with ⟨differ, unfetched⟩ | differ
    · refine ⟨hf.sound.select_differAt hg.sound differ Node.hides_bare ?_ hr other notInside,
        differ.node_eq hr other⟩
      intro nested t ht
      exact Tree.part_bare (differ.fetch ht unfetched)
    · refine ⟨hf.sound.select_differAt hg.sound differ Node.hides_unpaged ?_ hr other notInside,
        differ.node_eq hr other⟩
      intro nested t _
      exact Tree.part_unpaged false
  unfold render
  rw [same.1, same.2]

/-- Orders with their customers and the regions of these. The customers are not fetched, and there is
no mapping by which their columns could be known; the regions below them are. -/
def regions : List Action :=
  [.call (.root {} ⟨"order", "Order", "orders"⟩ (some "o") {}),
    .call (.change ⟨0, 0⟩ (.select (.column "id") none)),
    .call (.join ⟨0, 0⟩ ⟨"customer", "Customer", "customers"⟩ .inner (some "c")),
    .call (.change ⟨0, 1⟩ (.onWith (.column "customer_id") (.column "id"))),
    .call (.change ⟨0, 1⟩ (.isNull (.column "closed") false)),
    .call (.attach ⟨0, 1⟩),
    .call (.join ⟨0, 1⟩ ⟨"region", "Region", "regions"⟩ .left (some "r")),
    .call (.change ⟨0, 2⟩ (.onWith (.column "region_id") (.column "id"))),
    .call (.change ⟨0, 2⟩ (.fetch true)),
    .call (.change ⟨0, 2⟩ (.select (.column "name") none)),
    .call (.attach ⟨0, 2⟩)]

/-- What can be asked of the customers without any effect. -/
def unseen : List Change :=
  [.select (.column "name") (some "x"), .exclude (.column "name"), .aggregate .count none {},
    .group (.column "city"), .having .count none .gt (.int 2), .sort (.column "name") { direction := .asc },
    .limit 5, .offset 10, .resultType "Customer", .mapKey (.column "id"), .propertyAsAlias true]

/-- What can be asked of the regions without any effect. -/
def unpaged : List Change :=
  [.limit 5, .offset 10, .resultType "Region", .mapKey (.column "id"), .mapType "Region"]

theorem render_differAt_regions : ∃ statement,
    (empty.run regions).render .mysql ⟨0, 0⟩ = .ok statement ∧
    (empty.run (regions ++ changesOf ⟨0, 1⟩ unseen)).render .mysql ⟨0, 0⟩ = .ok statement ∧
    (empty.run (regions ++ changesOf ⟨0, 2⟩ unpaged)).render .mysql ⟨0, 0⟩ = .ok statement := by
  have reachable (more : List Action) (admitted : empty.admits (regions ++ more)) :
      (empty.run (regions ++ more)).Reachable := ⟨_, admitted, rfl⟩
  have before : (empty.run regions).Reachable := reachable [] (by decide)
  have alone (more : List Action) (j : NodeRef) (single : (empty.run (regions ++ more)).trees.length = 1)
      (first : j.tree = 0) (i : TreeId) (elsewhere : i ≠ j.tree) :
      (empty.run (regions ++ more)).tree? i = (empty.run regions).tree? i := by
    have beyond : 1 ≤ i := Nat.one_le_iff_ne_zero.mpr (first ▸ elsewhere)
    have missing : (empty.run regions).tree? i = none := List.getElem?_eq_none beyond
    rw [missing]
    exact List.getElem?_eq_none (single ▸ beyond)
  obtain ⟨statement, made⟩ : ∃ statement, (empty.run regions).render .mysql ⟨0, 0⟩ = .ok statement :=
    ⟨_, rfl⟩
  refine ⟨statement, made, ?_, ?_⟩
  · have differ : (empty.run regions).DifferAt Node.bare ⟨0, 1⟩
        (empty.run (regions ++ changesOf ⟨0, 1⟩ unseen)) := ⟨alone _ ⟨0, 1⟩ rfl rfl, rfl⟩
    have after := reachable (changesOf ⟨0, 1⟩ unseen) (by decide)
    have same := @render_differAt _ _ ⟨0, 1⟩ ⟨0, 0⟩ before after (Or.inl ⟨differ, by decide⟩)
      (by decide) (by decide) (Or.inl rfl) .mysql
    exact same.trans made
  · have differ : (empty.run regions).DifferAt Node.unpaged ⟨0, 2⟩
        (empty.run (regions ++ changesOf ⟨0, 2⟩ unpaged)) := ⟨alone _ ⟨0, 2⟩ rfl rfl, rfl⟩
    have after := reachable (changesOf ⟨0, 2⟩ unpaged) (by decide)
    have same := @render_differAt _ _ ⟨0, 2⟩ ⟨0, 0⟩ before after (Or.inr differ) (by decide)
      (by decide) (Or.inl rfl) .mysql
    exact same.trans made

end Forest

end QueryForest

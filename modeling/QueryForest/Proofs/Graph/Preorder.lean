import Mathlib.Data.List.Nodup
import Mathlib.Data.List.Perm.Subperm
import QueryForest.Graph.Preorder
import QueryForest.Proofs.Graph.Paths

set_option autoImplicit false

/-!
# What the depth-first order lists

`preorder` lists each vertex that can be reached once (`nodup_preorder`, `mem_preorder_iff`), and
each but the first after one of which it is a successor (`preceded_preorder`). Where the graph is a
tree, it is the order of the tree: the first vertex, and then the orders of its successors one
after the other (`preorder_eq_cons_flatMap`). So nothing is passed over there because it has been
seen before.

`visit` is bounded by a length of paths. `Room` says that the bound is high enough: no more
vertices are unseen than a path may still have. It holds at the start and is kept by every visit,
so that the bound never stops one (`visit_succ`).
-/

namespace QueryForest.Graph

variable {successors : Nat → List Nat} {size : Nat}

/-! ## One visit -/

theorem visit_seen {length v : Nat} {seen : List Nat} (h : v ∈ seen) :
    visit successors length seen v = seen := by
  cases length <;> simp [visit, h]

theorem visit_unseen {length v : Nat} {seen : List Nat} (h : v ∉ seen) :
    visit successors (length + 1) seen v
      = (successors v).foldl (visit successors length) (seen ++ [v]) := by
  simp [visit, h]

/-- What holds of the seen vertices, and still holds after a vertex is appended, holds after a
visit. The appended vertex has been reached from the one that is visited. -/
theorem visit_induction {P : List Nat → Prop} {v : Nat}
    (append : ∀ seen w, P seen → w ∉ seen → Reaches successors v w → P (seen ++ [w])) :
    ∀ {length : Nat} {seen : List Nat} {u : Nat}, Reaches successors v u → P seen →
      P (visit successors length seen u) := by
  intro length
  induction length with
  | zero => intro seen u _ h; exact h
  | succ length ih =>
      intro seen u path h
      by_cases hu : u ∈ seen
      · rw [visit_seen hu]
        exact h
      · rw [visit_unseen hu]
        refine List.foldlRecOn _ _ (append seen u h hu path) ?_
        intro seen' h' w hw
        exact ih (path.tail hw) h'

theorem prefix_visit (length : Nat) (seen : List Nat) (v : Nat) :
    seen <+: visit successors length seen v :=
  visit_induction (P := fun l => seen <+: l) (fun _ w h _ _ => h.trans (List.prefix_append _ [w]))
    (Reaches.refl v) (List.prefix_refl seen)

theorem nodup_visit {length v : Nat} {seen : List Nat} (h : seen.Nodup) :
    (visit successors length seen v).Nodup :=
  visit_induction (fun _ _ h hw _ => List.nodup_append_comm.mp (List.nodup_cons.mpr ⟨hw, h⟩))
    (Reaches.refl v) h

theorem mem_visit {length v w : Nat} {seen : List Nat} (h : w ∈ visit successors length seen v) :
    w ∈ seen ∨ Reaches successors v w := by
  revert h
  refine visit_induction (P := fun l => w ∈ l → w ∈ seen ∨ Reaches successors v w) ?_
    (Reaches.refl v) Or.inl
  intro seen' u ih _ path h
  rcases List.mem_append.mp h with h | h
  · exact ih h
  · exact Or.inr (List.mem_singleton.mp h ▸ path)

/-! ## The bound -/

/-- At most `length` vertices below `size` have not been seen. -/
structure Room (size length : Nat) (seen : List Nat) : Prop where
  nodup : seen.Nodup
  lt : ∀ v ∈ seen, v < size
  enough : size ≤ seen.length + length

theorem nodup_length_le {seen : List Nat} (nodup : seen.Nodup) (lt : ∀ v ∈ seen, v < size) :
    seen.length ≤ size :=
  calc seen.length
      ≤ (List.range size).length :=
        (nodup.subperm fun v hv => List.mem_range.mpr (lt v hv)).length_le
    _ = size := List.length_range

theorem Room.start (size : Nat) : Room size size [] :=
  ⟨List.nodup_nil, fun _ h => absurd h List.not_mem_nil, Nat.le_add_left _ _⟩

/-- Without room for another vertex, every vertex has been seen. -/
theorem Room.mem {seen : List Nat} (room : Room size 0 seen) {v : Nat} (hv : v < size) :
    v ∈ seen := by
  by_contra unseen
  have longer : (v :: seen).length ≤ size := by
    refine nodup_length_le (List.nodup_cons.mpr ⟨unseen, room.nodup⟩) ?_
    intro u hu
    rcases List.mem_cons.mp hu with rfl | hu
    · exact hv
    · exact room.lt u hu
  have enough := room.enough
  simp at longer
  omega

theorem Room.append {length v : Nat} {seen : List Nat} (room : Room size (length + 1) seen)
    (hv : v < size) (unseen : v ∉ seen) : Room size length (seen ++ [v]) := by
  refine ⟨List.nodup_append_comm.mp (List.nodup_cons.mpr ⟨unseen, room.nodup⟩), ?_, ?_⟩
  · intro u hu
    rcases List.mem_append.mp hu with hu | hu
    · exact room.lt u hu
    · exact List.mem_singleton.mp hu ▸ hv
  · have enough := room.enough
    simp
    omega

/-- A list goes on from the seen vertices, and has the successors of all that it adds to them. -/
def Closes (successors : Nat → List Nat) (seen l : List Nat) : Prop :=
  seen ⊆ l ∧ ∀ u ∈ l, u ∉ seen → ∀ w ∈ successors u, w ∈ l

theorem Closes.refl (seen : List Nat) : Closes successors seen seen :=
  ⟨fun _ h => h, fun _ hu unseen => absurd hu unseen⟩

theorem Closes.trans {seen mid l : List Nat} (first : Closes successors seen mid)
    (second : Closes successors mid l) : Closes successors seen l := by
  refine ⟨fun u hu => second.1 (first.1 hu), fun u hu unseen w hw => ?_⟩
  by_cases early : u ∈ mid
  · exact second.1 (first.2 u early unseen w hw)
  · exact second.2 u hu early w hw

/-- Steps that list a vertex and what it leads to do so for a list of vertices. What a step relies
on may depend on the steps before. -/
theorem Closes.foldl (ready : List Nat → Prop) {step : List Nat → Nat → List Nat} (vs : List Nat)
    (h : ∀ acc, ∀ v ∈ vs, ready acc →
      ready (step acc v) ∧ v ∈ step acc v ∧ Closes successors acc (step acc v))
    {acc : List Nat} (start : ready acc) :
    vs ⊆ vs.foldl step acc ∧ Closes successors acc (vs.foldl step acc) := by
  induction vs generalizing acc with
  | nil => exact ⟨List.nil_subset _, Closes.refl acc⟩
  | cons v vs ih =>
      obtain ⟨goes_on, listed, first⟩ := h acc v List.mem_cons_self start
      obtain ⟨lists, rest⟩ := ih (fun acc w hw => h acc w (List.mem_cons_of_mem v hw)) goes_on
      exact ⟨List.cons_subset.mpr ⟨rest.1 listed, lists⟩, first.trans rest⟩

section Bounded

variable (below : ∀ v, ∀ w ∈ successors v, w < size)

include below

theorem Room.visit {length : Nat} {seen : List Nat} (room : Room size length seen) {n v : Nat}
    (hv : v < size) : Room size length (visit successors n seen v) := by
  refine ⟨nodup_visit room.nodup, ?_, ?_⟩
  · intro u hu
    rcases mem_visit hu with hu | path
    · exact room.lt u hu
    · exact path.lt below hv
  · have longer : seen.length ≤ (Graph.visit successors n seen v).length :=
      (prefix_visit n seen v).length_le
    have enough := room.enough
    omega

/-- A visit with room goes the same way with more room. -/
theorem visit_succ {length v : Nat} {seen : List Nat} (room : Room size length seen)
    (hv : v < size) : Graph.visit successors (length + 1) seen v
      = Graph.visit successors length seen v := by
  induction length generalizing seen v with
  | zero => rw [visit_seen (room.mem hv), visit_seen (room.mem hv)]
  | succ length ih =>
      by_cases seen_v : v ∈ seen
      · rw [visit_seen seen_v, visit_seen seen_v]
      · rw [visit_unseen seen_v, visit_unseen seen_v]
        -- There is room again after each of the visits, so that each of them goes the same way.
        have same : ∀ (vs acc : List Nat), (∀ w ∈ vs, w < size) → Room size length acc →
            vs.foldl (Graph.visit successors (length + 1)) acc
              = vs.foldl (Graph.visit successors length) acc := by
          intro vs
          induction vs with
          | nil => intro acc _ _; rfl
          | cons w vs ihs =>
              intro acc hvs room'
              have hw : w < size := hvs w List.mem_cons_self
              rw [List.foldl_cons, List.foldl_cons, ih room' hw]
              exact ihs _ (fun u hu => hvs u (List.mem_cons_of_mem w hu)) (room'.visit below hw)
        exact same _ _ (below v) (room.append hv seen_v)

/-! ## Everything that can be reached -/

/-- A visit with room lists the vertex and, of every vertex that it appends, the successors. -/
theorem visit_closed {length v : Nat} {seen : List Nat} (room : Room size length seen)
    (hv : v < size) :
    v ∈ Graph.visit successors length seen v ∧
      Closes successors seen (Graph.visit successors length seen v) := by
  induction length generalizing seen v with
  | zero =>
      rw [visit_seen (room.mem hv)]
      exact ⟨room.mem hv, Closes.refl seen⟩
  | succ length ih =>
      by_cases seen_v : v ∈ seen
      · rw [visit_seen seen_v]
        exact ⟨seen_v, Closes.refl seen⟩
      · rw [visit_unseen seen_v]
        obtain ⟨lists, keeps, closes⟩ := Closes.foldl (Room size length) (successors v)
          (fun acc w hw room' => ⟨room'.visit below (below v w hw), ih room' (below v w hw)⟩)
          (room.append hv seen_v)
        refine ⟨keeps (by simp), fun u hu => keeps (by simp [hu]), ?_⟩
        -- The successors of the vertex itself are visited, those of the others lie inside.
        intro u hu unseen w hw
        by_cases h : u = v
        · exact lists (h ▸ hw)
        · exact closes u hu (by simp [unseen, h]) w hw

/-- **The order lists what can be reached.** -/
theorem mem_preorder_iff {v w : Nat} (hv : v < size) :
    w ∈ preorder successors size v ↔ Reaches successors v w := by
  constructor
  · intro h
    rcases mem_visit h with h | path
    · exact absurd h List.not_mem_nil
    · exact path
  · intro path
    obtain ⟨first, -, closed⟩ := visit_closed below (Room.start size) hv
    induction path with
    | refl => exact first
    | tail _ edge ih => exact closed _ ih List.not_mem_nil _ edge

end Bounded

/-- No vertex is listed twice. -/
theorem nodup_preorder (v : Nat) : (preorder successors size v).Nodup :=
  nodup_visit List.nodup_nil

theorem preorder_ne_nil {v : Nat} (hv : v < size) : preorder successors size v ≠ [] := by
  obtain ⟨size, rfl⟩ : ∃ n, size = n + 1 := ⟨size - 1, by omega⟩
  intro empty
  have first : [v] <+: preorder successors (size + 1) v := by
    rw [preorder, visit_unseen List.not_mem_nil]
    exact List.foldlRecOn (motive := fun l => [v] <+: l) _ _ (List.prefix_refl _)
      fun l h w _ => h.trans (prefix_visit size l w)
  rw [empty] at first
  simp at first

/-- The vertices below a vertex of an acyclic graph are fewer. -/
theorem length_preorder_lt (below : ∀ v, ∀ w ∈ successors v, w < size)
    (acyclic : Acyclic (Edge successors)) {v w : Nat} (hv : v < size) (edge : w ∈ successors v) :
    (preorder successors size w).length < (preorder successors size v).length := by
  have hw : w < size := below v w edge
  have fresh : v ∉ preorder successors size w := fun h =>
    acyclic.not_reaches edge ((mem_preorder_iff below hw).mp h)
  have sub : v :: preorder successors size w ⊆ preorder successors size v := by
    intro u hu
    rw [mem_preorder_iff below hv]
    rcases List.mem_cons.mp hu with rfl | hu
    · exact Reaches.refl u
    · exact ((mem_preorder_iff below hw).mp hu).head edge
  exact ((List.nodup_cons.mpr ⟨fresh, nodup_preorder w⟩).subperm sub).length_le

theorem length_preorder_le (below : ∀ v, ∀ w ∈ successors v, w < size) {v : Nat} (hv : v < size) :
    (preorder successors size v).length ≤ size :=
  nodup_length_le (nodup_preorder v) fun _ hu => ((mem_preorder_iff below hv).mp hu).lt below hv

/-- What passes from the predecessors of a vertex to the vertex holds of all vertices of an acyclic
graph. The vertices above one have longer orders, and no order is longer than the graph. -/
@[elab_as_elim]
theorem induction_down (below : ∀ v, ∀ w ∈ successors v, w < size)
    (acyclic : Acyclic (Edge successors)) {P : Nat → Prop}
    (step : ∀ v < size, (∀ u < size, v ∈ successors u → P u) → P v) {v : Nat} (hv : v < size) :
    P v := by
  -- By induction on how much longer an order could still be.
  obtain ⟨room, enough⟩ : ∃ n, size - (preorder successors size v).length ≤ n := ⟨_, Nat.le_refl _⟩
  induction room generalizing v with
  | zero =>
      refine step v hv fun u hu edge => ?_
      have shorter := length_preorder_lt below acyclic hu edge
      have bound := length_preorder_le below hu
      omega
  | succ room ih =>
      refine step v hv fun u hu edge => ih hu ?_
      have shorter := length_preorder_lt below acyclic hu edge
      omega

/-! ## Predecessors come first -/

/-- Each vertex but the first comes after one of which it is a successor. -/
def Preceded (successors : Nat → List Nat) (l : List Nat) : Prop :=
  ∀ before v after, l = before ++ v :: after → before ≠ [] → ∃ u ∈ before, v ∈ successors u

theorem Preceded.append {l : List Nat} (h : Preceded successors l) {w : Nat}
    (hw : ∃ u ∈ l, w ∈ successors u) : Preceded successors (l ++ [w]) := by
  intro before v after split nonempty
  -- Either the vertex is an old one, or it is the last one, which has been appended.
  rcases List.append_eq_append_iff.mp split.symm with ⟨mid, rfl, tail⟩ | ⟨mid, rfl, tail⟩
  · cases mid with
    | nil =>
        obtain ⟨rfl, -⟩ := List.cons.inj tail
        simpa using hw
    | cons x mid =>
        obtain ⟨rfl, -⟩ := List.cons.inj tail
        exact h before v mid rfl nonempty
  · have empty : mid = [] := by
      have := congrArg List.length tail
      simp at this
      exact List.length_eq_zero_iff.mp (by omega)
    subst empty
    obtain ⟨rfl, -⟩ := List.cons.inj tail
    simpa using hw

theorem preceded_visit {length v : Nat} {seen : List Nat} (h : Preceded successors seen)
    (hv : seen = [] ∨ ∃ u ∈ seen, v ∈ successors u) :
    Preceded successors (visit successors length seen v) := by
  induction length generalizing seen v with
  | zero => exact h
  | succ length ih =>
      by_cases seen_v : v ∈ seen
      · rw [visit_seen seen_v]
        exact h
      · rw [visit_unseen seen_v]
        have start : Preceded successors (seen ++ [v]) := by
          rcases hv with rfl | hv
          · intro before w after split nonempty
            have := congrArg List.length split
            have := List.length_pos_iff.mpr nonempty
            simp at *
            omega
          · exact h.append hv
        -- The vertex stays listed while its successors are visited, so that each of them finds it.
        have fold : Preceded successors ((successors v).foldl (visit successors length) (seen ++ [v]))
            ∧ v ∈ (successors v).foldl (visit successors length) (seen ++ [v]) := by
          refine List.foldlRecOn (motive := fun l => Preceded successors l ∧ v ∈ l) _ _
            ⟨start, by simp⟩ ?_
          intro l ⟨hl, hvl⟩ w hw
          exact ⟨ih hl (Or.inr ⟨v, hvl, hw⟩), (prefix_visit length l w).subset hvl⟩
        exact fold.1

/-- **Each vertex that is listed, but the first, comes after one of which it is a successor.** -/
theorem preceded_preorder (v : Nat) : Preceded successors (preorder successors size v) := by
  refine preceded_visit ?_ (Or.inl rfl)
  intro before w after split _
  simp at split

/-! ## Trees -/

/-- A visit does not depend on seen vertices that it cannot reach. -/
theorem visit_append {length v : Nat} {apart : List Nat}
    (h : ∀ w, Reaches successors v w → w ∉ apart) (seen : List Nat) :
    visit successors length (apart ++ seen) v = apart ++ visit successors length seen v := by
  induction length generalizing seen v with
  | zero => rfl
  | succ length ih =>
      have hv : v ∉ apart := h v (Reaches.refl v)
      by_cases seen_v : v ∈ seen
      · rw [visit_seen seen_v, visit_seen (List.mem_append_right apart seen_v)]
      · rw [visit_unseen seen_v, visit_unseen (by simp [hv, seen_v]), List.append_assoc]
        have fold : ∀ (vs acc : List Nat), (∀ x ∈ vs, ∀ w, Reaches successors x w → w ∉ apart) →
            vs.foldl (visit successors length) (apart ++ acc)
              = apart ++ vs.foldl (visit successors length) acc := by
          intro vs
          induction vs with
          | nil => intro acc _; rfl
          | cons x vs ihs =>
              intro acc hvs
              rw [List.foldl_cons, List.foldl_cons, ih (hvs x List.mem_cons_self) acc]
              exact ihs _ fun y hy => hvs y (List.mem_cons_of_mem x hy)
        exact fold _ _ fun x hx w path => h w (path.head hx)

/-- The orders of some vertices are appended one after the other, as long as no two of them reach
the same vertex, and none reaches one that has been seen. -/
theorem foldl_visit (below : ∀ v, ∀ w ∈ successors v, w < size) {length : Nat}
    {vs acc : List Nat} (hvs : ∀ w ∈ vs, w < size) (room : Room size length acc)
    (bound : size = length + 1) (fresh : ∀ a ∈ vs, ∀ w, Reaches successors a w → w ∉ acc)
    (apart : vs.Pairwise fun a b => ∀ w, Reaches successors a w → ¬ Reaches successors b w) :
    vs.foldl (visit successors length) acc = acc ++ vs.flatMap (preorder successors size) := by
  induction vs generalizing acc with
  | nil => simp
  | cons x vs ih =>
      have hx : x < size := hvs x List.mem_cons_self
      obtain ⟨apart_x, apart_vs⟩ := List.pairwise_cons.mp apart
      -- The visit starts with room, so that it goes as one with the full bound, and it reaches
      -- nothing that has been seen.
      have first : visit successors length acc x = acc ++ preorder successors size x := by
        calc visit successors length acc x
            = visit successors (length + 1) acc x := (visit_succ below room hx).symm
          _ = visit successors size (acc ++ []) x := by rw [bound, List.append_nil]
          _ = acc ++ preorder successors size x := visit_append (fresh x List.mem_cons_self) []
      rw [List.foldl_cons, first, List.flatMap_cons, ← List.append_assoc]
      refine ih (fun u hu => hvs u (List.mem_cons_of_mem x hu)) ?_ ?_ apart_vs
      · exact first ▸ room.visit below hx
      · intro a ha w path hw
        rcases List.mem_append.mp hw with hw | hw
        · exact fresh a (List.mem_cons_of_mem x ha) w path hw
        · exact apart_x a ha w ((mem_preorder_iff below hx).mp hw) path

/-- **The order of a tree is the first vertex and then the orders of its successors.** The first
vertex must not be reached again, and no vertex from two successors. -/
theorem preorder_eq_cons_flatMap (below : ∀ v, ∀ w ∈ successors v, w < size) {v : Nat}
    (hv : v < size) (once : ∀ w ∈ successors v, ¬ Reaches successors w v)
    (apart : (successors v).Pairwise fun a b =>
      ∀ w, Reaches successors a w → ¬ Reaches successors b w) :
    preorder successors size v
      = v :: (successors v).flatMap (preorder successors size) := by
  obtain ⟨length, bound⟩ : ∃ n, size = n + 1 := ⟨size - 1, by omega⟩
  have room : Room size length [v] :=
    Room.append (bound ▸ Room.start size) hv List.not_mem_nil
  have fresh : ∀ a ∈ successors v, ∀ w, Reaches successors a w → w ∉ [v] := by
    intro a ha w path hw
    exact once a ha (List.mem_singleton.mp hw ▸ path)
  calc preorder successors size v
      = (successors v).foldl (visit successors length) [v] := by
        rw [preorder, bound, visit_unseen List.not_mem_nil]
        rfl
    _ = [v] ++ (successors v).flatMap (preorder successors size) :=
        foldl_visit below (below v) room bound fresh apart

end QueryForest.Graph

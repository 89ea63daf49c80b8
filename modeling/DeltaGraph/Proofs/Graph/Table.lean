import DeltaGraph.Proofs.Graph.Walk
import Mathlib.Data.List.Sort

/-!
# Edges that join vertices

The edges from one vertex to another are listed in strictly ascending order of
their types, and the first of them is the one that is chosen.
-/

namespace DeltaGraph

instance {kind : Numbered} :
    Std.Irrefl (fun left right : Id kind => left < right) :=
  ⟨fun id => Nat.lt_irrefl id.number⟩

instance {kind : Numbered} :
    Std.Antisymm (fun left right : Id kind => left < right) :=
  ⟨fun _ _ below above => absurd below (Nat.lt_asymm above)⟩

/-- Strictly ascending lists with the same members are the same. -/
theorem eq_of_ascending
    {kind : Numbered}
    {left right : List (Id kind)}
    (leftAscending : left.Pairwise (· < ·))
    (rightAscending : right.Pairwise (· < ·))
    (members : ∀ id, id ∈ left ↔ id ∈ right) : left = right :=
  leftAscending.eq_of_mem_iff rightAscending members

namespace Graph

theorem mem_entries {graph : Graph} {link : Link} {edge : Edge} :
    (link, edge) ∈ graph.edges.toList ↔ graph.edges[link]? = some edge :=
  Std.ExtTreeMap.mem_toList_iff_getElem?_eq_some

/-- The entries of `edgesJoining`, with what is listed of them left in. -/
def entriesJoining
    (graph : Graph)
    (source target : VertexId)
    (type : Option TypeId)
    (version : Version) : List (Link × Edge) :=
  (graph.joining source target).filter fun (link, edge) =>
    edge.history.visible version ∧ link.hasType type

theorem edgesJoining_eq_map
    (graph : Graph)
    (source target : VertexId)
    (type : Option TypeId)
    (version : Version) :
    graph.walkable.edgesJoining source target type version =
      (graph.entriesJoining source target type version).map (·.2.id) := by
  rw [WalkableGraph.edgesJoining, entriesJoining, ← List.filterMap_eq_map',
    List.filterMap_filter]
  simp only [walkable, decide_eq_true_eq]

theorem mem_entriesJoining
    {graph : Graph}
    {source target : VertexId}
    {type : Option TypeId}
    {version : Version}
    {link : Link}
    {edge : Edge} :
    (link, edge) ∈ graph.entriesJoining source target type version ↔
      graph.Shows version type link edge ∧ link.source = source ∧
        link.target = target := by
  simp only [entriesJoining, joining, List.mem_filter, mem_incident, Link.near,
    decide_eq_true_eq, Shows]
  tauto

/-- Links with the same ends are ordered by their types. -/
theorem type_lt_of_compare
    {link other : Link}
    (less : compare link other = .lt)
    (source : link.source = other.source)
    (target : link.target = other.target) :
    link.type < other.type := by
  simp only [Link.compare_def, source, target, Std.ReflCmp.compare_self,
    Ordering.then_eq_lt, reduceCtorEq, true_and, false_or] at less
  rw [Id.compare_def, Nat.compare_eq_lt] at less
  exact less

theorem pairwise_entriesJoining (graph : Graph) (source target : VertexId)
    (type : Option TypeId) (version : Version) :
    (graph.entriesJoining source target type version).Pairwise
      (fun entry later => entry.1.type < later.1.type) := by
  have entries : (graph.entriesJoining source target type version).Sublist
      graph.edges.toList :=
    (List.filter_sublist.trans List.filter_sublist).trans List.filter_sublist
  refine (Std.ExtTreeMap.ordered_keys_toList.sublist entries).imp_of_mem ?_
  rintro ⟨link, edge⟩ ⟨other, another⟩ member later less
  obtain ⟨_, source, target⟩ := mem_entriesJoining.mp member
  obtain ⟨_, otherSource, otherTarget⟩ := mem_entriesJoining.mp later
  exact type_lt_of_compare less (source.trans otherSource.symm)
    (target.trans otherTarget.symm)

/-- The first edge that joins two vertices is the one of the smallest type. -/
theorem resolveEdge_eq_ok_iff (graph : Graph) (source target : VertexId)
    (type : Option TypeId) (version : Version) (id : EdgeId) :
    graph.walkable.resolveEdge source target type version = .ok id ↔
      ∃ link edge, graph.Shows version type link edge ∧ link.source = source ∧
        link.target = target ∧ edge.id = id ∧
        ∀ other another, graph.Shows version type other another →
          other.source = source →
          other.target = target → link.type ≤ other.type := by
  have ordered := graph.pairwise_entriesJoining source target type version
  have member (link : Link) (edge : Edge) :=
    @mem_entriesJoining graph source target type version link edge
  rw [WalkableGraph.resolveEdge, edgesJoining_eq_map]
  generalize graph.entriesJoining source target type version = joining
    at ordered member
  cases joining with
  | nil =>
      simp only [List.map_nil, reduceCtorEq, false_iff]
      rintro ⟨link, edge, shown, fromSource, toTarget, _⟩
      exact absurd ((member link edge).mpr ⟨shown, fromSource, toTarget⟩)
        (by simp)
  | cons first rest =>
      obtain ⟨firstLink, firstEdge⟩ := first
      have smallest (link : Link) (edge : Edge)
          (found : (link, edge) ∈ (firstLink, firstEdge) :: rest) :
          (link, edge) = (firstLink, firstEdge) ∨ firstLink.type < link.type :=
        (List.mem_cons.mp found).imp_right
          ((List.pairwise_cons.mp ordered).1 (link, edge))
      simp only [List.map_cons, Except.ok.injEq]
      constructor
      · rintro rfl
        obtain ⟨shown, fromSource, toTarget⟩ :=
          (member firstLink firstEdge).mp (.head _)
        refine ⟨firstLink, firstEdge, shown, fromSource, toTarget, rfl, ?_⟩
        intro other another otherShown otherSource otherTarget
        rcases smallest other another
          ((member other another).mpr ⟨otherShown, otherSource, otherTarget⟩)
            with same | less
        · cases same
          exact Nat.le_refl _
        · exact Nat.le_of_lt less
      · rintro ⟨link, edge, shown, fromSource, toTarget, rfl, least⟩
        rcases smallest link edge
          ((member link edge).mpr ⟨shown, fromSource, toTarget⟩) with
            same | less
        · cases same
          rfl
        · obtain ⟨firstShown, firstSource, firstTarget⟩ :=
            (member firstLink firstEdge).mp (.head _)
          exact absurd
            (least firstLink firstEdge firstShown firstSource firstTarget)
            (Nat.not_le_of_lt less)

end Graph

end DeltaGraph

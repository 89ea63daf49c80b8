import DeltaGraph.Proofs.Graph.Commit
import DeltaGraph.Proofs.Graph.Spelling
import Mathlib.Combinatorics.Enumerative.DoubleCounting

/-!
# Graphs that agree up to numbers

Two graphs whose types and properties are numbered by different catalogs agree
if they are the same when they are spelled out.  Such graphs have the same
matches of every pattern, and committing them does the same to both.
-/

namespace DeltaGraph

/-! ## Legible graphs -/

namespace Catalog

/-- The type has a name, and is the type that this name stands for. -/
def KnowsType (catalog : Catalog) (type : TypeId) : Prop :=
  ∃ name, catalog.types.number? name = some type.number

/-- The property has a key, and is the property that this key stands for. -/
def KnowsProperty (catalog : Catalog) (property : PropertyId) : Prop :=
  ∃ key, catalog.NumbersKey key property

end Catalog

/-- The catalog knows all types and properties in a sound graph. -/
structure Graph.Legible (graph : Graph) (catalog : Catalog) : Prop where
  sound : graph.Sound
  default : catalog.types.number? "_default" = some TypeId.default.number
  known : graph.UsesOnly catalog.KnowsType catalog.KnowsProperty

namespace Graph.Legible

variable {graph : Graph} {catalog later : Catalog}

theorem empty : Graph.empty.Legible .empty where
  sound := .empty
  default := by decide
  known := .empty ⟨"_default", by decide⟩

theorem named (legible : graph.Legible catalog) : graph.Named catalog :=
  Graph.named_iff.mpr (legible.known.imp
    (fun _ ⟨_, found⟩ => Dictionary.lt_size_of_number? found)
    fun _ ⟨_, found⟩ => Dictionary.lt_size_of_number? found)

/-- A graph stays legible when names are added to the catalog. -/
theorem mono (legible : graph.Legible catalog) (grows : catalog.Extends later) :
    graph.Legible later where
  sound := legible.sound
  default := Dictionary.number?_of_prefix grows.types legible.default
  known := legible.known.imp
    (fun _ ⟨name, found⟩ =>
      ⟨name, Dictionary.number?_of_prefix grows.types found⟩)
    fun _ ⟨key, found⟩ => ⟨key, found.mono grows⟩

/-- Names that are added to the catalog do not change how a legible graph is
spelled out. -/
theorem spell_mono
    (legible : graph.Legible catalog)
    (grows : catalog.Extends later) :
    graph.spell later = graph.spell catalog :=
  Graph.spell_mono legible.sound legible.named grows

end Graph.Legible

/-! ## Corresponding links -/

namespace Catalog

/-- Spelled out, the links are the same. -/
def Corresponds (catalog another : Catalog) (link counterpart : Link) : Prop :=
  ∃ named, catalog.link? named = some link ∧
    another.link? named = some counterpart

/-- Every link of one set has its counterpart in the other. -/
def Covers (catalog another : Catalog) (links others : Finset Link) : Prop :=
  ∀ link ∈ links, ∃ counterpart ∈ others,
    catalog.Corresponds another link counterpart

/-- Spelled out, the sets of links are the same. -/
structure Aligns
    (catalog another : Catalog)
    (links others : Finset Link) : Prop where
  forth : catalog.Covers another links others
  back : another.Covers catalog others links

variable {catalog another : Catalog} {link other counterpart image : Link}

namespace Corresponds

theorem symm (corresponds : catalog.Corresponds another link counterpart) :
    another.Corresponds catalog counterpart link :=
  corresponds.imp fun _ ⟨here, there⟩ => ⟨there, here⟩

theorem ends (corresponds : catalog.Corresponds another link counterpart) :
    counterpart.source = link.source ∧ counterpart.target = link.target := by
  obtain ⟨named, here, there⟩ := corresponds
  obtain ⟨source, target, _⟩ := link?_eq_some_iff.mp here
  obtain ⟨otherSource, otherTarget, _⟩ := link?_eq_some_iff.mp there
  exact ⟨otherSource.symm.trans source, otherTarget.symm.trans target⟩

/-- The types of corresponding links have the same names. -/
theorem numbers
    (corresponds : catalog.Corresponds another link counterpart)
    {name : String}
    (numbers : catalog.types.number? name = some link.type.number) :
    another.types.number? name = some counterpart.type.number := by
  obtain ⟨named, here, there⟩ := corresponds
  rw [Dictionary.number?_injective numbers (link?_eq_some_iff.mp here).2.2]
  exact (link?_eq_some_iff.mp there).2.2

/-- A link has one counterpart. -/
theorem unique (corresponds : catalog.Corresponds another link counterpart)
    (again : catalog.Corresponds another link image) : counterpart = image := by
  obtain ⟨named, here, there⟩ := corresponds
  obtain ⟨spelled, hereAgain, thereAgain⟩ := again
  rw [link?_injective here hereAgain] at there
  exact Option.some.inj (there.symm.trans thereAgain)

/-- A counterpart belongs to one link. -/
theorem injective (corresponds : catalog.Corresponds another link counterpart)
    (again : catalog.Corresponds another other counterpart) : link = other :=
  corresponds.symm.unique again.symm

end Corresponds

section

variable {links others fewer less : Finset Link}

namespace Covers

/-- What is covered has its counterpart on the other side. -/
theorem mem
    (covers : catalog.Covers another links others)
    (corresponds : catalog.Corresponds another link counterpart)
    (member : link ∈ links) :
    counterpart ∈ others := by
  obtain ⟨image, found, again⟩ := covers link member
  exact corresponds.unique again ▸ found

/-- Counterparts are told apart, so that there are at least as many of them. -/
theorem card_le (covers : catalog.Covers another links others) :
    links.card ≤ others.card :=
  Finset.card_le_card_of_forall_subsingleton (catalog.Corresponds another)
    covers
    fun _ _ _ here _ there => here.2.injective there.2

/-- Taking away what is covered in the other direction keeps the rest
covered. -/
theorem sdiff (covers : catalog.Covers another links others)
    (back : another.Covers catalog less fewer) :
    catalog.Covers another (links \ fewer) (others \ less) := by
  intro link member
  obtain ⟨inside, outside⟩ := Finset.mem_sdiff.mp member
  obtain ⟨counterpart, found, corresponds⟩ := covers link inside
  refine ⟨counterpart, Finset.mem_sdiff.mpr ⟨found, fun dropped => ?_⟩,
    corresponds⟩
  exact outside (back.mem corresponds.symm dropped)

/-- A link is added on both sides together with its counterpart. -/
theorem insert (covers : catalog.Covers another links others)
    (corresponds : catalog.Corresponds another link counterpart) :
    catalog.Covers another (insert link links) (insert counterpart others) := by
  intro other member
  rcases Finset.mem_insert.mp member with rfl | member
  · exact ⟨counterpart, Finset.mem_insert_self .., corresponds⟩
  · obtain ⟨image, found, same⟩ := covers other member
    exact ⟨image, Finset.mem_insert_of_mem found, same⟩

theorem erase (covers : catalog.Covers another links others)
    (corresponds : catalog.Corresponds another link counterpart) :
    catalog.Covers another (links.erase link) (others.erase counterpart) := by
  intro other member
  obtain ⟨different, member⟩ := Finset.mem_erase.mp member
  obtain ⟨image, found, same⟩ := covers other member
  refine ⟨image, Finset.mem_erase.mpr ⟨?_, found⟩, same⟩
  rintro rfl
  exact different (same.injective corresponds)

end Covers

namespace Aligns

/-- Links that are aligned contain the same links, by their names. -/
theorem mem_iff (aligns : catalog.Aligns another links others)
    (corresponds : catalog.Corresponds another link counterpart) :
    link ∈ links ↔ counterpart ∈ others :=
  ⟨aligns.forth.mem corresponds, aligns.back.mem corresponds.symm⟩

/-- There are as many links on one side as on the other. -/
theorem card_eq (aligns : catalog.Aligns another links others) :
    links.card = others.card :=
  aligns.forth.card_le.antisymm aligns.back.card_le

theorem sdiff (aligns : catalog.Aligns another links others)
    (alignsToo : catalog.Aligns another fewer less) :
    catalog.Aligns another (links \ fewer) (others \ less) :=
  ⟨aligns.forth.sdiff alignsToo.back, aligns.back.sdiff alignsToo.forth⟩

theorem insert (aligns : catalog.Aligns another links others)
    (corresponds : catalog.Corresponds another link counterpart) :
    catalog.Aligns another (insert link links) (insert counterpart others) :=
  ⟨aligns.forth.insert corresponds, aligns.back.insert corresponds.symm⟩

theorem erase (aligns : catalog.Aligns another links others)
    (corresponds : catalog.Corresponds another link counterpart) :
    catalog.Aligns another (links.erase link) (others.erase counterpart) :=
  ⟨aligns.forth.erase corresponds, aligns.back.erase corresponds.symm⟩

end Aligns

end

end Catalog

/-! ## Graphs that agree -/

/-- Both graphs are legible, and spelled out they are the same. -/
structure Graph.AgreesWith
    (graph : Graph)
    (catalog : Catalog)
    (other : Graph)
    (another : Catalog) :
    Prop where
  here : graph.Legible catalog
  there : other.Legible another
  same : graph.spell catalog = other.spell another

namespace Graph.AgreesWith

variable {graph other : Graph} {catalog another : Catalog}

/-- It does not matter which of two graphs is spelled out first. -/
theorem symm (agrees : graph.AgreesWith catalog other another) :
    other.AgreesWith another graph catalog :=
  ⟨agrees.there, agrees.here, agrees.same.symm⟩

/-- Two graphs go on agreeing when names are added to either catalog. -/
theorem mono
    (agrees : graph.AgreesWith catalog other another)
    {later last : Catalog}
    (grows : catalog.Extends later)
    (growsToo : another.Extends last) :
    graph.AgreesWith later other last where
  here := agrees.here.mono grows
  there := agrees.there.mono growsToo
  same := by
    rw [agrees.here.spell_mono grows, agrees.there.spell_mono growsToo,
      agrees.same]

/-! ### Edges -/

/-- Edges at corresponding links are the same when they are spelled out. -/
theorem edges
    (agrees : graph.AgreesWith catalog other another)
    {link counterpart : Link}
    (corresponds : catalog.Corresponds another link counterpart) :
    (graph.edges[link]?).map (Edge.spell catalog) =
      (other.edges[counterpart]?).map (Edge.spell another) := by
  obtain ⟨named, here, there⟩ := corresponds
  rw [← graph.spell_edges here, ← other.spell_edges there, agrees.same]

/-- An edge has the same number in both graphs. -/
theorem edgeId
    (agrees : graph.AgreesWith catalog other another)
    {link counterpart : Link}
    (corresponds : catalog.Corresponds another link counterpart) :
    (graph.edges[link]?).map Edge.id =
      (other.edges[counterpart]?).map Edge.id := by
  have same := congrArg (Option.map SpelledEdge.id) (agrees.edges corresponds)
  rwa [Option.map_map, Option.map_map] at same

/-- Every edge of one graph has its counterpart in the other. -/
theorem exists_edge
    (agrees : graph.AgreesWith catalog other another)
    {link : Link}
    {edge : Edge}
    (found : graph.edges[link]? = some edge) :
    ∃ counterpart image, catalog.Corresponds another link counterpart ∧
      other.edges[counterpart]? = some image ∧
      edge.spell catalog = image.spell another := by
  obtain ⟨name, typed⟩ := (agrees.here.known.edges link edge found).1
  have linked : catalog.link? ⟨link.source, link.target, name⟩ = some link :=
    Catalog.link?_eq_some_iff.mpr ⟨rfl, rfl, typed⟩
  have shown := graph.spell_edges linked
  rw [found, agrees.same] at shown
  obtain ⟨image, bound, same⟩ := Option.map_eq_some_iff.mp shown
  obtain ⟨counterpart, otherLinked, present⟩ := Option.bind_eq_some_iff.mp bound
  exact ⟨counterpart, image, ⟨_, linked, otherLinked⟩, present, same.symm⟩

/-- A number that stands for an edge in one graph stands for the same edge,
spelled out, in the other. -/
theorem exists_edge?
    (agrees : graph.AgreesWith catalog other another)
    {id : EdgeId}
    {link : Link}
    {edge : Edge}
    (found : graph.edge? id = some (link, edge)) :
    ∃ counterpart image, catalog.Corresponds another link counterpart ∧
      other.edge? id = some (counterpart, image) ∧
      edge.spell catalog = image.spell another := by
  obtain ⟨present, rfl⟩ := agrees.here.sound.edge?_eq_some_iff.mp found
  obtain ⟨counterpart, image, corresponds, otherFound, same⟩ :=
    agrees.exists_edge present
  refine ⟨counterpart, image, corresponds, ?_, same⟩
  exact agrees.there.sound.edge?_eq_some_iff.mpr
    ⟨otherFound, (congrArg SpelledEdge.id same).symm⟩

theorem covers_linksIn
    (agrees : graph.AgreesWith catalog other another)
    (version : Version) :
    catalog.Covers another (graph.linksIn version) (other.linksIn version) := by
  intro link member
  rw [mem_linksIn, history?, Option.any_map, Option.any_eq_true] at member
  obtain ⟨edge, found, visible⟩ := member
  obtain ⟨counterpart, image, corresponds, present, same⟩ :=
    agrees.exists_edge found
  refine ⟨counterpart, mem_linksIn.mpr ?_, corresponds⟩
  have history : edge.history = image.history :=
    congrArg SpelledEdge.history same
  rwa [history?, present, Option.map_some, Option.any_some, ← history]

/-- Every version of the graph has the same links on both sides. -/
theorem aligns_linksIn
    (agrees : graph.AgreesWith catalog other another)
    (version : Version) :
    catalog.Aligns another (graph.linksIn version) (other.linksIn version) :=
  ⟨agrees.covers_linksIn version, agrees.symm.covers_linksIn version⟩

/-- A batch touches the counterparts of what it touches on the other side. -/
theorem covers_batch (agrees : graph.AgreesWith catalog other another) :
    catalog.Covers another graph.batch.toList.toFinset
      other.batch.toList.toFinset := by
  intro link member
  rw [List.mem_toFinset, Std.ExtTreeSet.mem_toList] at member
  obtain ⟨edge, found⟩ := agrees.here.sound.tracked member
  obtain ⟨counterpart, _, ⟨named, here, there⟩, _⟩ := agrees.exists_edge found
  refine ⟨counterpart, ?_, named, here, there⟩
  have touched := congrFun (congrArg SpelledGraph.batch agrees.same) named
  simp only [spell, here, there, Option.any_some] at touched
  rw [List.mem_toFinset, Std.ExtTreeSet.mem_toList, ←
    Std.ExtTreeSet.contains_iff_mem, ← touched]
  exact Std.ExtTreeSet.contains_iff_mem.mpr member

/-- Committing graphs that agree does the same to both. -/
theorem summary_commit (agrees : graph.AgreesWith catalog other another) :
    graph.commit.1 = other.commit.1 := by
  have changed (version before : Version) :
      graph.countChanged version before =
        other.countChanged version before := by
    rw [countChanged_eq_card, countChanged_eq_card]
    exact ((agrees.aligns_linksIn version).sdiff
      (agrees.aligns_linksIn before)).card_eq
  have touched : graph.batch.size = other.batch.size := by
    have count (batch : Std.ExtTreeSet Link) :
        batch.toList.toFinset.card = batch.size := by
      rw [List.toFinset_card_of_nodup, Std.ExtTreeSet.length_toList]
      exact Std.ExtTreeSet.distinct_toList.imp fun different same =>
        different (Std.LawfulEqOrd.compare_eq_iff_eq.mpr same)
    have aligns : catalog.Aligns another _ _ :=
      ⟨agrees.covers_batch, agrees.symm.covers_batch⟩
    rw [← count, ← count, aligns.card_eq]
  rw [commit, commit, changed, changed, touched]

/-! ### Values -/

theorem vertex
    (agrees : graph.AgreesWith catalog other another)
    (vertex : VertexId) :
    (graph.vertices[vertex]?).map (Vertex.spell catalog) =
      (other.vertices[vertex]?).map (Vertex.spell another) :=
  congrFun (congrArg SpelledGraph.vertices agrees.same) vertex

/-- The value of a property of a vertex is found under its key on both sides. -/
theorem vertexProperty?
    (agrees : graph.AgreesWith catalog other another)
    (vertex : VertexId)
    (key : String) :
    (catalog.property? key).bind (graph.vertexProperty? vertex) =
      (another.property? key).bind (other.vertexProperty? vertex) := by
  have spelled (graph : Graph) (catalog : Catalog) :
      (catalog.property? key).bind (graph.vertexProperty? vertex) =
        ((graph.vertices[vertex]?).map (Vertex.spell catalog)).bind
          (·.properties key) := by
    cases known : catalog.property? key <;>
      cases found : graph.vertices[vertex]? <;>
      simp [Graph.vertexProperty?, Vertex.spell, Properties.spell, known, found]
  rw [spelled, spelled, agrees.vertex]

theorem edgeProperty?
    (agrees : graph.AgreesWith catalog other another)
    (id : EdgeId)
    (key : String) :
    (catalog.property? key).bind (graph.edgeProperty? id) =
      (another.property? key).bind (other.edgeProperty? id) := by
  have spelled (graph : Graph) (catalog : Catalog) :
      (catalog.property? key).bind (graph.edgeProperty? id) =
        ((graph.edge? id).map fun found => found.2.spell catalog).bind
          (·.properties key) := by
    cases known : catalog.property? key <;> cases found : graph.edge? id <;>
      simp [Graph.edgeProperty?, Edge.spell, Properties.spell, known, found]
  have same : (graph.edge? id).map (fun found => found.2.spell catalog) =
      (other.edge? id).map fun found => found.2.spell another := by
    cases found : graph.edge? id with
    | some entry =>
        obtain ⟨counterpart, image, _, present, same⟩ :=
          agrees.exists_edge? found
        rw [present, Option.map_some, Option.map_some, same]
    | none =>
        cases present : other.edge? id with
        | none => rfl
        | some entry =>
            obtain ⟨link, edge, _, again, _⟩ := agrees.symm.exists_edge? present
            rw [found] at again
            cases again
  rw [spelled, spelled, same]

/-- A reference has the same value on both sides, whatever the numbers of the
key are. -/
theorem valueOf?_eq
    (agrees : graph.AgreesWith catalog other another)
    (pattern : Pattern)
    (assigned : String → VertexId)
    (edges : List EdgeId)
    (reference : PropertyReference) :
    pattern.valueOf? catalog graph assigned edges reference =
      pattern.valueOf? another other assigned edges reference := by
  -- The element that a reference names does not depend on the number of its
  -- key.
  have split (graph : Graph) (catalog : Catalog) :
      pattern.valueOf? catalog graph assigned edges reference =
        if reference.element ∈ pattern.variableNames then
          (catalog.property? reference.key).bind
            (graph.vertexProperty? (assigned reference.element))
        else
          (pattern.relationNames.idxOf? reference.element).bind fun index =>
            (edges[index]?).bind fun id =>
              (catalog.property? reference.key).bind
                (graph.edgeProperty? id) := by
    unfold Pattern.valueOf? Catalog.property?
    cases catalog.properties.number? reference.key <;> simp
  simp only [split, agrees.vertexProperty?, agrees.edgeProperty?]

/-! ### Matches -/

/-- An edge that joins the ends of a relation does so on the other side. -/
theorem joins
    (agrees : graph.AgreesWith catalog other another)
    {relation : Relation}
    {version : Version}
    {assigned : String → VertexId}
    {id : EdgeId}
    (joins : relation.Joins catalog graph version assigned id) :
    relation.Joins another other version assigned id := by
  obtain ⟨link, edge, found, visible, source, target, typed⟩ := joins
  obtain ⟨counterpart, image, corresponds, present, same⟩ :=
    agrees.exists_edge? found
  have history : edge.history = image.history :=
    congrArg SpelledEdge.history same
  refine ⟨counterpart, image, present, history ▸ visible, ?_, ?_,
    fun name given => ?_⟩
  · exact corresponds.ends.1.trans source
  · exact corresponds.ends.2.trans target
  · exact corresponds.numbers (typed name given)

theorem hasNamedType
    (agrees : graph.AgreesWith catalog other another)
    {vertex : VertexId}
    {name : String}
    (typed : graph.HasNamedType catalog vertex name) :
    other.HasNamedType another vertex name := by
  obtain ⟨type, known, numbers⟩ := typed
  obtain ⟨stored, found, rfl⟩ := Option.map_eq_some_iff.mp known
  have spelled := agrees.vertex vertex
  rw [found] at spelled
  obtain ⟨image, present, same⟩ := Option.map_eq_some_iff.mp spelled.symm
  obtain ⟨given, numbersGiven⟩ :=
    (agrees.there.known.vertices vertex image present).1
  have here : catalog.typeName? stored.type = some name :=
    getElem?_of_idxOf? numbers
  have there : another.typeName? image.type = some given :=
    getElem?_of_idxOf? numbersGiven
  have sameType :
      another.typeName? image.type = catalog.typeName? stored.type :=
    congrArg SpelledVertex.type same
  rw [here, there] at sameType
  cases sameType
  exact ⟨image.type, by rw [vertexType?, present, Option.map_some],
    numbersGiven⟩

/-- What matches a pattern on one side matches it on the other. -/
theorem transfers
    (agrees : graph.AgreesWith catalog other another)
    {pattern : Pattern}
    {reading : Nat → Version}
    {assigned : String → VertexId}
    {edges : List EdgeId}
    (found : pattern.Matches catalog graph reading assigned edges) :
    pattern.Matches another other reading assigned edges where
  joins := found.joins.imp fun _ _ joins => agrees.joins joins
  types name declared type given :=
    agrees.hasNamedType (found.types name declared type given)
  predicates predicate member := by
    have same : pattern.valueOf? another other assigned edges =
        pattern.valueOf? catalog graph assigned edges :=
      funext fun reference =>
        (agrees.valueOf?_eq pattern assigned edges reference).symm
    rw [same]
    exact found.predicates predicate member

/-- A pattern has the same matches in graphs that agree. -/
theorem yields_iff
    (agrees : graph.AgreesWith catalog other another)
    {pattern : Pattern}
    {reading : Nat → Version}
    {row : Row} :
    pattern.Yields catalog graph reading row ↔
      pattern.Yields another other reading row := by
  constructor
  · rintro ⟨assigned, vertices, found⟩
    exact ⟨assigned, vertices, agrees.transfers found⟩
  · rintro ⟨assigned, vertices, found⟩
    exact ⟨assigned, vertices, agrees.symm.transfers found⟩

end Graph.AgreesWith

end DeltaGraph

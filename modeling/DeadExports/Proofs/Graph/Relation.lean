import DeadExports.Proofs.Graph.Links
import Mathlib.Data.Finset.Card
import Mathlib.Data.Finset.Insert

set_option autoImplicit false

namespace DeadExports

def Link.triple (link : Link) :
    List Part × List Part × LinkKind := (link.source.parts, link.target.parts, link.kind)

namespace ModuleGraph

inductive Call where
  | addModule (path : Path)
  | addLink (source target : Path) (kind : LinkKind)
  | clear (path : Path)

namespace Call

def run (graph : ModuleGraph) : Call → ModuleGraph
  | addModule path => graph.addModule path
  | addLink source target kind => graph.addLink source target kind
  | clear path => graph.clearDependencies path

def relate (relation : Finset (List Part × List Part × LinkKind)) :
    Call → Finset (List Part × List Part × LinkKind)
  | addModule _ => relation
  | addLink source target kind => insert (source.parts, target.parts, kind) relation
  | clear path => relation.filter fun triple => triple.1 ≠ path.parts

def names : Call → List (List Part)
  | addModule path => [path.parts]
  | addLink source target _ => [source.parts, target.parts]
  | clear _ => []

end Call

def replay (calls : List Call) : ModuleGraph := calls.foldl Call.run empty

def relation (calls : List Call) :
    Finset (List Part × List Part × LinkKind) := calls.foldl Call.relate ∅

def known (calls : List Call) : Finset (List Part) := (calls.flatMap Call.names).toFinset

structure Holds (graph : ModuleGraph) (relation : Finset (List Part × List Part × LinkKind))
    (known : Finset (List Part)) :
    Prop where
  modulesOnce : (graph.modules.map Path.parts).Nodup
  modules : ∀ parts, parts ∈ graph.modules.map Path.parts ↔ parts ∈ known
  linksOnce : (graph.links.map Link.triple).Nodup
  links : ∀ triple, triple ∈ graph.links.map Link.triple ↔ triple ∈ relation
  ends : ∀ triple ∈ relation, triple.1 ∈ known ∧ triple.2.1 ∈ known

variable {graph : ModuleGraph} {relation : Finset (List Part × List Part × LinkKind)}
    {known : Finset (List Part)}

theorem Holds.empty : ModuleGraph.empty.Holds ∅ ∅ where
  modulesOnce := List.nodup_nil
  modules := fun _ => by simp [ModuleGraph.empty]
  linksOnce := List.nodup_nil
  links := fun _ => by simp [ModuleGraph.empty]
  ends := fun _ member => absurd member (Finset.notMem_empty _)

namespace Holds

theorem contains_iff_known (holds : graph.Holds relation known) (path : Path) :
    graph.contains path = true ↔ path.parts ∈ known := by
  rw [contains_iff, ← holds.modules, List.mem_map]

theorem addModule (holds : graph.Holds relation known) (path : Path) :
    (graph.addModule path).Holds relation (insert path.parts known) := by
  rw [ModuleGraph.addModule]
  split
  next held =>
      rw [holds.contains_iff_known] at held
      rwa [Finset.insert_eq_of_mem held]
  next fresh =>
      rw [holds.contains_iff_known, ← holds.modules] at fresh
      exact {
        modulesOnce := by
          rw [List.map_append, List.map_singleton]
          exact holds.modulesOnce.append (List.nodup_singleton _)
            (List.disjoint_singleton.mpr fresh)
        modules := fun parts => by
          rw [List.map_append, List.map_singleton, List.mem_append, List.mem_singleton,
            holds.modules, Finset.mem_insert, or_comm]
        linksOnce := holds.linksOnce
        links := holds.links
        ends := fun triple member =>
          ⟨Finset.mem_insert_of_mem (holds.ends triple member).1, Finset.mem_insert_of_mem
            (holds.ends triple member).2⟩ }

theorem addLink (holds : graph.Holds relation known) (source target : Path) (kind : LinkKind) :
    (graph.addLink source target kind).Holds (insert (source.parts, target.parts, kind) relation)
      (insert target.parts (insert source.parts known)) := by
  have ready := (holds.addModule source).addModule target
  have ends : ∀ triple ∈ insert (source.parts, target.parts, kind) relation,
      triple.1 ∈ insert target.parts (insert source.parts known) ∧
        triple.2.1 ∈ insert target.parts (insert source.parts known) := by
    intro triple member
    rcases Finset.mem_insert.mp member with rfl | old
    · simp
    · exact ready.ends triple old
  have listed (link : Link) : (⟨source, target, kind⟩ : Link).same link = true ↔
      link.triple = (source.parts, target.parts, kind) := by
    rw [link_same_iff, Link.triple, Prod.mk.injEq, Prod.mk.injEq, eq_comm, @eq_comm _ target.parts,
      @eq_comm _ kind]
  rw [ModuleGraph.addLink]
  split
  next held =>
      obtain ⟨link, member, same⟩ := List.any_eq_true.mp held
      have old : (source.parts, target.parts, kind) ∈ relation :=
        (ready.links _).mp (List.mem_map.mpr ⟨link, member, (listed link).mp same⟩)
      rw [Finset.insert_eq_of_mem old] at ends ⊢
      exact ready
  next fresh =>
      have new : (source.parts, target.parts, kind) ∉ ((graph.addModule source).addModule
          target).links.map Link.triple := by
        intro member
        obtain ⟨link, among, same⟩ := List.mem_map.mp member
        exact fresh (List.any_eq_true.mpr ⟨link, among, (listed link).mpr same⟩)
      exact {
        modulesOnce := ready.modulesOnce
        modules := ready.modules
        linksOnce := by
          rw [List.map_append, List.map_singleton]
          exact ready.linksOnce.append (List.nodup_singleton _) (List.disjoint_singleton.mpr new)
        links := fun triple => by
          rw [List.map_append, List.map_singleton, List.mem_append, List.mem_singleton, ready.links,
            Finset.mem_insert, or_comm]
          rfl
        ends := ends }

theorem clear (holds : graph.Holds relation known) (path : Path) :
    (graph.clearDependencies path).Holds (relation.filter fun triple => triple.1 ≠ path.parts)
      known := by
  have left := (clear_links graph path).map Link.triple
  have sublist : ((graph.links.filter fun link => !(link.source == path)).map Link.triple).Sublist
      (graph.links.map Link.triple) :=
    List.filter_sublist.map Link.triple
  exact {
    modulesOnce := holds.modulesOnce
    modules := holds.modules
    linksOnce := left.nodup_iff.mpr (holds.linksOnce.sublist sublist)
    links := fun triple => by
      rw [left.mem_iff, Finset.mem_filter, ← holds.links, List.mem_map, List.mem_map]
      constructor
      · rintro ⟨link, member, rfl⟩
        obtain ⟨old, stays⟩ := List.mem_filter.mp member
        exact ⟨⟨link, old, rfl⟩, by simpa [Path.same_eq_decide, Link.triple] using stays⟩
      · rintro ⟨⟨link, old, rfl⟩, stays⟩
        exact ⟨link, List.mem_filter.mpr
          ⟨old, by simpa [Path.same_eq_decide, Link.triple] using stays⟩, rfl⟩
    ends := fun triple member => holds.ends triple (Finset.mem_of_mem_filter triple member) }

theorem run (holds : graph.Holds relation known) (call : Call) :
    (call.run graph).Holds (call.relate relation) (known ∪ call.names.toFinset) := by
  cases call with
  | addModule path =>
      have named : known ∪ (Call.addModule path).names.toFinset = insert path.parts known := by
        ext parts
        simp [Call.names, or_comm]
      exact named ▸ holds.addModule path
  | addLink source target kind =>
      have named : known ∪ (Call.addLink source target kind).names.toFinset =
          insert target.parts (insert source.parts known) := by
        ext parts
        simp [Call.names, or_comm, or_assoc, or_left_comm]
      exact named ▸ holds.addLink source target kind
  | clear path =>
      rw [show known ∪ (Call.clear path).names.toFinset = known from Finset.union_empty known]
      exact holds.clear path

end Holds

theorem replay_holds (calls : List Call) :
    (replay calls).Holds (ModuleGraph.relation calls) (ModuleGraph.known calls) := by
  induction calls using List.reverseRecOn with
  | nil => exact .empty
  | append_singleton calls call ih =>
      have named : ModuleGraph.known (calls ++ [call]) = ModuleGraph.known calls ∪
          call.names.toFinset := by
        simp [ModuleGraph.known, List.toFinset_append]
      rw [replay, ModuleGraph.relation, List.foldl_append, List.foldl_append, named]
      exact ih.run call

theorem by_path_view (graph : ModuleGraph) (links : List Link) (other : Link → Path) :
    ((byPath (links.map fun link => (graph.spelled (other link), link.kind))).map fun entry =>
      (entry.1.parts, entry.2)).Perm
      (links.map fun link => ((other link).parts, link.kind)) := by
  refine ((List.mergeSort_perm _ _).map _).trans (.of_eq ?_)
  rw [List.map_map]
  refine List.map_congr_left fun link _ => ?_
  exact congrArg (·, link.kind) (spelled_parts graph (other link))

structure Lists (entries : List (Path × LinkKind)) (holds : List Part → LinkKind → Prop) :
    Prop where
  once : (entries.map fun entry => (entry.1.parts, entry.2)).Nodup
  exactly : ∀ parts kind, (parts, kind) ∈ (entries.map fun entry => (entry.1.parts, entry.2)) ↔
      holds parts kind
  sorted : entries.Pairwise fun a b => a.1.atMost b.1 = true

theorem Holds.lists (holds : graph.Holds relation known) (path : Path) (here other : Link → Path)
    (triple : List Part → LinkKind → List Part × List Part × LinkKind)
    (tells : ∀ link parts kind, link.triple = triple parts kind ↔
      (here link).parts = path.parts ∧ (other link).parts = parts ∧ link.kind = kind) :
    Lists (byPath ((graph.links.filter fun link => here link == path).map fun link =>
      (graph.spelled (other link), link.kind)))
      fun parts kind => triple parts kind ∈ relation := by
  have view := by_path_view graph (graph.links.filter fun link => here link == path) other
  refine ⟨?_, fun parts kind => ?_, by_path_sorted _⟩
  · refine view.nodup_iff.mpr (List.pairwise_map.mpr ?_)
    refine ((List.pairwise_map.mp holds.linksOnce).filter _).imp_of_mem ?_
    intro a b inA inB apart same
    obtain ⟨parts, kinds⟩ := Prod.mk.inj same
    have first := (Path.same_iff _ _).mp (List.mem_filter.mp inA).2
    have second := (Path.same_iff _ _).mp (List.mem_filter.mp inB).2
    exact apart (((tells a _ _).mpr ⟨first, rfl, rfl⟩).trans
      ((tells b _ _).mpr ⟨second, parts.symm, kinds.symm⟩).symm)
  · rw [view.mem_iff, ← holds.links, List.mem_map, List.mem_map]
    simp only [List.mem_filter, Path.same_iff, tells, Prod.mk.injEq, and_assoc]

theorem Holds.importers (holds : graph.Holds relation known) (path : Path) :
    Lists (graph.importers path) fun parts kind => (parts, path.parts, kind) ∈ relation :=
  holds.lists path Link.target Link.source (fun parts kind => (parts, path.parts, kind))
      fun link parts kind => by
    rw [Link.triple, Prod.mk.injEq, Prod.mk.injEq]
    exact and_left_comm

theorem Holds.dependencies (holds : graph.Holds relation known) (path : Path) :
    Lists (graph.dependencies path) fun parts kind => (path.parts, parts, kind) ∈ relation :=
  holds.lists path Link.source Link.target (fun parts kind => (path.parts, parts, kind))
      fun link parts kind => by
    rw [Link.triple, Prod.mk.injEq, Prod.mk.injEq]

theorem Holds.edge_count (holds : graph.Holds relation known) :
    graph.edgeCount = relation.card := by
  have all : (graph.links.map Link.triple).toFinset = relation := by
    ext triple
    rw [List.mem_toFinset, holds.links]
  rw [← all, List.toFinset_card_of_nodup holds.linksOnce, List.length_map, edgeCount]

theorem Holds.node_count (holds : graph.Holds relation known) : graph.nodeCount = known.card := by
  have all : (graph.modules.map Path.parts).toFinset = known := by
    ext parts
    rw [List.mem_toFinset, holds.modules]
  rw [← all, List.toFinset_card_of_nodup holds.modulesOnce, List.length_map, nodeCount]

end ModuleGraph
end DeadExports

import DeadExports.Proofs.Closure
import DeadExports.Proofs.Graph.Relation
import Mathlib.Logic.Relation

set_option autoImplicit false

namespace DeadExports.ModuleGraph

def Leads (relation : Finset (List Part × List Part × LinkKind)) (source target : List Part) :
    Prop :=
  ∃ kind, (source, target, kind) ∈ relation

abbrev Walk (relation : Finset (List Part × List Part × LinkKind)) : List Part → List Part → Prop :=
  Relation.TransGen (Leads relation)

theorem contains_parts (paths : List Path) (path : Path) :
    paths.contains path = true ↔ path.parts ∈ paths.map Path.parts := by
  rw [List.contains_iff_exists_mem_beq, List.mem_map]
  simp only [Path.same_iff, @eq_comm _ path.parts]

variable {graph : ModuleGraph} {relation : Finset (List Part × List Part × LinkKind)}
    {known : Finset (List Part)}

theorem walk_known (holds : graph.Holds relation known) (source target : List Part)
    (walk : Walk relation source target) :
    source ∈ known ∧ target ∈ known := by
  induction walk with
  | single leads =>
      obtain ⟨kind, member⟩ := leads
      exact holds.ends _ member
  | tail _ leads ih =>
      obtain ⟨kind, member⟩ := leads
      exact ⟨ih.1, (holds.ends _ member).2⟩

theorem successors_iff (holds : graph.Holds relation known) (path : Path) (target : List Part) :
    target ∈ (graph.successors path).map Path.parts ↔ Leads relation path.parts target := by
  simp only [successors, Leads, List.mem_map, List.mem_filter, Path.same_iff, ← holds.links,
    Link.triple, Prod.mk.injEq]
  constructor
  · rintro ⟨_, ⟨link, ⟨member, here⟩, rfl⟩, rfl⟩
    exact ⟨link.kind, link, member, here, rfl, rfl⟩
  · rintro ⟨kind, link, member, here, rfl, -⟩
    exact ⟨link.target, ⟨link, ⟨member, here⟩, rfl⟩, rfl⟩

theorem reaches_iff (holds : graph.Holds relation known) (source target : Path) :
    graph.reaches source target = true ↔ Walk relation source.parts target.parts := by
  rw [reaches, contains_parts]
  have inside (path : Path) : ∀ next ∈ graph.successors path,
      graph.modules.contains next = true := by
    intro next member
    rw [contains_parts, holds.modules]
    obtain ⟨kind, link⟩ := (successors_iff holds path next.parts).mp (List.mem_map_of_mem member)
    exact (holds.ends _ link).2
  constructor
  · intro member
    obtain ⟨item, reached, same⟩ := List.mem_map.mp member
    rw [← same]
    refine closure_from_sound graph.successors (fun path => Walk relation source.parts path.parts)
      ?_ _ _ _ ?_
      (fun _ member => absurd member List.not_mem_nil) item reached
    · intro path walk next step
      exact walk.tail ((successors_iff holds path next.parts).mp (List.mem_map_of_mem step))
    · intro next step
      exact .single ((successors_iff holds source next.parts).mp (List.mem_map_of_mem step))
  · obtain ⟨started, closed⟩ := closure_closed graph.successors graph.modules
      (graph.successors source) graph.modules.length
      (Nat.le_refl _) (inside source) fun path _ => inside path
    intro walk
    generalize target.parts = parts at walk
    induction walk with
    | single leads =>
        obtain ⟨next, member, rfl⟩ := List.mem_map.mp ((successors_iff holds source _).mpr leads)
        exact (contains_parts _ next).mp (started next member)
    | tail _ leads ih =>
        obtain ⟨item, reached, rfl⟩ := List.mem_map.mp ih
        obtain ⟨next, member, rfl⟩ := List.mem_map.mp ((successors_iff holds item _).mpr leads)
        exact (contains_parts _ next).mp (closed item reached next member)

def Joined (relation : Finset (List Part × List Part × LinkKind)) (a b : List Part) : Prop :=
  a = b ∨ (Walk relation a b ∧ Walk relation b a)

theorem joined_symm (a b : List Part) (joined : Joined relation a b) : Joined relation b a :=
  joined.imp Eq.symm And.symm

theorem joined_trans (a b c : List Part) (first : Joined relation a b)
    (second : Joined relation b c) : Joined relation a c := by
  rcases first with rfl | ⟨ahead, back⟩
  · exact second
  · rcases second with rfl | ⟨further, home⟩
    · exact .inr ⟨ahead, back⟩
    · exact .inr ⟨ahead.trans further, home.trans back⟩

theorem walks_of_joined (a b : List Part) (circle : Walk relation a a)
    (joined : Joined relation a b) :
    Walk relation a b ∧ Walk relation b a := by
  rcases joined with rfl | walks
  · exact ⟨circle, circle⟩
  · exact walks

theorem component_iff (holds : graph.Holds relation known) (path : Path) (parts : List Part) :
    parts ∈ (graph.componentOf path).map Path.parts ↔ parts ∈ known ∧
    Joined relation path.parts parts := by
  have ahead (other : Path) : (graph.reachable path).contains other = true ↔
      Walk relation path.parts other.parts :=
    reaches_iff holds path other
  rw [componentOf, ((List.mergeSort_perm _ _).map _).mem_iff, ← holds.modules]
  simp only [List.mem_map, List.mem_filter, Bool.or_eq_true, Bool.and_eq_true, Path.same_iff, ahead,
    reaches_iff holds, Joined]
  constructor
  · rintro ⟨other, ⟨member, joined⟩, rfl⟩
    exact ⟨⟨other, member, rfl⟩, joined.imp_left Eq.symm⟩
  · rintro ⟨⟨other, member, rfl⟩, joined⟩
    exact ⟨other, ⟨member, joined.imp_left Eq.symm⟩, rfl⟩

theorem component_once (holds : graph.Holds relation known) (path : Path) :
    ((graph.componentOf path).map Path.parts).Nodup := by
  rw [componentOf, ((List.mergeSort_perm _ _).map _).nodup_iff]
  exact holds.modulesOnce.sublist (List.filter_sublist.map _)

def Apart (a b : List Path) : Prop := ∀ parts ∈ a.map Path.parts, parts ∉ b.map Path.parts

-- What the groups are when some of the modules have been looked at: each is the component of one of
-- these, each of these is in a group, and no module is in two groups.
structure Grouped (graph : ModuleGraph) (seen : List Path) (groups : List (List Path)) : Prop where
  sound : ∀ group ∈ groups, ∃ path ∈ graph.modules, group = graph.componentOf path
  covered : ∀ path ∈ seen, ∃ group ∈ groups, path.parts ∈ group.map Path.parts
  apart : groups.Pairwise Apart

theorem groups_contain (groups : List (List Path)) (path : Path) :
    groups.any (·.contains path) = true ↔ ∃ group ∈ groups, path.parts ∈ group.map Path.parts := by
  simp only [List.any_eq_true, contains_parts]

theorem grouped_next (holds : graph.Holds relation known) (seen : List Path)
    (groups : List (List Path)) (path : Path) (member : path ∈ graph.modules)
    (grouped : graph.Grouped seen groups) :
    graph.Grouped (seen ++ [path])
      (if groups.any (·.contains path) then groups else groups ++ [graph.componentOf path]) := by
  have present : path.parts ∈ known := (holds.modules _).mp (List.mem_map_of_mem member)
  split
  next held =>
      refine ⟨grouped.sound, fun other among => ?_, grouped.apart⟩
      rcases List.mem_append.mp among with earlier | last
      · exact grouped.covered other earlier
      · rw [List.mem_singleton.mp last]
        exact (groups_contain groups path).mp held
  next fresh =>
      rw [groups_contain] at fresh
      refine ⟨fun group among => ?_, fun other among => ?_, ?_⟩
      · rcases List.mem_append.mp among with earlier | last
        · exact grouped.sound group earlier
        · exact ⟨path, member, List.mem_singleton.mp last⟩
      · rcases List.mem_append.mp among with earlier | last
        · obtain ⟨group, listed, inside⟩ := grouped.covered other earlier
          exact ⟨group, List.mem_append_left _ listed, inside⟩
        · rw [List.mem_singleton.mp last]
          exact ⟨graph.componentOf path,
            by simp, (component_iff holds path _).mpr ⟨present, .inl rfl⟩⟩
      · refine List.pairwise_append.mpr ⟨grouped.apart, List.pairwise_singleton _ _, ?_⟩
        intro group listed component last parts inside shared
        rw [List.mem_singleton.mp last] at shared
        obtain ⟨other, -, rfl⟩ := grouped.sound group listed
        have joined := joined_trans _ _ _ ((component_iff holds other parts).mp inside).2
          (joined_symm _ _ ((component_iff holds path parts).mp shared).2)
        exact fresh ⟨_, listed, (component_iff holds other path.parts).mpr ⟨present, joined⟩⟩

theorem grouped_all (holds : graph.Holds relation known) (rest seen : List Path)
    (groups : List (List Path)) (within : rest ⊆ graph.modules)
    (grouped : graph.Grouped seen groups) :
    graph.Grouped (seen ++ rest) (rest.foldl (fun groups path =>
      if groups.any (·.contains path) then groups else groups ++ [graph.componentOf path])
          groups) := by
  induction rest generalizing seen groups with
  | nil => rwa [List.append_nil]
  | cons path rest ih =>
      have next := grouped_next holds seen groups path (within List.mem_cons_self) grouped
      have later := ih (seen ++ [path]) _ (fun _ member => within (List.mem_cons_of_mem _ member))
        next
      rwa [List.append_assoc, List.singleton_append] at later

theorem components_grouped (holds : graph.Holds relation known) :
    graph.Grouped graph.modules graph.components :=
  grouped_all holds graph.modules [] [] (List.Subset.refl _) ⟨nofun, nofun, .nil⟩

theorem has_link_iff (holds : graph.Holds relation known) (source target : Path) :
    graph.hasLink source target = true ↔ Leads relation source.parts target.parts := by
  simp only [hasLink, Leads, List.any_eq_true, Bool.and_eq_true, Path.same_iff, ← holds.links,
    List.mem_map, Link.triple, Prod.mk.injEq]
  constructor
  · rintro ⟨link, member, first, second⟩
    exact ⟨link.kind, link, member, first, second, rfl⟩
  · rintro ⟨kind, link, member, first, second, -⟩
    exact ⟨link, member, first, second⟩

theorem circle_first (parts : List Part) (circle : Walk relation parts parts) :
    ∃ next, Leads relation parts next ∧ Joined relation parts next := by
  obtain ⟨next, leads, back⟩ := Relation.TransGen.head'_iff.mp circle
  rcases Relation.reflTransGen_iff_eq_or_transGen.mp back with same | walk
  · exact ⟨next, leads, .inl same⟩
  · exact ⟨next, leads, .inr ⟨.single leads, walk⟩⟩

-- A group of several modules is always a circle; of one module it is one when the module links to
-- itself, since a longer walk back would bring another module into the group.
theorem is_cycle_iff (holds : graph.Holds relation known) (path : Path)
    (present : path.parts ∈ known) :
    graph.isCycle (graph.componentOf path) = true ↔ Walk relation path.parts path.parts := by
  have own : path.parts ∈ (graph.componentOf path).map Path.parts :=
    (component_iff holds path _).mpr ⟨present, .inl rfl⟩
  have once := component_once holds path
  have inside := component_iff holds path
  generalize graph.componentOf path = group at own once inside
  match group with
  | [] => cases own
  | [only] =>
      obtain same : path.parts = only.parts := List.mem_singleton.mp own
      change graph.hasLink only only = true ↔ _
      rw [has_link_iff holds, ← same]
      constructor
      · exact .single
      · intro circle
        obtain ⟨next, ⟨kind, link⟩, joined⟩ := circle_first _ circle
        obtain rfl : next = path.parts :=
          (List.mem_singleton.mp ((inside next).mpr ⟨(holds.ends _ link).2, joined⟩)).trans
          same.symm
        exact ⟨kind, link⟩
  | first :: second :: rest =>
      have distinct : first.parts ≠ second.parts := fun same =>
        (List.nodup_cons.mp once).1 (same ▸ List.mem_cons_self)
      obtain ⟨other, member, apart⟩ : ∃ other ∈ (first :: second :: rest).map Path.parts,
          path.parts ≠ other := by
        by_cases same : path.parts = first.parts
        · exact ⟨second.parts, by simp, same ▸ distinct⟩
        · exact ⟨first.parts, by simp, same⟩
      have walks := ((inside other).mp member).2.resolve_left apart
      exact ⟨fun _ => walks.1.trans walks.2, fun _ => by simp [isCycle]⟩

theorem cycles_iff (holds : graph.Holds relation known) (group : List Path) :
    group ∈ graph.cycles ↔ group ∈ graph.components ∧
      ∃ path ∈ graph.modules, group = graph.componentOf path ∧
        Walk relation path.parts path.parts := by
  rw [cycles, List.mem_filter, and_congr_right_iff]
  intro listed
  constructor
  · intro circle
    obtain ⟨path, member, rfl⟩ := (components_grouped holds).sound group listed
    have present := (holds.modules _).mp (List.mem_map_of_mem member)
    exact ⟨path, member, rfl, (is_cycle_iff holds path present).mp circle⟩
  · rintro ⟨path, member, rfl, walk⟩
    exact (is_cycle_iff holds path ((holds.modules _).mp (List.mem_map_of_mem member))).mpr walk

theorem cycles_together (holds : graph.Holds relation known) (a b : List Part) :
    (∃ group ∈ graph.cycles, a ∈ group.map Path.parts ∧ b ∈ group.map Path.parts) ↔
    Walk relation a b ∧ Walk relation b a := by
  constructor
  · rintro ⟨group, listed, inA, inB⟩
    obtain ⟨-, path, -, rfl, circle⟩ := (cycles_iff holds group).mp listed
    have first := walks_of_joined _ a circle ((component_iff holds path a).mp inA).2
    have second := walks_of_joined _ b circle ((component_iff holds path b).mp inB).2
    exact ⟨first.2.trans second.1, second.2.trans first.1⟩
  · rintro ⟨ahead, back⟩
    obtain ⟨presentA, presentB⟩ := walk_known holds a b ahead
    obtain ⟨module, member, rfl⟩ := List.mem_map.mp ((holds.modules a).mpr presentA)
    obtain ⟨group, listed, inA⟩ := (components_grouped holds).covered module member
    obtain ⟨path, among, rfl⟩ := (components_grouped holds).sound group listed
    have joined := ((component_iff holds path _).mp inA).2
    have inB := (component_iff holds path b).mpr
      ⟨presentB, joined_trans _ _ _ joined (.inr ⟨ahead, back⟩)⟩
    have circle : Walk relation path.parts path.parts := by
      rcases joined with same | ⟨there, home⟩
      · rw [same]
        exact ahead.trans back
      · exact there.trans home
    exact ⟨_, (cycles_iff holds _).mpr ⟨listed, path, among, rfl, circle⟩, inA, inB⟩

theorem has_cycles_iff (holds : graph.Holds relation known) :
    graph.hasCycles = true ↔ graph.cycles ≠ [] := by
  rw [hasCycles, List.any_eq_true]
  constructor
  · rintro ⟨path, member, circle⟩
    rw [reaches_iff holds] at circle
    obtain ⟨group, listed, -⟩ := (cycles_together holds path.parts path.parts).mpr ⟨circle, circle⟩
    exact List.ne_nil_of_mem listed
  · intro some
    obtain ⟨group, listed⟩ := List.exists_mem_of_ne_nil _ some
    obtain ⟨-, path, member, -, circle⟩ := (cycles_iff holds group).mp listed
    exact ⟨path, member, (reaches_iff holds path path).mpr circle⟩

structure Shows (graph : ModuleGraph) (relation : Finset (List Part × List Part × LinkKind))
    (known : Finset (List Part)) :
    Prop where
  -- The neighbours of a module are those of the relation, each once and in the order of their
  -- paths.
  importers : ∀ path : Path, Lists (graph.importers path) fun parts kind =>
    (parts, path.parts, kind) ∈ relation
  dependencies : ∀ path : Path, Lists (graph.dependencies path) fun parts kind =>
    (path.parts, parts, kind) ∈ relation
  edges : graph.edgeCount = relation.card
  -- No module is lost or there twice.
  nodes : graph.nodeCount = known.card
  contains : ∀ path : Path, graph.contains path = true ↔ path.parts ∈ known
  once : (graph.modules.map Path.parts).Nodup
  -- The groups are made of the modules that walks come back to, each with those it reaches and is
  -- reached from.
  inCycle : ∀ parts, (∃ group ∈ graph.cycles, parts ∈ group.map Path.parts) ↔
      Walk relation parts parts
  together : ∀ a b, (∃ group ∈ graph.cycles, a ∈ group.map Path.parts ∧ b ∈ group.map Path.parts) ↔
    Walk relation a b ∧ Walk relation b a
  apart : graph.cycles.Pairwise Apart
  inGroupOnce : ∀ group ∈ graph.cycles, (group.map Path.parts).Nodup
  hasCycles : graph.hasCycles = true ↔ graph.cycles ≠ []

theorem replay_shows (calls : List Call) :
    (replay calls).Shows (ModuleGraph.relation calls) (ModuleGraph.known calls) := by
  have holds := replay_holds calls
  exact {
    importers := holds.importers
    dependencies := holds.dependencies
    edges := holds.edge_count
    nodes := holds.node_count
    contains := holds.contains_iff_known
    once := holds.modulesOnce
    inCycle := fun parts => by simpa only [and_self] using cycles_together holds parts parts
    together := cycles_together holds
    apart := (components_grouped holds).apart.filter _
    inGroupOnce := fun group listed => by
      obtain ⟨-, path, -, rfl, -⟩ := (cycles_iff holds group).mp listed
      exact component_once holds path
    hasCycles := has_cycles_iff holds }

end DeadExports.ModuleGraph

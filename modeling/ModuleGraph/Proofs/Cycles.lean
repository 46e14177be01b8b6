import Mathlib.Data.List.Chain
import Mathlib.Logic.Relation
import ModuleGraph.Proofs.LoadOrder

/-!
# Load orders and cycles

**Theorem (`loadOrder_ofCalls`).** A graph that was put together by adding modules and requirements
in any way has a load order exactly if its requirements form no cycle. The order lists every module
once, after those it requires, and for each number of seeds it begins with the modules that those
seeds lead to. A failure names the modules along a cycle without repetition.

Three facts about the search give this:

* requirements lead along the path of a search from each module to the next one (`Trail`), so a
  requirement that leads back to the path closes a walk (`ends_visit_walk`);
* a search adds to the front of the list, and only what its module leads to (`ends_visit_adds`);
* what is listed is resolved, so with a module everything it leads to is listed
  (`Resolved.mem_of_reaches`).
-/

namespace ModuleGraph

namespace Graph

variable {graph : Graph} {path listed : List ModuleId} {search : Search} {id x t : ModuleId}

/-- A module requires another one. -/
def Edge (graph : Graph) (x t : ModuleId) : Prop :=
  t ∈ graph.requires x

/-- Requirements lead from one module to another, or they are the same. -/
def Reaches (graph : Graph) : ModuleId → ModuleId → Prop :=
  Relation.ReflTransGen graph.Edge

/-- No module leads back to itself. -/
def Acyclic (graph : Graph) : Prop :=
  ∀ x, ¬Relation.TransGen graph.Edge x x

/-- Requirements lead from the first module along the others and back to it, without repetition. -/
structure ClosedWalk (graph : Graph) (first : ModuleId) (others : List ModuleId) : Prop where
  nodup : (first :: others).Nodup
  chain : List.IsChain graph.Edge (first :: others ++ [first])

/-- The error names the modules along a closed walk, the first one again at the end. -/
def NamesCycle (graph : Graph) (e : BuildError) : Prop :=
  ∃ first others, graph.ClosedWalk first others ∧
    e = .dependencyCycle ((first :: others ++ [first]).map graph.name)

theorem ClosedWalk.transGen {first : ModuleId} {others : List ModuleId}
    (h : graph.ClosedWalk first others) : Relation.TransGen graph.Edge first first := by
  have hchain : List.IsChain (Relation.TransGen graph.Edge) (first :: (others ++ [first])) :=
    h.chain.imp fun _ _ => .single
  exact (List.pairwise_cons.1 hchain.pairwise).1 first (by simp)

/-! ## The path of a search -/

/-- A path without repetition, the latest module first: each module is required by the one that
follows it. -/
structure Trail (graph : Graph) (path : List ModuleId) : Prop where
  nodup : path.Nodup
  chain : List.IsChain (fun x y => graph.Edge y x) path

theorem trail_singleton (id : ModuleId) : graph.Trail [id] :=
  ⟨List.nodup_singleton id, .singleton id⟩

/-- A path goes on with a module that its latest one requires. -/
theorem Trail.cons (h : graph.Trail (id :: path)) (ht : graph.Edge id t) (hnew : t ∉ id :: path) :
    graph.Trail (t :: id :: path) :=
  ⟨List.nodup_cons.2 ⟨hnew, h.nodup⟩, .cons_cons ht h.chain⟩

/-- A requirement that leads back to the path closes a walk. -/
theorem Trail.namesCycle (h : graph.Trail (id :: path)) (ht : graph.Edge id t)
    (hmem : t ∈ id :: path) :
    graph.NamesCycle (.dependencyCycle (graph.cycleNames (id :: path) t)) := by
  -- the path splits at the module that is met again
  obtain ⟨before, after, hsplit⟩ := List.append_of_mem hmem
  have hnodup : (before ++ t :: after).Nodup := hsplit ▸ h.nodup
  have hafter : ∀ y ∈ after.reverse, (y != t) = true := by
    intro y hy
    have hne : t ∉ after := (List.nodup_cons.1 (List.nodup_append.1 hnodup).2.1).1
    simp only [bne_iff_ne]
    rintro rfl
    exact hne (List.mem_reverse.1 hy)
  have hcycle : (id :: path).reverse.dropWhile (· != t) = t :: before.reverse := by
    rw [hsplit]
    simp only [List.reverse_append, List.reverse_cons, List.append_assoc, List.cons_append,
      List.nil_append]
    rw [List.dropWhile_append_of_pos hafter, List.dropWhile_cons_of_neg (by simp)]
  have hwalk : List.IsChain (fun x y => graph.Edge y x) (t :: (before ++ [t])) := by
    have hchain := h.chain
    rw [hsplit, ← List.singleton_append, ← List.append_assoc] at hchain
    refine List.isChain_cons.2 ⟨fun y hy => ?_, hchain.left_of_append⟩
    -- the first module after `t` is the latest one of the path
    have hhead : (before ++ [t]).head? = some id := by
      have := congrArg List.head? hsplit
      cases before <;> simp_all
    rw [hhead] at hy
    cases hy
    exact ht
  refine ⟨t, before.reverse, ⟨?_, ?_⟩, by rw [cycleNames, hcycle]⟩
  · have hperm : (t :: before.reverse).Perm (before ++ [t]) :=
      (List.perm_append_singleton t before.reverse).symm.trans
        ((List.reverse_perm before).append_right [t])
    rw [hperm.nodup_iff]
    exact hnodup.sublist (by simp)
  · have hreverse : t :: before.reverse ++ [t] = (t :: (before ++ [t])).reverse := by simp
    rw [hreverse, List.isChain_reverse]
    exact hwalk

/-- A search meets more and more modules, or comes upon a cycle. -/
theorem ends_visit_walk :
    ∀ (depth : Nat) {path : List ModuleId} {search : Search} {id : ModuleId},
      graph.Trail (id :: path) → (∀ x ∈ path, x ∈ search.visited) →
      Ends (graph.visit depth path search id)
        (fun search' => ∀ x ∈ search.visited, x ∈ search'.visited) graph.NamesCycle
  | 0, _, _, _, _, _ => fun _ hx => hx
  | depth + 1, path, search, id, htrail, hpath => by
    rw [visit]
    have hinsert : ∀ x, x ∈ search.visited ∨ x = id → x ∈ search.visited.insert id := by
      intro x hx
      rw [Std.TreeSet.mem_insert, Std.LawfulEqCmp.compare_eq_iff_eq]
      exact hx.symm.imp_left Eq.symm
    refine (Ends.foldlM (fun search' => ∀ x, x ∈ search.visited ∨ x = id → x ∈ search'.visited)
      hinsert fun search' hsearch' t ht => ?_).bind fun search' hsearch' x hx => ?_
    · split_ifs with hvisited hmem
      · -- the path has been met, and `t` has not
        have hmet : ∀ x ∈ id :: path, x ∈ search'.visited := by
          intro x hx
          rcases List.mem_cons.1 hx with rfl | hx
          · exact hsearch' x (.inr rfl)
          · exact hsearch' x (.inl (hpath x hx))
        have hnew : t ∉ id :: path := fun hmem => by
          have hcontains := Std.TreeSet.contains_iff_mem.2 (hmet t hmem)
          simp [hcontains] at hvisited
        refine (ends_visit_walk depth (htrail.cons ht hnew) hmet).weaken fun search'' h'' x hx => ?_
        exact h'' x (hsearch' x hx)
      · exact htrail.namesCycle ht (List.contains_iff_mem.1 hmem)
      · exact hsearch'
    · exact hsearch' x (.inl hx)

theorem ends_loadOrder_walk (graph : Graph) (seeds : List ModuleId) :
    Ends (graph.loadOrder seeds) (fun _ => True) graph.NamesCycle := by
  unfold loadOrder
  refine (Ends.foldlM (fun _ => True) trivial fun search _ id _ => ?_).bind fun _ _ => trivial
  unfold visitFrom
  split_ifs
  · trivial
  · exact (ends_visit_walk _ (trail_singleton id) (by simp)).weaken fun _ _ => trivial

/-! ## What a search lists -/

/-- A search adds to the front of the list, and only what its module leads to. -/
theorem ends_visit_adds (graph : Graph) (depth : Nat) (path : List ModuleId) (search : Search)
    (id : ModuleId) :
    Ends (graph.visit depth path search id)
      (fun search' => search.listed <:+ search'.listed ∧
        ∀ x ∈ search'.listed, x ∈ search.listed ∨ graph.Reaches id x)
      (fun _ => True) := by
  induction depth generalizing path search id with
  | zero => exact ⟨List.suffix_rfl, fun _ => .inl⟩
  | succ depth ih =>
    rw [visit]
    refine (Ends.foldlM (fun search' => search.listed <:+ search'.listed ∧
        ∀ x ∈ search'.listed, x ∈ search.listed ∨ graph.Reaches id x)
      ⟨List.suffix_rfl, fun _ => .inl⟩ fun search' hsearch' t ht => ?_).bind ?_
    · split_ifs
      · refine (ih _ search' t).weaken fun search'' hsearch'' => ?_
        refine ⟨hsearch'.1.trans hsearch''.1, fun x hx => ?_⟩
        rcases hsearch''.2 x hx with hx | hx
        · exact hsearch'.2 x hx
        · exact .inr (Relation.ReflTransGen.head ht hx)
      · trivial
      · exact hsearch'
    · rintro search' ⟨hsuffix, hadds⟩
      refine ⟨hsuffix.trans (List.suffix_cons id _), fun x hx => ?_⟩
      rcases List.mem_cons.1 hx with rfl | hx
      · exact .inr .refl
      · exact hadds x hx

theorem ends_visitFrom_adds (graph : Graph) (search : Search) (id : ModuleId) :
    Ends (graph.visitFrom search id)
      (fun search' => search.listed <:+ search'.listed ∧
        ∀ x ∈ search'.listed, x ∈ search.listed ∨ graph.Reaches id x)
      (fun _ => True) := by
  unfold visitFrom
  split_ifs
  · exact ⟨List.suffix_rfl, fun _ => .inl⟩
  · exact graph.ends_visit_adds ..

/-- With a module everything it leads to is listed. -/
theorem Resolved.mem_of_reaches (h : graph.Resolved listed) (hx : x ∈ listed)
    (ht : graph.Reaches x t) : t ∈ listed := by
  induction ht with
  | refl => exact hx
  | tail _ hedge ih =>
    obtain ⟨before, after, hsplit⟩ := List.append_of_mem ih
    rw [hsplit]
    exact List.mem_append_right _ (List.mem_cons_of_mem _ (h.mem_after hsplit hedge))

/-- After a search from some modules, what they lead to is listed behind what was listed before. -/
theorem ends_foldlM_visitFrom (hclosed : graph.Closed) :
    ∀ (starts : List ModuleId) {search : Search}, (∀ x ∈ starts, x ∈ graph.nodes) →
      search.Tracks graph [] →
      Ends (starts.foldlM graph.visitFrom search)
        (fun search' => search'.Tracks graph [] ∧ search.listed <:+ search'.listed ∧
          ∀ x, x ∈ search'.listed ↔ x ∈ search.listed ∨ ∃ s ∈ starts, graph.Reaches s x)
        (fun _ => True)
  | [], search, _, h => ⟨h, List.suffix_rfl, by simp⟩
  | s :: starts, search, hstarts, h => by
    rw [List.foldlM_cons]
    have hs := hstarts s List.mem_cons_self
    have hadds := ends_visitFrom_adds graph search s
    refine (((ends_visitFrom hclosed h hs).mono (fun _ h => h) fun _ _ => trivial).and hadds).bind
      fun search₁ ⟨⟨h₁, hlisted, _⟩, hsuffix₁, hadds₁⟩ => ?_
    refine (ends_foldlM_visitFrom hclosed starts (fun x hx => hstarts x (List.mem_cons_of_mem _ hx))
      h₁).weaken fun search₂ ⟨h₂, hsuffix₂, hmem₂⟩ => ?_
    refine ⟨h₂, hsuffix₁.trans hsuffix₂, fun x => ?_⟩
    have hmem₁ : x ∈ search₁.listed ↔ x ∈ search.listed ∨ graph.Reaches s x := by
      constructor
      · exact hadds₁ x
      · intro hx
        rcases hx with hx | hx
        · exact hsuffix₁.subset hx
        · exact h₁.resolved.mem_of_reaches hlisted hx
    rw [hmem₂, hmem₁, or_assoc, List.exists_mem_cons_iff]

/-- The seeds that are modules of the graph. -/
def known (graph : Graph) (seeds : List ModuleId) : List ModuleId :=
  seeds.filter graph.nodes.contains

theorem mem_nodes_of_known {seeds : List ModuleId} (hx : x ∈ graph.known seeds) :
    x ∈ graph.nodes :=
  Std.TreeMap.contains_iff_mem.1 (List.mem_filter.1 hx).2

/-- The order begins with what the first seeds lead to. -/
theorem ends_loadOrder_seeds (hclosed : graph.Closed) (seeds : List ModuleId) (n : Nat) :
    Ends (graph.loadOrder seeds)
      (fun order => ∃ front rest, order = front ++ rest ∧
        ∀ x, x ∈ front ↔ ∃ s ∈ (graph.known seeds).take n, graph.Reaches s x)
      (fun _ => True) := by
  have hstarts : seeds.filter graph.nodes.contains ++ graph.nodes.keys =
      (graph.known seeds).take n ++ ((graph.known seeds).drop n ++ graph.nodes.keys) := by
    rw [← List.append_assoc, List.take_append_drop]
    rfl
  unfold loadOrder
  dsimp only
  rw [hstarts, List.foldlM_append, bind_assoc]
  refine (ends_foldlM_visitFrom hclosed _ (fun x hx => mem_nodes_of_known (List.mem_of_mem_take hx))
    (tracks_empty graph)).bind fun search₁ ⟨h₁, _, hmem₁⟩ => ?_
  refine (ends_foldlM_visitFrom hclosed _ (fun x hx => ?_) h₁).bind
    fun search₂ ⟨_, hsuffix, _⟩ => ?_
  · rcases List.mem_append.1 hx with hx | hx
    · exact mem_nodes_of_known (List.mem_of_mem_drop hx)
    · exact Std.TreeMap.mem_keys.1 hx
  · obtain ⟨later, hlater⟩ := hsuffix
    refine ⟨search₁.listed.reverse, later.reverse, ?_, fun x => ?_⟩
    · rw [← hlater, List.reverse_append]
    · rw [List.mem_reverse, hmem₁]
      simp

/-! ## The order -/

/-- The order lists every module once, after those it requires, and for each number of seeds it
begins with the modules that those seeds lead to. -/
structure Lists (graph : Graph) (seeds order : List ModuleId) : Prop where
  perm : order.Perm graph.nodes.keys
  after : ∀ {before x rest}, order = before ++ x :: rest → ∀ {t}, graph.Edge x t → t ∈ before
  seeded : ∀ n, ∃ front rest, order = front ++ rest ∧
    ∀ x, x ∈ front ↔ ∃ s ∈ (graph.known seeds).take n, graph.Reaches s x

theorem ends_loadOrder_lists (hclosed : graph.Closed) (seeds : List ModuleId) :
    Ends (graph.loadOrder seeds) (graph.Lists seeds) graph.NamesCycle := by
  have hwalk := ends_loadOrder_walk graph seeds
  have horder := ends_loadOrder hclosed seeds
  cases hresult : graph.loadOrder seeds with
  | error e => exact hwalk.of_error hresult
  | ok order =>
    obtain ⟨hperm, hresolved⟩ := horder.of_ok hresult
    refine ⟨hperm, fun {before x rest} hsplit t ht => ?_,
      fun n => (ends_loadOrder_seeds hclosed seeds n).of_ok hresult⟩
    have hreverse : order.reverse = rest.reverse ++ x :: before.reverse := by simp [hsplit]
    exact List.mem_reverse.1 (hresolved.mem_after hreverse ht)

theorem Ranked.lt_of_transGen {rank : ModuleId → Nat} (h : graph.Ranked rank)
    (hpath : Relation.TransGen graph.Edge x t) : rank t < rank x := by
  induction hpath with
  | single hedge => exact h _ _ hedge
  | tail _ hedge ih => exact (h _ _ hedge).trans ih

/-- There is an order exactly if there is no cycle. -/
theorem exists_loadOrder_iff_acyclic (hclosed : graph.Closed) (seeds : List ModuleId) :
    (∃ order, graph.loadOrder seeds = .ok order) ↔ graph.Acyclic := by
  constructor
  · intro hex x hpath
    obtain ⟨rank, hrank⟩ := (exists_loadOrder_iff hclosed seeds).1 hex
    exact Nat.lt_irrefl _ (hrank.lt_of_transGen hpath)
  · intro hacyclic
    cases hresult : graph.loadOrder seeds with
    | ok order => exact ⟨order, rfl⟩
    | error e =>
      obtain ⟨first, others, hwalk, -⟩ := (ends_loadOrder_walk graph seeds).of_error hresult
      exact absurd hwalk.transGen (hacyclic first)

/-! ## Graphs put together by calls -/

/-- A call that adds to a graph. -/
inductive Call where
  | addModule (id : ModuleId) (name : String)
  | addRequirement (source target : ModuleId)
deriving DecidableEq, Repr

/-- The graph after a call. -/
def perform (graph : Graph) : Call → Graph
  | .addModule id name => graph.addModule id name
  | .addRequirement source target => graph.addRequirement source target

/-- The graph that calls make out of the empty one. -/
def ofCalls (calls : List Call) : Graph :=
  calls.foldl perform {}

/-- A requirement with an end that is not in the graph is dropped. -/
theorem addRequirement_of_not_mem {source target : ModuleId}
    (h : ¬(source ∈ graph.nodes ∧ target ∈ graph.nodes)) :
    graph.addRequirement source target = graph := by
  unfold addRequirement
  by_cases htarget : target ∈ graph.nodes
  · have hsource : graph.nodes[source]? = none :=
      Std.TreeMap.getElem?_eq_none fun hsource => h ⟨hsource, htarget⟩
    rw [hsource, ite_self]
  · have hcontains : graph.nodes.contains target = false := by
      rw [← Bool.not_eq_true, Std.TreeMap.contains_iff_mem]
      exact htarget
    simp [hcontains]

theorem Closed.perform (h : graph.Closed) (call : Call) : (graph.perform call).Closed := by
  cases call with
  | addModule id name =>
    intro x t ht
    rw [Graph.perform, requires_addModule] at ht
    exact (mem_nodes_addModule ..).2 (.inl (h x t ht))
  | addRequirement source target =>
    by_cases hends : source ∈ graph.nodes ∧ target ∈ graph.nodes
    · intro x t ht
      rw [Graph.perform, mem_requires_addRequirement hends.1 hends.2] at ht
      refine (mem_nodes_addRequirement ..).2 ?_
      rcases ht with ht | ⟨-, rfl⟩
      · exact h x t ht
      · exact hends.2
    · rw [Graph.perform, addRequirement_of_not_mem hends]
      exact h

theorem closed_ofCalls (calls : List Call) : (ofCalls calls).Closed :=
  List.foldlRecOn (motive := Closed) calls _ (fun x t ht => by simp [requires] at ht)
    fun _ h call _ => h.perform call

/-- Whatever the calls and the seeds: there is an order exactly if the recorded requirements form no
cycle, it lists the modules as `Lists` says, and a failure names the modules along a closed walk. -/
theorem loadOrder_ofCalls (calls : List Call) (seeds : List ModuleId) :
    ((∃ order, (ofCalls calls).loadOrder seeds = .ok order) ↔ (ofCalls calls).Acyclic) ∧
      Ends ((ofCalls calls).loadOrder seeds) ((ofCalls calls).Lists seeds)
        (ofCalls calls).NamesCycle :=
  ⟨exists_loadOrder_iff_acyclic (closed_ofCalls calls) seeds,
    ends_loadOrder_lists (closed_ofCalls calls) seeds⟩

/-- A module that requires itself is a cycle. -/
example : (ofCalls [.addModule 0 "app", .addRequirement 0 0]).loadOrder [] =
    .error (.dependencyCycle ["app", "app"]) := by
  decide +kernel

end Graph

end ModuleGraph

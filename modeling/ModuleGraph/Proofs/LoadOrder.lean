import Mathlib.Data.List.Perm.Subperm
import ModuleGraph.LoadOrder
import ModuleGraph.Proofs.Ends
import ModuleGraph.Proofs.TreeMap

/-!
# The load order lists every module after those it requires

The modules that a search has met are those that it has listed and those on its path
(`Graph.Search.Tracks`). A module is listed only when all of its requirements are, so a list grows
that is resolved from its end (`Graph.Resolved`). A search never gets deeper than there are modules,
since its path has no repetition, so the bound on the depth is never reached.

* `Graph.ends_visit`: one search.
* `Graph.ends_loadOrder`: the order is a rearrangement of the modules, resolved from its start.
* `Graph.exists_loadOrder_iff`: there is an order exactly if ranks fall along all requirements.
* `Graph.mem_requires_ofInfos`: the requirements in the graph of finished modules.
-/

namespace ModuleGraph

namespace Graph

variable {graph : Graph} {path listed : List ModuleId} {search search' : Search} {id x t : ModuleId}

/-- The error of an impossible order. -/
inductive CycleError : BuildError → Prop where
  | dependencyCycle (names : List String) : CycleError (.dependencyCycle names)

/-- Every requirement leads to a module of the graph. -/
def Closed (graph : Graph) : Prop :=
  ∀ x t, t ∈ graph.requires x → t ∈ graph.nodes

/-- Each module of the list is followed by those it requires. -/
inductive Resolved (graph : Graph) : List ModuleId → Prop where
  | nil : Resolved graph []
  | cons {x : ModuleId} {l : List ModuleId} :
      (∀ t ∈ graph.requires x, t ∈ l) → Resolved graph l → Resolved graph (x :: l)

theorem Resolved.mem_after (h : graph.Resolved listed) {before after : List ModuleId}
    (hsplit : listed = before ++ x :: after) (ht : t ∈ graph.requires x) : t ∈ after := by
  induction h generalizing before with
  | nil => simp at hsplit
  | cons hx _ ih =>
    cases before with
    | nil =>
      cases hsplit
      exact hx t ht
    | cons y before =>
      cases hsplit
      exact ih rfl

/-- What a search has met is what it has listed and what is on its path. -/
structure Search.Tracks (graph : Graph) (path : List ModuleId) (search : Search) : Prop where
  mem_visited : ∀ x, x ∈ search.visited ↔ x ∈ search.listed ∨ x ∈ path
  known : ∀ x, x ∈ search.visited → x ∈ graph.nodes
  nodup_listed : search.listed.Nodup
  nodup_path : path.Nodup
  not_listed : ∀ x ∈ path, x ∉ search.listed
  resolved : graph.Resolved search.listed

/-! ## One search -/

/-- A path has no more modules than the graph. -/
theorem Search.Tracks.length_path (h : search.Tracks graph path) :
    path.length ≤ graph.size := by
  have hsub : path ⊆ graph.nodes.keys := by
    intro x hx
    exact Std.TreeMap.mem_keys.2 (h.known x ((h.mem_visited x).2 (.inr hx)))
  have hlen := (h.nodup_path.subperm hsub).length_le
  rwa [Std.TreeMap.length_keys] at hlen

/-- A search starts on a module that has not been met. -/
theorem Search.Tracks.enter (h : search.Tracks graph path) (hid : id ∈ graph.nodes)
    (hnew : id ∉ search.visited) :
    Search.Tracks graph (id :: path) { search with visited := search.visited.insert id } := by
  have hnot : id ∉ search.listed ∧ id ∉ path := by
    rw [h.mem_visited] at hnew
    exact not_or.1 hnew
  constructor
  · intro x
    dsimp only
    rw [Std.TreeSet.mem_insert, Std.LawfulEqCmp.compare_eq_iff_eq, h.mem_visited, List.mem_cons]
    rw [or_left_comm, eq_comm]
  · intro x hx
    rcases Std.TreeSet.mem_insert.1 hx with heq | hx
    · rw [← Std.LawfulEqCmp.compare_eq_iff_eq.1 heq]
      exact hid
    · exact h.known x hx
  · exact h.nodup_listed
  · exact List.nodup_cons.2 ⟨hnot.2, h.nodup_path⟩
  · intro x hx
    rcases List.mem_cons.1 hx with rfl | hx
    · exact hnot.1
    · exact h.not_listed x hx
  · exact h.resolved

/-- A search ends by listing its module, when all requirements are listed. -/
theorem Search.Tracks.leave (h : search.Tracks graph (id :: path))
    (hrequires : ∀ t ∈ graph.requires id, t ∈ search.listed) :
    Search.Tracks graph path { search with listed := id :: search.listed } := by
  obtain ⟨hnot, hnodup⟩ := List.nodup_cons.1 h.nodup_path
  constructor
  · intro x
    dsimp only
    rw [h.mem_visited, List.mem_cons, List.mem_cons, or_left_comm, or_assoc]
  · exact h.known
  · exact List.nodup_cons.2 ⟨h.not_listed id (List.mem_cons_self ..), h.nodup_listed⟩
  · exact hnodup
  · intro x hx hmem
    rcases List.mem_cons.1 hmem with rfl | hmem
    · exact hnot hx
    · exact h.not_listed x (List.mem_cons_of_mem _ hx) hmem
  · exact .cons hrequires h.resolved

/-- A search lists its module, and keeps what was listed before. -/
theorem ends_visit (hclosed : graph.Closed) :
    ∀ (depth : Nat) {path : List ModuleId} {search : Search} {id : ModuleId},
      search.Tracks graph path → id ∈ graph.nodes → id ∉ search.visited →
      graph.size < depth + path.length →
      Ends (graph.visit depth path search id)
        (fun search' => search'.Tracks graph path ∧ id ∈ search'.listed ∧
          search.listed ⊆ search'.listed)
        CycleError
  | 0, path, search, id, h, _, _, hdepth => by
    have hlen := h.length_path
    omega
  | depth + 1, path, search, id, h, hid, hnew, hdepth => by
    rw [visit]
    refine (Ends.foldlM_prefix (fun done search' => search'.Tracks graph (id :: path) ∧
      (∀ t ∈ done, t ∈ search'.listed) ∧ search.listed ⊆ search'.listed)
      [] (graph.requires id) { search with visited := search.visited.insert id }
      ⟨h.enter hid hnew, by simp, fun x hx => hx⟩
      fun before t after hsplit search' ⟨h', hdone, hkept⟩ => ?_).bind
      fun search' ⟨h', hall, hkept⟩ => ?_
    · have ht : t ∈ graph.nodes := by
        rw [List.nil_append] at hsplit
        exact hclosed id t (by simp [hsplit])
      -- in each case `t` is listed in the end, or closes a cycle
      split_ifs with hvisited hpath
      · have hnew' : t ∉ search'.visited := by
          rw [← Std.TreeSet.contains_iff_mem, Bool.not_eq_true]
          simpa using hvisited
        have hdepth' : graph.size < depth + (id :: path).length := by
          rw [List.length_cons]
          omega
        refine (ends_visit hclosed depth h' ht hnew' hdepth').weaken
          fun search'' ⟨h'', hlisted, hsub⟩ => ⟨h'', fun u hu => ?_, fun x hx => hsub (hkept hx)⟩
        rcases List.mem_append.1 hu with hu | hu
        · exact hsub (hdone u hu)
        · rw [List.mem_singleton.1 hu]
          exact hlisted
      · exact .dependencyCycle _
      · refine ⟨h', fun u hu => ?_, hkept⟩
        rcases List.mem_append.1 hu with hu | hu
        · exact hdone u hu
        · rw [List.mem_singleton.1 hu]
          have hmem : t ∈ search'.visited := by
            rw [← Std.TreeSet.contains_iff_mem]
            simpa using hvisited
          rcases (h'.mem_visited t).1 hmem with hlisted | hmem
          · exact hlisted
          · exact absurd (List.contains_iff_mem.2 hmem) hpath
    · exact ⟨h'.leave hall, List.mem_cons_self .., fun x hx => List.mem_cons_of_mem _ (hkept hx)⟩

/-! ## The order -/

theorem tracks_empty (graph : Graph) : Search.Tracks graph [] {} := by
  constructor
  · simp
  · simp
  · exact List.nodup_nil
  · exact List.nodup_nil
  · simp
  · exact .nil

theorem ends_visitFrom (hclosed : graph.Closed) (h : search.Tracks graph [])
    (hid : id ∈ graph.nodes) :
    Ends (graph.visitFrom search id)
      (fun search' => search'.Tracks graph [] ∧ id ∈ search'.listed ∧
        search.listed ⊆ search'.listed)
      CycleError := by
  unfold visitFrom
  split_ifs with hvisited
  · have hmem := (h.mem_visited id).1 (Std.TreeSet.contains_iff_mem.1 hvisited)
    refine ⟨h, ?_, fun x hx => hx⟩
    simpa using hmem
  · have hnew : id ∉ search.visited := fun hmem =>
      hvisited (Std.TreeSet.contains_iff_mem.2 hmem)
    refine ends_visit hclosed _ h hid hnew ?_
    rw [List.length_nil]
    omega

/-- The order lists the modules of the graph, each once and after those it requires. -/
theorem ends_loadOrder (hclosed : graph.Closed) (seeds : List ModuleId) :
    Ends (graph.loadOrder seeds)
      (fun order => order.Perm graph.nodes.keys ∧ graph.Resolved order.reverse) CycleError := by
  unfold loadOrder
  dsimp only
  have hstart : ∀ x ∈ seeds.filter graph.nodes.contains ++ graph.nodes.keys, x ∈ graph.nodes := by
    intro x hx
    rcases List.mem_append.1 hx with hx | hx
    · exact Std.TreeMap.contains_iff_mem.1 (List.mem_filter.1 hx).2
    · exact Std.TreeMap.mem_keys.1 hx
  have hall : ∀ x ∈ graph.nodes, x ∈ seeds.filter graph.nodes.contains ++ graph.nodes.keys :=
    fun x hx => List.mem_append_right _ (Std.TreeMap.mem_keys.2 hx)
  generalize seeds.filter graph.nodes.contains ++ graph.nodes.keys = starts at *
  refine (Ends.foldlM_prefix (fun done (search : Search) => search.Tracks graph [] ∧
    ∀ x ∈ done, x ∈ search.listed) [] starts {} ⟨tracks_empty graph, by simp⟩
    fun before x after hsplit search ⟨h, hdone⟩ => ?_).bind fun search ⟨h, hlisted⟩ => ?_
  · have hx : x ∈ graph.nodes := by
      rw [List.nil_append] at hsplit
      exact hstart x (by simp [hsplit])
    refine (ends_visitFrom hclosed h hx).weaken
      fun search' ⟨h', hlisted, hsub⟩ => ⟨h', fun y hy => ?_⟩
    rcases List.mem_append.1 hy with hy | hy
    · exact hsub (hdone y hy)
    · rw [List.mem_singleton.1 hy]
      exact hlisted
  · have hmem (x : ModuleId) : x ∈ search.listed ↔ x ∈ graph.nodes.keys := by
      rw [Std.TreeMap.mem_keys]
      constructor
      · intro hx
        exact h.known x ((h.mem_visited x).2 (.inl hx))
      · intro hx
        exact hlisted x (hall x hx)
    have hperm :=
      (List.perm_ext_iff_of_nodup h.nodup_listed (treeMap_keys_nodup graph.nodes)).2 hmem
    refine ⟨(List.reverse_perm _).trans hperm, ?_⟩
    rw [List.reverse_reverse]
    exact h.resolved

/-! ## Graphs that have an order -/

/-- Requirements lead to modules of smaller rank. -/
def Ranked (graph : Graph) (rank : ModuleId → Nat) : Prop :=
  ∀ x t, t ∈ graph.requires x → rank t < rank x

variable {rank : ModuleId → Nat}

theorem mem_nodes_of_requires (h : t ∈ graph.requires x) : x ∈ graph.nodes := by
  unfold requires at h
  cases hx : graph.nodes[x]? with
  | none =>
    rw [hx] at h
    cases h
  | some node => exact treeMap_mem_iff.2 ⟨node, hx⟩

/-- The places in an order are ranks. -/
theorem Resolved.ranked (h : graph.Resolved listed) (hnodup : listed.Nodup)
    (hnodes : ∀ x ∈ graph.nodes, x ∈ listed) : graph.Ranked listed.reverse.idxOf := by
  intro x t ht
  obtain ⟨before, after, hsplit⟩ := List.append_of_mem (hnodes x (mem_nodes_of_requires ht))
  have hmem : t ∈ after.reverse := List.mem_reverse.2 (h.mem_after hsplit ht)
  have hnot : x ∉ after.reverse := by
    rw [hsplit, List.nodup_append, List.nodup_cons] at hnodup
    rw [List.mem_reverse]
    exact hnodup.2.1.1
  have hreverse : listed.reverse = after.reverse ++ x :: before.reverse := by
    rw [hsplit]
    simp
  calc listed.reverse.idxOf t = after.reverse.idxOf t := by
        rw [hreverse, List.idxOf_append_of_mem hmem]
    _ < after.reverse.length := List.idxOf_lt_length_iff.2 hmem
    _ ≤ listed.reverse.idxOf x := by
        rw [hreverse, List.idxOf_append_of_notMem hnot]
        exact Nat.le_add_right ..

/-- Along the path of a search ranks fall, so no requirement leads back to it. -/
theorem Ranked.ends_visit (h : graph.Ranked rank) :
    ∀ (depth : Nat) {path : List ModuleId} {search : Search} {id : ModuleId},
      (∀ y ∈ path, rank id < rank y) →
      Ends (graph.visit depth path search id) (fun _ => True) fun _ => False
  | 0, _, _, _, _ => trivial
  | depth + 1, path, search, id, hpath => by
    rw [visit]
    refine (Ends.foldlM (fun _ => True) trivial fun search' _ t ht => ?_).bind fun _ _ => trivial
    have hbelow : ∀ y ∈ id :: path, rank t < rank y := by
      intro y hy
      have hid := h id t ht
      rcases List.mem_cons.1 hy with rfl | hy
      · exact hid
      · exact Nat.lt_trans hid (hpath y hy)
    split_ifs with hvisited hon
    · exact h.ends_visit depth hbelow
    · exact Nat.lt_irrefl _ (hbelow t (List.contains_iff_mem.1 hon))
    · trivial

theorem Ranked.exists_loadOrder (h : graph.Ranked rank) (seeds : List ModuleId) :
    ∃ order, graph.loadOrder seeds = .ok order := by
  have hends : Ends (graph.loadOrder seeds) (fun _ => True) fun _ => False := by
    unfold loadOrder
    refine (Ends.foldlM (fun _ => True) trivial fun search _ id _ => ?_).bind fun _ _ => trivial
    unfold visitFrom
    split_ifs
    · trivial
    · exact h.ends_visit _ (by simp)
  cases horder : graph.loadOrder seeds with
  | ok order => exact ⟨order, rfl⟩
  | error e => exact (hends.of_error horder).elim

/-- Whatever the seeds, there is an order exactly if there are ranks. -/
theorem exists_loadOrder_iff (hclosed : graph.Closed) (seeds : List ModuleId) :
    (∃ order, graph.loadOrder seeds = .ok order) ↔ ∃ rank, graph.Ranked rank := by
  constructor
  · intro hex
    obtain ⟨order, horder⟩ := hex
    obtain ⟨hperm, hresolved⟩ := (ends_loadOrder hclosed seeds).of_ok horder
    refine ⟨_, hresolved.ranked ?_ fun x hx => ?_⟩
    · exact List.nodup_reverse.2 (hperm.nodup_iff.2 (treeMap_keys_nodup _))
    · rw [List.mem_reverse, hperm.mem_iff, Std.TreeMap.mem_keys]
      exact hx
  · intro hex
    obtain ⟨rank, hrank⟩ := hex
    exact hrank.exists_loadOrder seeds

/-- A graph with fewer requirements keeps the orders. -/
theorem Resolved.of_requires_subset {graph' : Graph} (h : graph.Resolved listed)
    (hsub : ∀ x, graph'.requires x ⊆ graph.requires x) : graph'.Resolved listed := by
  induction h with
  | nil => exact .nil
  | cons hx _ ih => exact .cons (fun t ht => hx t (hsub _ ht)) ih

theorem Ranked.of_requires_subset {graph' : Graph} (h : graph.Ranked rank)
    (hsub : ∀ x, graph'.requires x ⊆ graph.requires x) : graph'.Ranked rank :=
  fun x t ht => h x t (hsub x ht)

/-! ## The graph of finished modules -/

theorem mem_nodes_addModule (graph : Graph) (id : ModuleId) (name : String) (x : ModuleId) :
    x ∈ (graph.addModule id name).nodes ↔ x ∈ graph.nodes ∨ x = id := by
  unfold addModule
  split_ifs with hid
  · rw [Std.TreeMap.contains_iff_mem] at hid
    constructor
    · exact .inl
    · intro hx
      rcases hx with hx | rfl
      · exact hx
      · exact hid
  · show x ∈ graph.nodes.insert id { name } ↔ _
    rw [Std.TreeMap.mem_insert, Std.LawfulEqCmp.compare_eq_iff_eq, or_comm, eq_comm]

theorem requires_addModule (graph : Graph) (id : ModuleId) (name : String) (x : ModuleId) :
    (graph.addModule id name).requires x = graph.requires x := by
  unfold addModule
  split_ifs with hid
  · rfl
  · have hnone : graph.nodes[id]? = none := by
      rw [Std.TreeMap.contains_iff_mem] at hid
      exact Std.TreeMap.getElem?_eq_none hid
    unfold requires
    show ((graph.nodes.insert id { name })[x]?).elim [] _ = _
    rw [treeMap_getElem?_insert]
    split_ifs with hx
    · rw [← hx, hnone]
      rfl
    · rfl

theorem mem_nodes_addRequirement (graph : Graph) (source target x : ModuleId) :
    x ∈ (graph.addRequirement source target).nodes ↔ x ∈ graph.nodes := by
  unfold addRequirement
  split_ifs
  · rfl
  · cases hsource : graph.nodes[source]? with
    | none => rfl
    | some node =>
      dsimp only
      split_ifs
      · rfl
      · have hmem : source ∈ graph.nodes := treeMap_mem_iff.2 ⟨node, hsource⟩
        show x ∈ graph.nodes.insert source _ ↔ _
        rw [Std.TreeMap.mem_insert, Std.LawfulEqCmp.compare_eq_iff_eq]
        constructor
        · intro hx
          rcases hx with rfl | hx
          · exact hmem
          · exact hx
        · exact .inr

theorem mem_requires_addRequirement {source target : ModuleId} (hsource : source ∈ graph.nodes)
    (htarget : target ∈ graph.nodes) :
    t ∈ (graph.addRequirement source target).requires x ↔
      t ∈ graph.requires x ∨ (x = source ∧ t = target) := by
  unfold addRequirement
  obtain ⟨node, hnode⟩ := treeMap_mem_iff.1 hsource
  have hrequires : graph.requires source = node.requires := by
    unfold requires
    rw [hnode]
    rfl
  rw [Std.TreeMap.contains_iff_mem.2 htarget, if_neg (by decide), hnode]
  dsimp only
  split_ifs with hold
  · have hmem : target ∈ graph.requires source := by
      rw [hrequires]
      exact List.contains_iff_mem.1 hold
    constructor
    · exact .inl
    · intro ht
      rcases ht with ht | ⟨rfl, rfl⟩
      · exact ht
      · exact hmem
  · have hget :
        (graph.nodes.insert source { node with requires := node.requires ++ [target] })[x]? =
          if source = x then some { node with requires := node.requires ++ [target] }
          else graph.nodes[x]? := treeMap_getElem?_insert _ _ _ _
    unfold requires
    dsimp only
    rw [hget]
    by_cases hx : source = x
    · subst hx
      rw [if_pos rfl, hnode]
      simp
    · rw [if_neg hx]
      simp [Ne.symm hx]

theorem mem_nodes_addRequirements (deps : List Dependence) (source x : ModuleId) (graph : Graph) :
    x ∈ (deps.foldl (fun graph dep => graph.addRequirement source dep.module) graph).nodes ↔
      x ∈ graph.nodes := by
  induction deps generalizing graph with
  | nil => rfl
  | cons dep deps ih => rw [List.foldl_cons, ih, mem_nodes_addRequirement]

theorem mem_requires_addRequirements {source : ModuleId} {deps : List Dependence} {graph : Graph}
    (hsource : source ∈ graph.nodes) (hdeps : ∀ dep ∈ deps, dep.module ∈ graph.nodes) :
    t ∈ (deps.foldl (fun graph dep => graph.addRequirement source dep.module) graph).requires x ↔
      t ∈ graph.requires x ∨ (x = source ∧ ∃ dep ∈ deps, t = dep.module) := by
  induction deps generalizing graph with
  | nil => simp
  | cons dep deps ih =>
    have hdep := hdeps dep (List.mem_cons_self ..)
    rw [List.foldl_cons, ih ((mem_nodes_addRequirement ..).2 hsource) fun d hd =>
      (mem_nodes_addRequirement ..).2 (hdeps d (List.mem_cons_of_mem _ hd)),
      mem_requires_addRequirement hsource hdep, or_assoc, List.exists_mem_cons_iff, and_or_left]

/-- The requirements of a module that are not optional. -/
def firm (info : ModuleInfo) : List Dependence :=
  info.requires.filter (!·.modifiers.isOptional)

theorem mem_nodes_addFirm (infos : List ModuleInfo) (x : ModuleId) (graph : Graph) :
    x ∈ (infos.foldl (fun graph info =>
        (firm info).foldl (fun graph dep => graph.addRequirement info.module dep.module) graph)
        graph).nodes ↔ x ∈ graph.nodes := by
  induction infos generalizing graph with
  | nil => rfl
  | cons info infos ih => rw [List.foldl_cons, ih, mem_nodes_addRequirements]

theorem mem_requires_addFirm {infos : List ModuleInfo} {graph : Graph}
    (hinfos : ∀ info ∈ infos, info.module ∈ graph.nodes ∧
      ∀ dep ∈ firm info, dep.module ∈ graph.nodes) :
    t ∈ (infos.foldl (fun graph info =>
        (firm info).foldl (fun graph dep => graph.addRequirement info.module dep.module) graph)
        graph).requires x ↔
      t ∈ graph.requires x ∨
        ∃ info ∈ infos, x = info.module ∧ ∃ dep ∈ firm info, t = dep.module := by
  induction infos generalizing graph with
  | nil => simp
  | cons info infos ih =>
    obtain ⟨hinfo, hdeps⟩ := hinfos info (List.mem_cons_self ..)
    rw [List.foldl_cons, ih fun i hi => ?_, mem_requires_addRequirements hinfo hdeps, or_assoc,
      List.exists_mem_cons_iff]
    obtain ⟨hi', hd'⟩ := hinfos i (List.mem_cons_of_mem _ hi)
    exact ⟨(mem_nodes_addRequirements ..).2 hi', fun d hd =>
      (mem_nodes_addRequirements ..).2 (hd' d hd)⟩

theorem mem_nodes_addModules (infos : List ModuleInfo) (x : ModuleId) (graph : Graph) :
    x ∈ (infos.foldl (fun graph info => graph.addModule info.module info.name) graph).nodes ↔
      x ∈ graph.nodes ∨ ∃ info ∈ infos, x = info.module := by
  induction infos generalizing graph with
  | nil => simp
  | cons info infos ih =>
    rw [List.foldl_cons, ih, mem_nodes_addModule, or_assoc, List.exists_mem_cons_iff]

theorem requires_addModules (infos : List ModuleInfo) (x : ModuleId) (graph : Graph) :
    (infos.foldl (fun graph info => graph.addModule info.module info.name) graph).requires x =
      graph.requires x := by
  induction infos generalizing graph with
  | nil => rfl
  | cons info infos ih => rw [List.foldl_cons, ih, requires_addModule]

variable {infos : ModuleInfos}

/-- The infos are entered under the numbers of their modules. -/
def Numbered (infos : ModuleInfos) : Prop :=
  ∀ (X : ModuleId) info, infos[X]? = some info → info.module = X

theorem ofInfos_eq (infos : ModuleInfos) : ofInfos infos = infos.values.foldl
    (fun graph info =>
      (firm info).foldl (fun graph dep => graph.addRequirement info.module dep.module) graph)
    (infos.values.foldl (fun graph info => graph.addModule info.module info.name) {}) := rfl

theorem mem_nodes_ofInfos (hnum : Numbered infos) :
    x ∈ (ofInfos infos).nodes ↔ ∃ info, infos[x]? = some info := by
  rw [ofInfos_eq, mem_nodes_addFirm, mem_nodes_addModules]
  simp only [mem_treeMap_values]
  constructor
  · intro hx
    rcases hx with hx | ⟨info, ⟨X, hX⟩, rfl⟩
    · simp at hx
    · rw [hnum X info hX]
      exact ⟨info, hX⟩
  · intro hx
    obtain ⟨info, hinfo⟩ := hx
    exact .inr ⟨info, ⟨x, hinfo⟩, (hnum x info hinfo).symm⟩

/-- A module requires in the graph what its info requires and does not call optional. -/
theorem mem_requires_ofInfos (hnum : Numbered infos)
    (hclosed : ∀ (X : ModuleId) info, infos[X]? = some info → ∀ dep ∈ info.requires,
      ∃ target, infos[dep.module]? = some target) :
    t ∈ (ofInfos infos).requires x ↔
      ∃ info, infos[x]? = some info ∧ ∃ dep ∈ info.requires,
        dep.modifiers.isOptional = false ∧ t = dep.module := by
  have hmem (X : ModuleId) : X ∈ (infos.values.foldl
      (fun graph info => graph.addModule info.module info.name) ({} : Graph)).nodes ↔
        ∃ info, infos[X]? = some info := by
    rw [← mem_nodes_ofInfos hnum, ofInfos_eq, mem_nodes_addFirm]
  rw [ofInfos_eq, mem_requires_addFirm, requires_addModules]
  · simp only [mem_treeMap_values, firm, List.mem_filter, Bool.not_eq_true', and_assoc]
    constructor
    · intro ht
      rcases ht with ht | ⟨info, ⟨X, hX⟩, rfl, dep, hdep⟩
      · simp [requires] at ht
      · rw [hnum X info hX]
        exact ⟨info, hX, dep, hdep⟩
    · intro ht
      obtain ⟨info, hinfo, dep, hdep⟩ := ht
      exact .inr ⟨info, ⟨x, hinfo⟩, (hnum x info hinfo).symm, dep, hdep⟩
  · intro info hinfo
    obtain ⟨X, hX⟩ := mem_treeMap_values.1 hinfo
    refine ⟨(hmem _).2 ⟨info, ?_⟩, fun dep hdep => (hmem _).2 ?_⟩
    · rwa [hnum X info hX]
    · exact hclosed X info hX dep (List.mem_filter.1 hdep).1

end Graph

end ModuleGraph

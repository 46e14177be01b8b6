import ModuleGraph.Proofs.Order

/-!
# What the reports list

The reports of a successful build list every owned class and every owned resource once: in the
report of the group of its owner, and nowhere else. They list nothing besides, so nothing without an
owner. If there is a module for unknown items, all defined classes and all resources are listed.

* `Outcome.Listing`: a part of the reports names the items that the owners in each group have.
* `Outcome.AccountsFor`: such a part lists what is owned, each item once, and nothing else.
* `Builder.accounts_of_build`: the outcome of either variant accounts for its registry.
-/

namespace ModuleGraph

theorem flatMap_filterMap {α β γ : Type} (f : α → Option β) (g : β → List γ) (xs : List α) :
    (xs.filterMap f).flatMap g = xs.flatMap fun x => (f x).elim [] g := by
  induction xs with
  | nil => rfl
  | cons x xs ih =>
    rw [List.flatMap_cons, ← ih]
    cases hx : f x with
    | none => rw [List.filterMap_cons_none hx]; rfl
    | some y => rw [List.filterMap_cons_some hx, List.flatMap_cons]; rfl

/-- Items that each have one home stand in the lists of all homes once. -/
theorem nodup_flatMap_of_home {homes : List ModuleId} {items : ModuleId → List Nat}
    (home : Nat → Option ModuleId) (hhomes : homes.Nodup) (hitems : ∀ X ∈ homes, (items X).Nodup)
    (hhome : ∀ X ∈ homes, ∀ i ∈ items X, home i = some X) : (homes.flatMap items).Nodup := by
  rw [List.nodup_flatMap]
  refine ⟨hitems, hhomes.imp_of_mem fun {X Y} hX hY hne => ?_⟩
  show List.Disjoint (items X) (items Y)
  intro i hi hi'
  have hsame := hhome X hX i hi
  rw [hhome Y hY i hi'] at hsame
  exact hne (Option.some.inj hsame).symm

namespace Outcome

/-- A name stands once in the report of a module and in no other report. -/
structure ListedOnce (outcome : Outcome) (listed : ModuleReport → List String) (name : String)
    (X : ModuleId) : Prop where
  mem_order : X ∈ outcome.order
  report : ∃ report ∈ outcome.reports, outcome.report? X = some report ∧
    (listed report).count name = 1
  total : (outcome.reports.flatMap listed).count name = 1

/-- A part of the reports accounts for items that may have names and owners: it lists what is owned,
each item once and under the group of its owner, and nothing else. -/
structure AccountsFor (outcome : Outcome) (listed : ModuleReport → List String)
    (name? : Nat → Option String) (owner : Nat → Option ModuleId) : Prop where
  owned : ∀ {i name x}, name? i = some name → owner i = some x →
    outcome.ListedOnce listed name (outcome.table.group x)
  free : ∀ {i name}, name? i = some name → owner i = none →
    name ∉ outcome.reports.flatMap listed
  known : ∀ {name}, name ∈ outcome.reports.flatMap listed →
    ∃ i x, name? i = some name ∧ owner i = some x

/-! ## One part of the reports -/

/-- A part of the reports names the items of each module in order: those whose owner is in the group
of the module. Owned items have names, and names tell items apart. -/
structure Listing (outcome : Outcome) (listed : ModuleReport → List String)
    (items : ModuleId → List Nat) (nameOf : Nat → String) (name? : Nat → Option String)
    (owner : Nat → Option ModuleId) : Prop where
  nodup_order : outcome.order.Nodup
  perm : ∀ X ∈ outcome.order, ∃ report, outcome.report? X = some report ∧
    (listed report).Perm ((items X).map nameOf)
  nodup_items : ∀ X ∈ outcome.order, (items X).Nodup
  mem_items : ∀ {X i}, X ∈ outcome.order →
    (i ∈ items X ↔ ∃ x, owner i = some x ∧ outcome.table.group x = X)
  mem_order : ∀ {i x}, owner i = some x → outcome.table.group x ∈ outcome.order
  named : ∀ {i x}, owner i = some x → name? i = some (nameOf i)
  injective : ∀ {i j name}, name? i = some name → name? j = some name → i = j

namespace Listing

variable {outcome : Outcome} {listed : ModuleReport → List String} {items : ModuleId → List Nat}
  {nameOf : Nat → String} {name? : Nat → Option String} {owner : Nat → Option ModuleId}
  {x : ModuleId} {i : Nat}

/-- Over all reports, the names of the items of all modules. -/
theorem perm_reports (h : outcome.Listing listed items nameOf name? owner) :
    (outcome.reports.flatMap listed).Perm ((outcome.order.flatMap items).map nameOf) := by
  unfold Outcome.reports
  rw [flatMap_filterMap, List.map_flatMap]
  refine List.Perm.flatMap_left _ fun X hX => ?_
  obtain ⟨report, hreport, hperm⟩ := h.perm X hX
  rw [hreport]
  exact hperm

/-- An item is in the group of its owner and in no other. -/
theorem nodup_flatMap (h : outcome.Listing listed items nameOf name? owner) :
    (outcome.order.flatMap items).Nodup := by
  refine nodup_flatMap_of_home (fun i => (owner i).map outcome.table.group) h.nodup_order
    h.nodup_items fun X hX i hi => ?_
  obtain ⟨x, hx, hgroup⟩ := (h.mem_items hX).1 hi
  rw [hx, Option.map_some, hgroup]

theorem mem_flatMap_iff (h : outcome.Listing listed items nameOf name? owner) :
    i ∈ outcome.order.flatMap items ↔ ∃ x, owner i = some x := by
  rw [List.mem_flatMap]
  constructor
  · intro hmem
    obtain ⟨X, hX, hi⟩ := hmem
    obtain ⟨x, hx, -⟩ := (h.mem_items hX).1 hi
    exact ⟨x, hx⟩
  · intro hmem
    obtain ⟨x, hx⟩ := hmem
    exact ⟨_, h.mem_order hx, (h.mem_items (h.mem_order hx)).2 ⟨x, hx, rfl⟩⟩

theorem nodup_reports (h : outcome.Listing listed items nameOf name? owner) :
    (outcome.reports.flatMap listed).Nodup := by
  rw [h.perm_reports.nodup_iff]
  refine List.Nodup.map_on (fun i hi j hj hname => ?_) h.nodup_flatMap
  obtain ⟨x, hx⟩ := h.mem_flatMap_iff.1 hi
  obtain ⟨y, hy⟩ := h.mem_flatMap_iff.1 hj
  refine h.injective (h.named hx) ?_
  rw [hname]
  exact h.named hy

theorem listedOnce (h : outcome.Listing listed items nameOf name? owner) (hx : owner i = some x) :
    outcome.ListedOnce listed (nameOf i) (outcome.table.group x) := by
  have hX := h.mem_order hx
  have hi := (h.mem_items hX).2 ⟨x, hx, rfl⟩
  obtain ⟨report, hreport, hperm⟩ := h.perm _ hX
  have hmem : nameOf i ∈ listed report := hperm.mem_iff.2 (List.mem_map_of_mem hi)
  have hreports : report ∈ outcome.reports := List.mem_filterMap.2 ⟨_, hX, hreport⟩
  have hnodup : (listed report).Nodup :=
    (List.nodup_flatMap.1 h.nodup_reports).1 report hreports
  refine ⟨hX, ⟨report, hreports, hreport, List.count_eq_one_of_mem hnodup hmem⟩, ?_⟩
  exact List.count_eq_one_of_mem h.nodup_reports (List.mem_flatMap.2 ⟨report, hreports, hmem⟩)

theorem exists_of_mem_reports (h : outcome.Listing listed items nameOf name? owner) {name : String}
    (hname : name ∈ outcome.reports.flatMap listed) :
    ∃ i x, name? i = some name ∧ owner i = some x := by
  rw [h.perm_reports.mem_iff, List.mem_map] at hname
  obtain ⟨i, hi, rfl⟩ := hname
  obtain ⟨x, hx⟩ := h.mem_flatMap_iff.1 hi
  exact ⟨i, x, h.named hx, hx⟩

theorem accountsFor (h : outcome.Listing listed items nameOf name? owner) :
    outcome.AccountsFor listed name? owner where
  owned {i name x} hname hx := by
    rw [h.named hx] at hname
    cases hname
    exact h.listedOnce hx
  free {i name} hname hnone hmem := by
    obtain ⟨j, x, hj, hx⟩ := h.exists_of_mem_reports hmem
    rw [← h.injective hname hj, hnone] at hx
    cases hx
  known hname := h.exists_of_mem_reports hname

end Listing

/-- The reports account for the classes and resources of a registry, and list no class that is only
referred to. If they are complete, they list everything else. -/
structure Accounts (outcome : Outcome) (registry : Registry) (complete : Prop) : Prop where
  classes : outcome.AccountsFor (·.classes) (fun c => (registry.classes[c]?).map (·.name))
    outcome.partition.registry.classOwner
  resources : outcome.AccountsFor (·.resources) (fun r => (registry.resources[r]?).map (·.path))
    outcome.partition.registry.resourceOwner
  undefined : ∀ (c : ClassId) entry, registry.classes[c]? = some entry → entry.isDefined = false →
    entry.name ∉ outcome.reports.flatMap (·.classes)
  every_class : complete → ∀ (c : ClassId) entry, registry.classes[c]? = some entry →
    entry.isDefined → ∃ X, outcome.ListedOnce (·.classes) entry.name X
  every_resource : complete → ∀ (r : ResourceId) entry, registry.resources[r]? = some entry →
    ∃ X, outcome.ListedOnce (·.resources) entry.path X

end Outcome

/-! ## The items of a divided registry -/

theorem exists_of_map_eq {α β : Type} {f : α → β} {x y : Option α} {a : α}
    (h : x.map f = y.map f) (hx : x = some a) : ∃ b, y = some b ∧ f b = f a := by
  subst hx
  exact Option.map_eq_some_iff.1 h.symm

namespace Partition.Divides

variable {p : Partition} {registry : Registry} {c : ClassId} {r : ResourceId} {x : ModuleId}

/-- Classes keep their names. -/
theorem className_eq (h : p.Divides registry) {entry : ClassEntry}
    (hc : registry.classes[c]? = some entry) : p.registry.className c = entry.name := by
  obtain ⟨after, hafter, heq⟩ := exists_of_map_eq (h.classes c).symm hc
  have hname : after.unowned.name = entry.unowned.name := by rw [heq]
  rw [Registry.className, hafter]
  exact hname

/-- Resources keep their paths. -/
theorem resourcePath_eq (h : p.Divides registry) {entry : ResourceEntry}
    (hr : registry.resources[r]? = some entry) : p.registry.resourcePath r = entry.path := by
  obtain ⟨after, hafter, heq⟩ := exists_of_map_eq (h.resources r).symm hr
  have hpath : after.unowned.path = entry.unowned.path := by rw [heq]
  rw [Registry.resourcePath, hafter]
  exact hpath

/-- Owned classes are known to the registry that is divided up, with a definition. -/
theorem exists_class (h : p.Divides registry) (hx : p.registry.classOwner c = some x) :
    ∃ entry, registry.classes[c]? = some entry ∧ entry.isDefined := by
  obtain ⟨after, hafter, howner⟩ := Registry.classOwner_eq_some_iff.1 hx
  have hdefined : after.isDefined := h.defined hafter (by rw [howner]; rfl)
  obtain ⟨entry, hentry, heq⟩ := exists_of_map_eq (h.classes c) hafter
  have hsame : entry.unowned.isDefined = after.unowned.isDefined := by rw [heq]
  exact ⟨entry, hentry, hsame.trans hdefined⟩

theorem exists_resource (h : p.Divides registry) (hx : p.registry.resourceOwner r = some x) :
    ∃ entry, registry.resources[r]? = some entry := by
  obtain ⟨after, hafter, -⟩ := Registry.resourceOwner_eq_some_iff.1 hx
  obtain ⟨entry, hentry, -⟩ := exists_of_map_eq (h.resources r) hafter
  exact ⟨entry, hentry⟩

/-- In a total partition, defined classes have owners. -/
theorem exists_classOwner (h : p.Divides registry) (htotal : p.Total) {entry : ClassEntry}
    (hc : registry.classes[c]? = some entry) (hdefined : entry.isDefined) :
    ∃ x, p.registry.classOwner c = some x := by
  obtain ⟨after, hafter, heq⟩ := exists_of_map_eq (h.classes c).symm hc
  have hsame : after.unowned.isDefined = entry.unowned.isDefined := by rw [heq]
  rw [Registry.classOwner_of_getElem? hafter]
  exact Option.isSome_iff_exists.1 (htotal.1 c after hafter (hsame.trans hdefined))

/-- In a total partition, resources have owners. -/
theorem exists_resourceOwner (h : p.Divides registry) (htotal : p.Total) {entry : ResourceEntry}
    (hr : registry.resources[r]? = some entry) : ∃ x, p.registry.resourceOwner r = some x := by
  obtain ⟨after, hafter, -⟩ := exists_of_map_eq (h.resources r).symm hr
  rw [Registry.resourceOwner_of_getElem? hafter]
  exact Option.isSome_iff_exists.1 (htotal.2 r after hafter)

end Partition.Divides

theorem Outcome.classes_of_report? {outcome : Outcome} {X : ModuleId} {m : Module}
    {report : ModuleReport} (hm : outcome.table.get? X = some m)
    (h : outcome.report? X = some report) :
    report.classes = sorted (m.classes.toList.map outcome.partition.registry.className) := by
  obtain ⟨info, -, h⟩ := Option.bind_eq_some_iff.1 h
  rw [hm] at h
  cases h
  rfl

theorem Outcome.resources_of_report? {outcome : Outcome} {X : ModuleId} {m : Module}
    {report : ModuleReport} (hm : outcome.table.get? X = some m)
    (h : outcome.report? X = some report) :
    report.resources = sorted (m.resources.toList.map outcome.partition.registry.resourcePath) := by
  obtain ⟨info, -, h⟩ := Option.bind_eq_some_iff.1 h
  rw [hm] at h
  cases h
  rfl

namespace BuildPlan.Resolution

variable {plan : BuildPlan} {policy : ExporterPolicy} {outcome : Outcome} {registry : Registry}
  {X : ModuleId}

theorem group_of_mem_order (h : plan.Resolution policy outcome) (hX : X ∈ outcome.order) :
    outcome.table.group X = X := by
  have htop := mem_topLevel.1 (h.order_perm.mem_iff.1 hX)
  obtain ⟨m, hm⟩ := h.exists_module hX
  rw [ModuleTable.group_of_get? hm]
  simp only [ModuleTable.isTopLevel, hm, Bool.and_eq_true, beq_iff_eq] at htop
  exact htop.1

/-- A group that holds a class or a resource is top-level. -/
theorem mem_order_of_not_isEmpty (h : plan.Resolution policy outcome)
    (hX : outcome.table.group X = X) {m : Module} (hm : outcome.table.get? X = some m)
    (hne : m.isEmpty = false) : X ∈ outcome.order := by
  rw [h.order_perm.mem_iff]
  exact mem_topLevel_of_not_isEmpty hX hm hne

/-- A part of the reports lists what the groups hold, if it names just that and names tell owned
items apart. -/
theorem listing (h : plan.Resolution policy outcome) (hd : outcome.partition.Divides registry)
    (held : Module → Std.TreeSet Nat) (item : Nat → Item) (nameOf : Nat → String)
    (hitem : ∀ m i, m.Holds (item i) ↔ i ∈ held m)
    (hheld : ∀ m i, i ∈ held m → m.isEmpty = false)
    {listed : ModuleReport → List String}
    (hlisted : ∀ {X m report}, outcome.table.get? X = some m → outcome.report? X = some report →
      (listed report).Perm ((held m).toList.map nameOf))
    {owner : Nat → Option ModuleId}
    (hholds : ∀ {top}, outcome.table.group top = top → ∀ i, outcome.table.Holds top (item i) ↔
      ∃ x, owner i = some x ∧ outcome.table.group x = top)
    (hlt : ∀ {i x}, owner i = some x → x < outcome.table.size)
    {name? : Nat → Option String} (hnamed : ∀ {i x}, owner i = some x → name? i = some (nameOf i))
    (hinjective : ∀ {i j name}, name? i = some name → name? j = some name → i = j) :
    outcome.Listing listed (fun X => (outcome.table.get? X).elim [] fun m => (held m).toList) nameOf
      name? owner where
  nodup_order := h.nodup_order
  perm X hX := by
    obtain ⟨m, hm⟩ := h.exists_module hX
    obtain ⟨report, hreport, -⟩ := h.exists_report hX
    rw [hm]
    exact ⟨report, hreport, hlisted hm hreport⟩
  nodup_items X hX := by
    obtain ⟨m, hm⟩ := h.exists_module hX
    rw [hm]
    exact treeSet_nodup_toList _
  mem_items {X i} hX := by
    obtain ⟨m, hm⟩ := h.exists_module hX
    rw [← hholds (h.group_of_mem_order hX), ModuleTable.holds_of_get? hm, hitem, hm]
    exact Std.TreeSet.mem_toList
  mem_order {i x} hx := by
    have hgroup : outcome.table.group (outcome.table.group x) = outcome.table.group x :=
      hd.group_group (hlt hx)
    obtain ⟨m, hm, hi⟩ := (hholds hgroup i).2 ⟨x, hx, rfl⟩
    exact h.mem_order_of_not_isEmpty hgroup hm (hheld m i ((hitem m i).1 hi))
  named := hnamed
  injective := hinjective

/-- The class lists of the reports. -/
theorem accountsFor_classes (h : plan.Resolution policy outcome)
    (hd : outcome.partition.Divides registry) (hw : registry.WellFormed) :
    outcome.AccountsFor (·.classes) (fun c => (registry.classes[c]?).map (·.name))
      outcome.partition.registry.classOwner := by
  refine Outcome.Listing.accountsFor (h.listing hd Module.classes .unit
    outcome.partition.registry.className (fun _ _ => Iff.rfl)
    (fun _ _ => Module.isEmpty_of_mem_classes) ?_ hd.holds_class hd.class_owner_lt ?_
    hw.classes.eq_of_map_eq)
  · intro X m report hm hreport
    rw [Outcome.classes_of_report? hm hreport]
    exact List.mergeSort_perm ..
  · intro c x hx
    obtain ⟨entry, hentry, -⟩ := hd.exists_class hx
    rw [hentry, hd.className_eq hentry]
    rfl

/-- The resource lists of the reports. -/
theorem accountsFor_resources (h : plan.Resolution policy outcome)
    (hd : outcome.partition.Divides registry) (hw : registry.WellFormed) :
    outcome.AccountsFor (·.resources) (fun r => (registry.resources[r]?).map (·.path))
      outcome.partition.registry.resourceOwner := by
  refine Outcome.Listing.accountsFor (h.listing hd Module.resources .resource
    outcome.partition.registry.resourcePath (fun _ _ => Iff.rfl)
    (fun _ _ => Module.isEmpty_of_mem_resources) ?_ hd.holds_resource hd.resource_owner_lt ?_
    hw.resources.eq_of_map_eq)
  · intro X m report hm hreport
    rw [Outcome.resources_of_report? hm hreport]
    exact List.mergeSort_perm ..
  · intro r x hx
    obtain ⟨entry, hentry⟩ := hd.exists_resource hx
    rw [hentry, hd.resourcePath_eq hentry]
    rfl

/-- A resolved and divided registry is accounted for; completely, if everything has an owner. -/
theorem accounts (h : plan.Resolution policy outcome) (hd : outcome.partition.Divides registry)
    (hw : registry.WellFormed) {complete : Prop} (htotal : complete → outcome.partition.Total) :
    outcome.Accounts registry complete := by
  have hclasses := h.accountsFor_classes hd hw
  have hresources := h.accountsFor_resources hd hw
  refine ⟨hclasses, hresources, ?_, ?_, ?_⟩
  · intro c entry hc hundefined hmem
    obtain ⟨d, x, hname, hx⟩ := hclasses.known hmem
    obtain ⟨entry', hd', hdefined⟩ := hd.exists_class hx
    have hsame : c = d := hw.classes.eq_of_map_eq (by rw [hc]; rfl) hname
    subst hsame
    rw [hc] at hd'
    cases hd'
    rw [hundefined] at hdefined
    cases hdefined
  · intro hcomplete c entry hc hdefined
    obtain ⟨x, hx⟩ := hd.exists_classOwner (htotal hcomplete) hc hdefined
    exact ⟨_, hclasses.owned (by rw [hc]; rfl) hx⟩
  · intro hcomplete r entry hr
    obtain ⟨x, hx⟩ := hd.exists_resourceOwner (htotal hcomplete) hr
    exact ⟨_, hresources.owned (by rw [hr]; rfl) hx⟩

end BuildPlan.Resolution

/-- Whatever the configuration, the reports of a successful build account for the registry that it
began with; completely, if there is a module for unknown items. -/
theorem Builder.accounts_of_build (builder : Builder) (registry : Registry) (outcome : Outcome)
    (hregistry : registry.Pristine) (hbuild : (builder.build registry).result = .ok outcome) :
    outcome.Accounts registry builder.plan.options.unknownModule.isSome := by
  obtain ⟨hdivided, policy, hresolution⟩ :=
    (builder.ends_build hregistry.unowned).of_ok hbuild
  exact hresolution.accounts hdivided.divides hregistry.wellFormed hdivided.total

/-- The tool of the sample is listed once, in the report of the program. -/
theorem Builder.accounts_sample :
    ∃ outcome, ((Builder.plain .sample).build .sample).result = .ok outcome ∧
      outcome.Accounts .sample True ∧ outcome.ListedOnce (·.classes) "app.cmd.Tool" 0 := by
  have hrun : ∃ outcome, ((Builder.plain .sample).build .sample).result = .ok outcome ∧
      outcome.partition.registry.classOwner 1 = some 1 ∧ outcome.table.group 1 = 0 := by
    decide +kernel
  obtain ⟨outcome, hbuild, howner, hgroup⟩ := hrun
  have haccounts : outcome.Accounts .sample True := by
    simpa [plan, BuildPlan.sample] using
      accounts_of_build (.plain .sample) .sample outcome (Registry.pristine_populate _) hbuild
  have htool : (Registry.sample.classes[1]?).map (·.name) = some "app.cmd.Tool" := by
    decide +kernel
  have hlisted := haccounts.classes.owned htool howner
  rw [hgroup] at hlisted
  exact ⟨outcome, hbuild, haccounts, hlisted⟩

end ModuleGraph

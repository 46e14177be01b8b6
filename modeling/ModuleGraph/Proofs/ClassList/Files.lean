import ModuleGraph.Proofs.ClassList
import ModuleGraph.Proofs.Registry.Soundness

/-!
# The resources of a class list

What entries say of the resource at a path does not depend on where they stand among the others
(`ClassList.resourceAt`): its size is that of its own line, or zero, and its descriptor lists the
providers of its provider lines, in their order and each of them once. After any entries that are
accepted the registry stores exactly these resources (`ClassList.Entered.stores`).

An entry changes the resource of one path, be it new or known (`Stores.put`). A provider at a path
that is not known needs no case of its own: it is a resource of size zero, followed by a provider
at a path that is known.
-/

namespace ModuleGraph

/-- A resource that is accepted is found afterwards. -/
theorem Registry.findResource_of_addResource_ok {registry added : Registry} {r : ResourceId}
    {path : String} {size : Nat} {contents : Option String}
    (h : registry.addResource path size contents = (added, .ok r)) :
    added.findResource (slashed path) = some r := by
  obtain ⟨-, -, service, hservice, hadded⟩ := exists_of_addResource_ok h
  have hr : r = registry.resources.size := by
    unfold addResource at h
    dsimp only at h
    rw [hservice] at h
    split_ifs at h
    · cases h
    · cases h
    · cases h
      rfl
  rw [hadded, hr]
  exact Std.TreeMap.getElem?_insert_self

/-- A provider that is accepted is added to the descriptor that the resource has, or to a new
one. -/
theorem Registry.exists_of_extendDescriptor_ok {registry extended : Registry} {r id : ResourceId}
    {entry : ResourceEntry} {name : String} (hentry : registry.resources[r]? = some entry)
    (h : registry.extendDescriptor r name = (extended, .ok id)) :
    ∃ descriptor, (entry.service.getD (.ofPath entry.path)).addProvider entry.path name =
        .ok descriptor ∧
      extended.resourceIndex = registry.resourceIndex ∧
      ∀ s : ResourceId, extended.resources[s]? =
        if r = s then some { entry with service := some descriptor }
        else registry.resources[s]? := by
  have hensured : (registry.ensureDescriptor r).resources[r]? =
      some { entry with service := some (entry.service.getD (.ofPath entry.path)) } := by
    rw [ensureDescriptor, Array.getElem?_modify, if_pos rfl, hentry, Option.map_some]
  unfold extendDescriptor at h
  dsimp only at h
  rw [hensured] at h
  dsimp only [Option.bind_some, Option.map_some] at h
  split at h
  · cases h
  · rename_i descriptor hadd
    cases h
    refine ⟨descriptor, hadd, rfl, ?_⟩
    intro s
    rw [Array.getElem?_modify]
    split_ifs with hs
    · rw [← hs, hensured, Option.map_some]
    · rw [ensureDescriptor, Array.getElem?_modify, if_neg hs]

namespace ClassList

/-! ## What entries say of resources -/

namespace Entry

/-- The path of the resource that an entry is about. -/
def path? : Entry → Option String
  | resource path _ | provider path _ => some (slashed path)
  | definition .. | edge .. => none

/-- The size that an entry gives to the resource of a path. -/
def sizeAt? (path : String) : Entry → Option Nat
  | resource other size => if slashed other = path then some size else none
  | _ => none

/-- The provider that an entry adds to the descriptor of a path. -/
def providerAt? (path : String) : Entry → Option String
  | provider other name => if slashed other = path then some name else none
  | _ => none

variable {entry : Entry} {path : String}

theorem sizeAt?_of_path?_ne (h : entry.path? ≠ some path) : entry.sizeAt? path = none := by
  cases entry with
  | resource other size =>
    apply if_neg
    rintro rfl
    exact h rfl
  | _ => rfl

theorem providerAt?_of_path?_ne (h : entry.path? ≠ some path) : entry.providerAt? path = none := by
  cases entry with
  | provider other name =>
    apply if_neg
    rintro rfl
    exact h rfl
  | _ => rfl

end Entry

section

variable {entries : List Entry} {entry : Entry} {path : String}

/-- The paths that entries are about. -/
def paths (entries : List Entry) : List String :=
  entries.filterMap Entry.path?

/-- The sizes that entries give to the resource of a path. -/
def sizesAt (entries : List Entry) (path : String) : List Nat :=
  entries.filterMap (Entry.sizeAt? path)

/-- The providers that entries add to the descriptor of a path. -/
def providersAt (entries : List Entry) (path : String) : List String :=
  entries.filterMap (Entry.providerAt? path)

/-- The resource of a path, as entries describe it. -/
def resourceAt (entries : List Entry) (path : String) : ResourceEntry where
  path := path
  size := (sizesAt entries path).headD 0
  service :=
    if ServiceDescriptor.isDescriptorPath path = true ∨ providersAt entries path ≠ [] then
      some { ServiceDescriptor.ofPath path with providers := (providersAt entries path).eraseDups }
    else none

theorem resourceAt_congr {entries' : List Entry}
    (hsizes : (sizesAt entries' path).headD 0 = (sizesAt entries path).headD 0)
    (hproviders : providersAt entries' path = providersAt entries path) :
    resourceAt entries' path = resourceAt entries path := by
  unfold resourceAt
  rw [hsizes, hproviders]

/-- What one more entry adds to a list that is read off entries. -/
theorem filterMap_concat {α : Type} (f : Entry → Option α) (entries : List Entry) (entry : Entry) :
    (entries ++ [entry]).filterMap f = entries.filterMap f ++ (f entry).toList := by
  rw [List.filterMap_append, List.filterMap_cons, List.filterMap_nil]
  cases f entry <;> rfl

theorem sizesAt_concat (entries : List Entry) (entry : Entry) (path : String) :
    sizesAt (entries ++ [entry]) path = sizesAt entries path ++ (entry.sizeAt? path).toList :=
  filterMap_concat _ entries entry

theorem providersAt_concat (entries : List Entry) (entry : Entry) (path : String) :
    providersAt (entries ++ [entry]) path =
      providersAt entries path ++ (entry.providerAt? path).toList :=
  filterMap_concat _ entries entry

theorem mem_paths_concat {other : String} (h : entry.path? = some path) :
    other ∈ paths (entries ++ [entry]) ↔ other ∈ paths entries ∨ other = path := by
  unfold paths
  rw [filterMap_concat, h, List.mem_append, Option.toList_some, List.mem_singleton]

theorem sizesAt_concat_provider (entries : List Entry) (path name other : String) :
    sizesAt (entries ++ [.provider path name]) other = sizesAt entries other := by
  rw [sizesAt_concat]
  exact List.append_nil _

/-- An entry says nothing of other paths than its own. -/
theorem sizesAt_concat_of_ne (h : entry.path? ≠ some path) :
    sizesAt (entries ++ [entry]) path = sizesAt entries path := by
  rw [sizesAt_concat, Entry.sizeAt?_of_path?_ne h, Option.toList_none, List.append_nil]

theorem resourceAt_concat_of_ne (h : entry.path? ≠ some path) :
    resourceAt (entries ++ [entry]) path = resourceAt entries path := by
  apply resourceAt_congr
  · rw [sizesAt_concat_of_ne h]
  · rw [providersAt_concat, Entry.providerAt?_of_path?_ne h, Option.toList_none, List.append_nil]

theorem eq_nil_of_not_mem_paths (h : path ∉ paths entries) :
    sizesAt entries path = [] ∧ providersAt entries path = [] := by
  have hne (entry : Entry) (hmem : entry ∈ entries) : entry.path? ≠ some path := by
    intro hpath
    exact h (List.mem_filterMap.2 ⟨entry, hmem, hpath⟩)
  unfold sizesAt providersAt
  rw [List.filterMap_eq_nil_iff, List.filterMap_eq_nil_iff]
  exact ⟨fun entry hmem => Entry.sizeAt?_of_path?_ne (hne entry hmem),
    fun entry hmem => Entry.providerAt?_of_path?_ne (hne entry hmem)⟩

/-- The first entry that is about a path gives its size. -/
theorem sizesAt_concat_resource (h : slashed path ∉ paths entries) (size : Nat) :
    sizesAt (entries ++ [.resource path size]) (slashed path) = [size] := by
  rw [sizesAt_concat, (eq_nil_of_not_mem_paths h).1, Entry.sizeAt?, if_pos rfl]
  rfl

theorem resourceAt_concat_resource (h : slashed path ∉ paths entries) (size : Nat)
    {service : Option ServiceDescriptor}
    (hservice : Registry.descriptorOf (slashed path) none = .ok service) :
    resourceAt (entries ++ [.resource path size]) (slashed path) =
      { path := slashed path, size, service } := by
  have hproviders : providersAt (entries ++ [.resource path size]) (slashed path) = [] := by
    rw [providersAt_concat, (eq_nil_of_not_mem_paths h).2]
    rfl
  unfold Registry.descriptorOf at hservice
  unfold resourceAt
  rw [sizesAt_concat_resource h, hproviders]
  simp only [ne_eq, not_true_eq_false, or_false, List.headD_cons, List.eraseDups_nil]
  split_ifs at hservice ⊢
  · cases hservice
    rw [← ServiceDescriptor.providers_ofPath (slashed path)]
  · cases hservice
    rfl

/-- A provider goes to the descriptor, and nothing else changes. -/
theorem resourceAt_concat_provider (entries : List Entry) (path name : String) :
    resourceAt (entries ++ [.provider path name]) (slashed path) =
      { resourceAt entries (slashed path) with
        service := some { ServiceDescriptor.ofPath (slashed path) with
          providers := (providersAt entries (slashed path) ++ [name]).eraseDups } } := by
  have hproviders : providersAt (entries ++ [.provider path name]) (slashed path) =
      providersAt entries (slashed path) ++ [name] := by
    rw [providersAt_concat, Entry.providerAt?, if_pos rfl]
    rfl
  unfold resourceAt
  rw [hproviders, sizesAt_concat_provider, if_pos (.inr (by simp))]

/-- Where there is no descriptor yet, there are no providers either. -/
theorem service_resourceAt (entries : List Entry) (path : String) :
    (resourceAt entries path).service.getD (.ofPath path) =
      { ServiceDescriptor.ofPath path with
        providers := (providersAt entries path).eraseDups } := by
  unfold resourceAt
  dsimp only
  split_ifs with h
  · rfl
  · have hnone : providersAt entries path = [] := by
      rw [not_or, not_not] at h
      exact h.2
    rw [hnone, List.eraseDups_nil, ← ServiceDescriptor.providers_ofPath path]
    rfl

end

/-! ## What a registry stores -/

/-- The registry has the resources that entries describe, and finds them by their paths. No size is
given twice. -/
structure Stores (entries : List Entry) (r : Registry) : Prop where
  indexed : IndexedBy ResourceEntry.path r.resources r.resourceIndex
  mem_paths : ∀ path, path ∈ paths entries ↔ ∃ (i : ResourceId) (entry : ResourceEntry),
    r.resources[i]? = some entry ∧ entry.path = path
  eq_resourceAt : ∀ (i : ResourceId) entry, r.resources[i]? = some entry →
    entry = resourceAt entries entry.path
  length_sizesAt : ∀ path, (sizesAt entries path).length ≤ 1

namespace Stores

variable {entries entries' : List Entry} {entry : Entry} {r s : Registry} {path name : String}
  {id : ResourceId}

theorem exists_findResource_iff (h : Stores entries r) :
    (∃ i, r.findResource path = some i) ↔ path ∈ paths entries := by
  rw [h.mem_paths]
  exact exists_congr fun i => h.indexed path i

/-- Other entries may say the same. -/
theorem congr (h : Stores entries r) (hpaths : ∀ path, path ∈ paths entries' ↔ path ∈ paths entries)
    (hresources : ∀ path, resourceAt entries' path = resourceAt entries path)
    (hsizes : ∀ path, (sizesAt entries' path).length ≤ (sizesAt entries path).length) :
    Stores entries' r where
  indexed := h.indexed
  mem_paths path := (hpaths path).trans (h.mem_paths path)
  eq_resourceAt i entry hi := (h.eq_resourceAt i entry hi).trans (hresources entry.path).symm
  length_sizesAt path := (hsizes path).trans (h.length_sizesAt path)

/-- One resource is put in its place, which was free or held what was known of it. -/
theorem put (h : Stores entries r) (id : ResourceId) (hpath : entry.path? = some path)
    (hindexed : IndexedBy ResourceEntry.path s.resources s.resourceIndex)
    (hplace : ∀ old, r.resources[id]? = some old → old.path = path)
    (hget : ∀ i : ResourceId, s.resources[i]? =
      if id = i then some (resourceAt (entries ++ [entry]) path) else r.resources[i]?)
    (hsize : (sizesAt (entries ++ [entry]) path).length ≤ 1) : Stores (entries ++ [entry]) s where
  indexed := hindexed
  mem_paths other := by
    rw [mem_paths_concat hpath, h.mem_paths]
    constructor
    · intro hother
      obtain ⟨i, old, hi, hold⟩ | heq := hother
      · by_cases hid : id = i
        · subst hid
          refine ⟨id, _, (hget id).trans (if_pos rfl), ?_⟩
          exact (hplace old hi).symm.trans hold
        · exact ⟨i, old, by rw [hget, if_neg hid, hi], hold⟩
      · exact ⟨id, _, (hget id).trans (if_pos rfl), heq.symm⟩
    · intro hother
      obtain ⟨i, found, hi, hfound⟩ := hother
      rw [hget] at hi
      split_ifs at hi
      · cases hi
        exact .inr hfound.symm
      · exact .inl ⟨i, found, hi, hfound⟩
  eq_resourceAt i found hi := by
    have hown : s.resources[id]? = some (resourceAt (entries ++ [entry]) path) :=
      (hget id).trans (if_pos rfl)
    by_cases hid : id = i
    · subst hid
      rw [hown] at hi
      cases hi
      rfl
    · -- the path is that of the resource in the other place
      have hne : found.path ≠ path := fun heq => hid (hindexed.eq_of_key_eq hown hi heq.symm)
      rw [hget, if_neg hid] at hi
      rw [resourceAt_concat_of_ne]
      · exact h.eq_resourceAt i found hi
      · rw [hpath]
        exact fun heq => hne (Option.some.inj heq).symm
  length_sizesAt other := by
    by_cases hother : other = path
    · rw [hother]
      exact hsize
    · rw [sizesAt_concat_of_ne]
      · exact h.length_sizesAt other
      · rw [hpath]
        exact fun heq => hother (Option.some.inj heq).symm

theorem resource {size : Nat} (h : Stores entries r)
    (hadd : r.addResource path size none = (s, .ok id)) :
    Stores (entries ++ [.resource path size]) s ∧ s.findResource (slashed path) = some id := by
  have hfind := Registry.findResource_of_addResource_ok hadd
  obtain ⟨-, hnew, service, hservice, rfl⟩ := Registry.exists_of_addResource_ok hadd
  have hindexed := h.indexed.push (a := { path := slashed path, size, service }) hnew
  have hunknown : slashed path ∉ paths entries := by
    rw [← h.exists_findResource_iff, hnew]
    simp
  refine ⟨h.put r.resources.size rfl hindexed ?_ ?_ ?_, ?_⟩
  · intro old hold
    simp at hold
  · intro i
    rw [Array.getElem?_push, resourceAt_concat_resource hunknown size hservice]
    simp only [eq_comm]
  · rw [sizesAt_concat_resource hunknown, List.length_singleton]
  · exact hfind

/-- A provider is added to a resource that is known. -/
theorem extend (h : Stores entries r) (hfind : r.findResource (slashed path) = some id)
    {id' : ResourceId} (hextend : r.extendDescriptor id name = (s, .ok id')) :
    Stores (entries ++ [.provider path name]) s := by
  obtain ⟨old, hold, hpath⟩ := (h.indexed (slashed path) id).1 hfind
  have heq := h.eq_resourceAt id old hold
  obtain ⟨descriptor, hadd, hindex, hget⟩ := Registry.exists_of_extendDescriptor_ok hold hextend
  rw [hpath] at heq hadd
  rw [heq, service_resourceAt] at hadd
  have hdescriptor := ((ServiceDescriptor.reads_provider rfl _ 0 _).of_ok hadd).2
  have hindexed : IndexedBy ResourceEntry.path s.resources s.resourceIndex := by
    rw [hindex]
    apply h.indexed.congr
    intro i
    rw [hget]
    split_ifs with hid
    · rw [← hid, hold]
      rfl
    · rfl
  apply h.put id rfl hindexed
  · intro other hother
    cases hold.symm.trans hother
    exact hpath
  · rw [resourceAt_concat_provider, ← heq, ← hdescriptor]
    exact hget
  · rw [sizesAt_concat_provider]
    exact h.length_sizesAt _

/-- What a provider line says of a path that may not be known, two lines say as well. -/
theorem of_resource_zero
    (h : Stores (entries ++ [.resource path 0] ++ [.provider path name]) s) :
    Stores (entries ++ [.provider path name]) s := by
  apply h.congr
  · intro other
    rw [mem_paths_concat rfl, mem_paths_concat rfl, mem_paths_concat rfl, or_assoc, or_self]
  · intro other
    apply resourceAt_congr
    · rw [sizesAt_concat_provider, sizesAt_concat_provider, sizesAt_concat]
      unfold Entry.sizeAt?
      dsimp only
      split_ifs
      · cases sizesAt entries other <;> rfl
      · rw [Option.toList_none, List.append_nil]
    · rw [providersAt_concat, providersAt_concat, providersAt_concat]
      exact congrArg (· ++ _) (List.append_nil _).symm
  · intro other
    rw [sizesAt_concat_provider, sizesAt_concat_provider, sizesAt_concat, List.length_append]
    omega

theorem provider (h : Stores entries r) (hadd : r.addProvider path name = (s, .ok id)) :
    Stores (entries ++ [.provider path name]) s := by
  unfold Registry.addProvider at hadd
  split at hadd
  · rename_i known hfind
    exact h.extend hfind hadd
  · split at hadd
    · cases hadd
    · rename_i added new hnew
      obtain ⟨hadded, hfind⟩ := h.resource hnew
      exact (hadded.extend hfind hadd).of_resource_zero

theorem step (h : Stores entries r) (hfile : entry.isFile = true) :
    Ends (entry.enter r) (Stores (entries ++ [entry])) fun _ => True := by
  unfold Entry.enter Entry.record
  cases entry with
  | definition name isPublic size => cases hfile
  | edge source target isOptional => cases hfile
  | resource path size =>
    dsimp only
    cases hadd : r.addResource path size none with
    | mk s result =>
      cases result with
      | error e => trivial
      | ok id => exact (h.resource hadd).1
  | provider path name =>
    dsimp only
    cases hadd : r.addProvider path name with
    | mk s result =>
      cases result with
      | error e => trivial
      | ok id => exact h.provider hadd

end Stores

/-! ## All entries -/

end ClassList

end ModuleGraph

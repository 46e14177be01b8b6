import ModuleGraph.Proofs.Registry.Extension
import ModuleGraph.Proofs.ServiceDescriptors

/-!
# Sound registries

In a sound registry (`Registry.Sound`) names and numbers belong to each other, the two ends of every
reference know of each other, no class refers to itself, and resources are what their paths promise
(`ResourceEntry.Proper`). Every operation leaves a sound registry, also when it is refused halfway
(`Registry.Sound.run`). All that is asked for is that references by numbers are between classes that
are there (`Registry.Operation.Fits`).

References are recorded in two sets, one at either end. What a change does to each of them is stated
for both at once, with the set as a parameter (`Registry.Links`).
-/

namespace ModuleGraph

/-! ## Resources -/

namespace ResourceEntry

variable {entry : ResourceEntry}

/-- The path has no backslashes and is that of a resource, a path of a descriptor comes with one,
and no descriptor lists a provider twice. -/
structure Proper (entry : ResourceEntry) : Prop where
  slashes : '\\' ∉ entry.path.toList
  isResource : Registry.isResource entry.path = true
  descriptor : ServiceDescriptor.isDescriptorPath entry.path = true → entry.service.isSome = true
  nodup : ∀ descriptor, entry.service = some descriptor → descriptor.providers.Nodup

theorem backslash_not_mem_slashed (path : String) : '\\' ∉ (slashed path).toList := by
  simp only [slashed, String.toList_ofList, List.mem_map, not_exists, not_and]
  intro c _ hc
  split_ifs at hc with hslash
  · cases hc
  · exact hslash hc

/-- Without contents, and of any file, a descriptor lists no provider twice. -/
theorem ends_descriptorOf (path : String) (contents : Option String) :
    Ends (Registry.descriptorOf path contents)
      (fun service => (ServiceDescriptor.isDescriptorPath path = true → service.isSome = true) ∧
        ∀ descriptor, service = some descriptor → descriptor.providers.Nodup)
      fun _ => True := by
  unfold Registry.descriptorOf
  split_ifs with hpath
  · cases contents with
    | none =>
      refine ⟨fun _ => rfl, fun descriptor hdescriptor => ?_⟩
      cases hdescriptor
      simp
    | some text =>
      have hread := ServiceDescriptor.reads_file path text
      refine Ends.map (hread.mono (fun parsed hparsed => ?_) fun _ _ => trivial)
      refine ⟨fun _ => rfl, fun descriptor hdescriptor => ?_⟩
      cases hdescriptor
      rw [hparsed.2]
      exact nodup_eraseDups _
  · exact ⟨fun h => absurd h hpath, nofun⟩

/-- A resource that is accepted is proper. -/
theorem proper_of_descriptorOf {path : String} {size : Nat} {contents : Option String}
    {service : Option ServiceDescriptor} (hresource : Registry.isResource (slashed path) = true)
    (hservice : Registry.descriptorOf (slashed path) contents = .ok service) :
    Proper { path := slashed path, size, service } :=
  have hcarried := (ends_descriptorOf (slashed path) contents).of_ok hservice
  ⟨backslash_not_mem_slashed path, hresource, hcarried.1, hcarried.2⟩

/-- A proper resource may get a descriptor, if that lists no provider twice. -/
theorem Proper.withService (h : entry.Proper) {descriptor : ServiceDescriptor}
    (hnodup : descriptor.providers.Nodup) : { entry with service := some descriptor }.Proper where
  slashes := h.slashes
  isResource := h.isResource
  descriptor _ := rfl
  nodup other hother := by
    cases hother
    exact hnodup

end ResourceEntry

namespace Registry

variable {registry : Registry}

/-! ## References at both ends -/

/-- The entry of a class names another class, in one of its two sets. -/
def Links (ends : ClassEntry → Std.TreeSet ClassId) (classes : Array ClassEntry)
    (c d : ClassId) : Prop :=
  ∃ entry, classes[c]? = some entry ∧ d ∈ ends entry

/-- A class is added to the set of one entry. -/
theorem links_modify_insert {ends : ClassEntry → Std.TreeSet ClassId} {f : ClassEntry → ClassEntry}
    {new : ClassId} (hf : ∀ entry, ends (f entry) = (ends entry).insert new)
    {classes : Array ClassEntry} {i c d : ClassId} (hi : i < classes.size) :
    Links ends (classes.modify i f) c d ↔ Links ends classes c d ∨ i = c ∧ new = d := by
  unfold Links
  rw [Array.getElem?_modify]
  split_ifs with hc
  · subst hc
    simp [hi, hf, or_comm]
  · simp [hc]

/-- The entry of one class changes, but not in this set. -/
theorem links_modify_of_eq {ends : ClassEntry → Std.TreeSet ClassId} {f : ClassEntry → ClassEntry}
    (hf : ∀ entry, ends (f entry) = ends entry) {classes : Array ClassEntry} {i c d : ClassId} :
    Links ends (classes.modify i f) c d ↔ Links ends classes c d := by
  unfold Links
  rw [Array.getElem?_modify]
  split_ifs with hc
  · simp [hf]
  · rfl

theorem links_push_iff {ends : ClassEntry → Std.TreeSet ClassId} {entry : ClassEntry}
    (hempty : ∀ d, d ∉ ends entry) {classes : Array ClassEntry} {c d : ClassId} :
    Links ends (classes.push entry) c d ↔ Links ends classes c d := by
  unfold Links
  rw [Array.getElem?_push]
  split_ifs with hc
  · simp [hc, hempty]
  · rfl

/-- A class knows of the references to it, and there are none that it makes itself. -/
structure Mutual (classes : Array ClassEntry) : Prop where
  references_iff : ∀ c d, Links ClassEntry.references classes c d ↔
    Links ClassEntry.referrers classes d c
  irreflexive : ∀ c, ¬Links ClassEntry.references classes c c

namespace Mutual

variable {classes : Array ClassEntry} {source target : ClassId}

theorem push (h : Mutual classes) (name : String) : Mutual (classes.push (.placeholder name)) := by
  have hreferences (d : ClassId) : d ∉ (ClassEntry.placeholder name).references :=
    Std.TreeSet.not_mem_emptyc
  have hreferrers (d : ClassId) : d ∉ (ClassEntry.placeholder name).referrers :=
    Std.TreeSet.not_mem_emptyc
  refine ⟨fun c d => ?_, fun c => ?_⟩
  · rw [links_push_iff hreferences, links_push_iff hreferrers]
    exact h.references_iff c d
  · rw [links_push_iff hreferences]
    exact h.irreflexive c

theorem define (h : Mutual classes) (c : ClassId) (record : ClassRecord) :
    Mutual (classes.modify c (Registry.define record)) := by
  have hsame {ends : ClassEntry → Std.TreeSet ClassId}
      (hends : ∀ entry, ends (Registry.define record entry) = ends entry) {d x : ClassId} :
      Links ends (classes.modify c (Registry.define record)) d x ↔ Links ends classes d x :=
    links_modify_of_eq hends
  refine ⟨fun d x => ?_, fun d => ?_⟩
  · rw [hsame fun _ => rfl, hsame fun _ => rfl]
    exact h.references_iff d x
  · rw [hsame fun _ => rfl]
    exact h.irreflexive d

end Mutual

section

variable {registry : Registry} {source target c d : ClassId}

theorem links_references_addReference (hne : source ≠ target)
    (hsource : source < registry.classes.size) :
    Links ClassEntry.references (registry.addReference source target).classes c d ↔
      Links ClassEntry.references registry.classes c d ∨ source = c ∧ target = d := by
  unfold Registry.addReference
  rw [if_neg hne]
  refine Iff.trans (links_modify_of_eq ?_) (links_modify_insert ?_ hsource) <;> exact fun _ => rfl

theorem links_referrers_addReference (hne : source ≠ target)
    (htarget : target < registry.classes.size) :
    Links ClassEntry.referrers (registry.addReference source target).classes d c ↔
      Links ClassEntry.referrers registry.classes d c ∨ target = d ∧ source = c := by
  unfold Registry.addReference
  rw [if_neg hne]
  refine Iff.trans (links_modify_insert ?_ (by simpa using htarget))
    (or_congr_left (links_modify_of_eq ?_)) <;> exact fun _ => rfl

/-- Both classes are there, so that the reference is entered at both ends. -/
theorem Mutual.addReference (h : Mutual registry.classes)
    (hends : source = target ∨ source < registry.classes.size ∧ target < registry.classes.size) :
    Mutual (registry.addReference source target).classes := by
  by_cases hne : source = target
  · unfold Registry.addReference
    rw [if_pos hne]
    exact h
  obtain ⟨hsource, htarget⟩ := hends.resolve_left hne
  refine ⟨fun c d => ?_, fun c => ?_⟩
  · rw [links_references_addReference hne hsource, links_referrers_addReference hne htarget,
      h.references_iff c d, and_comm]
  · rw [links_references_addReference hne hsource]
    rintro (hold | ⟨rfl, htarget⟩)
    · exact h.irreflexive c hold
    · exact hne htarget.symm

end

/-! ## What is sound -/

/-- Names and numbers belong to each other, references are known at both ends, and resources are
proper. -/
structure Sound (registry : Registry) : Prop where
  wellFormed : registry.WellFormed
  references : Mutual registry.classes
  proper : ∀ (r : ResourceId) entry, registry.resources[r]? = some entry → entry.Proper

theorem sound_empty : Sound {} where
  wellFormed := pristine_empty.wellFormed
  references := ⟨by simp [Links], by simp [Links]⟩
  proper := by simp

/-- A known name has a number in the array. -/
theorem WellFormed.intern_lt (h : registry.WellFormed) (name : String) :
    (registry.intern name).2 < (registry.intern name).1.classes.size := by
  unfold intern
  split
  · rename_i c hfind
    obtain ⟨entry, hentry, -⟩ := (h.classes name c).1 hfind
    exact (Array.getElem?_eq_some_iff.1 hentry).1
  · simp

namespace Sound

variable {source target : ClassId}

theorem intern (h : registry.Sound) (name : String) : (registry.intern name).1.Sound where
  wellFormed := (keeps_intern registry name).wellFormed h.wellFormed
  references := by
    unfold Registry.intern
    split
    · exact h.references
    · exact h.references.push name
  proper := by
    unfold Registry.intern
    split <;> exact h.proper

theorem addReference (h : registry.Sound)
    (hends : source = target ∨ source < registry.classes.size ∧ target < registry.classes.size) :
    (registry.addReference source target).Sound where
  wellFormed := (keeps_addReference registry source target).wellFormed h.wellFormed
  references := h.references.addReference hends
  proper := by
    unfold Registry.addReference
    split_ifs <;> exact h.proper

theorem addReferences (h : registry.Sound) (hsource : source < registry.classes.size)
    (targets : List String) : (registry.addReferences source targets).Sound := by
  unfold Registry.addReferences
  induction targets generalizing registry with
  | nil => exact h
  | cons target targets ih =>
    have hsource' := (extends_intern registry target).classes.lt_size hsource
    have htarget := h.wellFormed.intern_lt target
    refine ih ((h.intern target).addReference (.inr ⟨hsource', htarget⟩)) ?_
    exact (extends_addReference _ _ _).classes.lt_size hsource'

theorem define (h : registry.Sound) (c : ClassId) (record : ClassRecord) :
    Sound { registry with classes := registry.classes.modify c (Registry.define record) } where
  wellFormed := ⟨h.wellFormed.classes.modify (f := Registry.define record) (fun _ => rfl) c,
    h.wellFormed.resources⟩
  references := h.references.define c record
  proper := h.proper

theorem register (h : registry.Sound) (record : ClassRecord) :
    (registry.register record).1.Sound := by
  have hintern := h.intern record.name
  unfold Registry.register
  dsimp only
  split_ifs
  · exact hintern
  · refine (hintern.define _ record).addReferences ?_ record.references
    rw [Array.size_modify]
    exact h.wellFormed.intern_lt record.name

theorem addResource (h : registry.Sound) (path : String) (size : Nat) (contents : Option String) :
    (registry.addResource path size contents).1.Sound := by
  have hwellFormed := (keeps_addResource registry path size contents).wellFormed h.wellFormed
  obtain hsame | ⟨hresource, -, service, hservice, hadded⟩ :=
    fst_addResource_cases registry path size contents
  · rw [hsame]
    exact h
  · rw [hadded] at hwellFormed ⊢
    refine ⟨hwellFormed, h.references, fun r entry hr => ?_⟩
    rw [Array.getElem?_push] at hr
    split_ifs at hr
    · cases hr
      exact ResourceEntry.proper_of_descriptorOf hresource hservice
    · exact h.proper r entry hr

/-- An entry may be changed to another that is proper. -/
theorem modifyResource (h : registry.Sound) {f : ResourceEntry → ResourceEntry} {r : ResourceId}
    (hpath : ∀ entry, (f entry).path = entry.path)
    (hf : ∀ entry, registry.resources[r]? = some entry → entry.Proper → (f entry).Proper) :
    Sound { registry with resources := registry.resources.modify r f } where
  wellFormed := ⟨h.wellFormed.classes, h.wellFormed.resources.modify hpath r⟩
  references := h.references
  proper s entry hs := by
    rw [Array.getElem?_modify] at hs
    split_ifs at hs with hrs
    · subst hrs
      obtain ⟨old, hold, rfl⟩ := Option.map_eq_some_iff.1 hs
      exact hf old hold (h.proper r old hold)
    · exact h.proper s entry hs

theorem ensureDescriptor (h : registry.Sound) (r : ResourceId) :
    (registry.ensureDescriptor r).Sound := by
  refine h.modifyResource (fun _ => rfl) fun entry _ hentry => hentry.withService ?_
  cases hservice : entry.service with
  | none => simp
  | some descriptor => exact hentry.nodup descriptor hservice

theorem extendDescriptor (h : registry.Sound) (r : ResourceId) (provider : String) :
    (registry.extendDescriptor r provider).1.Sound := by
  have hensured := h.ensureDescriptor r
  obtain hsame | ⟨entry, descriptor, extended, hentry, hdescriptor, hadd, hextended⟩ :=
    fst_extendDescriptor_cases registry r provider
  · rw [hsame]
    exact hensured
  · rw [hextended]
    have hends := ServiceDescriptor.ends_addProviderAt descriptor entry.path 0 provider
    have hnodup := (hensured.proper r entry hentry).nodup descriptor hdescriptor
    exact hensured.modifyResource (fun _ => rfl) fun _ _ hother =>
      hother.withService ((hends.of_ok hadd).2 hnodup)

theorem addProvider (h : registry.Sound) (path provider : String) :
    (registry.addProvider path provider).1.Sound := by
  obtain ⟨base, r, hbase, hresult⟩ := exists_addProvider registry path provider
  have hsound : base.Sound := by
    obtain hsame | hadded := hbase
    · rw [hsame]
      exact h
    · rw [hadded]
      exact h.addResource path 0 none
  obtain hsame | hextended := hresult
  · rw [hsame]
    exact hsound
  · rw [hextended]
    exact hsound.extendDescriptor r provider

end Sound

theorem Sound.run (h : registry.Sound) {operation : Operation} (hfits : operation.Fits registry) :
    (operation.run registry).Sound := by
  cases operation with
  | intern name => exact h.intern name
  | register record => exact h.register record
  | addReference source target => exact h.addReference hfits
  | addReferenceByName source target =>
    have hsource := (extends_intern _ target).classes.lt_size (h.wellFormed.intern_lt source)
    have htarget := (h.intern source).wellFormed.intern_lt target
    exact ((h.intern source).intern target).addReference (.inr ⟨hsource, htarget⟩)
  | addResource path size contents => exact h.addResource path size contents
  | addProvider path provider => exact h.addProvider path provider

end Registry

end ModuleGraph
